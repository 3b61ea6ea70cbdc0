import Mathlib
import ClassMachine.Manifest
import ClassMachine.Proofs.Bodies
import ClassMachine.Proofs.Decimals
import ClassMachine.Proofs.Idempotence
import ClassMachine.Proofs.JsonText

/-!
# Manifests lose nothing

A manifest gives back the classes it was written from (`Manifest.reads_back`), if
some mnemonic stands for each of their opcodes, their jumps lead to indices of 64
bits and no literal is a binary number. Each type of a manifest has two lemmas: its
JSON is legible, whatever it holds, and reading it gives the value back. That some
mnemonic stands for each opcode holds of whatever a listing, normalization or a manifest
gives.
-/

namespace ClassMachine

variable {op : Opcode} {insn insn' : Instruction} {m m' : MethodCode} {c c' : ClassCode}
  {classes : List ClassCode}

/-! ## Spelling of opcodes -/

namespace Opcode

/-- An opcode that some mnemonic stands for. -/
def Spelled (op : Opcode) : Prop :=
  ∃ name, op = ofMnemonic name

theorem upperCase_upperCase (s : String) : upperCase (upperCase s) = upperCase s := by
  simp [upperCase, Function.comp_def, Char.toUpper_toUpper_eq_toUpper]

theorem mnemonic_ofMnemonic (name : String) : (ofMnemonic name).mnemonic = upperCase name := by
  unfold ofMnemonic ofUpperCase
  cases found : known.find? fun op => op.mnemonic == upperCase name with
  | none => rfl
  | some op =>
      have same := List.find?_some found
      exact beq_iff_eq.1 same

/-- A spelled opcode is given back by its mnemonic. -/
theorem Spelled.ofMnemonic_mnemonic (spelled : op.Spelled) : ofMnemonic op.mnemonic = op := by
  obtain ⟨name, rfl⟩ := spelled
  rw [mnemonic_ofMnemonic, ofMnemonic, upperCase_upperCase, ← ofMnemonic]

end Opcode

/-! ## Decoding of encoded values -/

namespace Json

variable {range : Text.Range} {n : Int}

theorem int?_ofInt (least : range.least ≤ n) (greatest : n ≤ range.greatest)
    (small : -(UInt64.size / 2 : Nat) ≤ n) (large : n < UInt64.size) :
    (ofInt n).int? range = some n := by
  simp only [int?, ofInt, numeric?_toString small large]
  exact if_pos ⟨least, greatest⟩

theorem nat?_ofNat {n : Nat} (natural : range.least = 0) (greatest : n ≤ range.greatest)
    (large : n < UInt64.size) : (ofNat n).nat? range = some n := by
  have whole : (ofInt n).int? range = some n :=
    int?_ofInt (by omega) greatest (by omega) (by omega)
  exact congrArg (Option.map Int.toNat) whole

theorem text?_ofString (s : String) : (ofString s).text? = some s :=
  rfl

theorem list?_map {α : Type} {read : Json → Option α} {write : α → Json} {xs : List α}
    (back : ∀ x ∈ xs, read (write x) = some x) : (array (xs.map write)).list? read = some xs := by
  rw [list?]
  induction xs with
  | nil => rfl
  | cons x xs ih =>
      obtain ⟨first, others⟩ := List.forall_mem_cons.1 back
      rw [List.map_cons, List.mapM_cons, first, ih others]
      rfl

/-- A record is given back, if it has only known fields and none of them twice. -/
theorem fields?_record {names : List String} {fields : List (String × Json)}
    (known : ∀ field ∈ fields, field.1 ∈ names) (distinct : (fields.map Prod.fst).Nodup) :
    (record fields).fields? names = some fields := by
  have named : (fields.map (Prod.map some id)).mapM
      (fun (field : Option String × Json) => field.1.map fun name => (name, field.2))
      = some fields := by
    clear known distinct
    induction fields with
    | nil => rfl
    | cons field fields ih =>
        rw [List.map_cons, List.mapM_cons, ih]
        rfl
  have kept : (fields.filter fun field => names.contains field.1) = fields :=
    List.filter_eq_self.2 fun field member => List.contains_iff_mem.2 (known field member)
  have chosen : (record fields).fields? names
      = if ((fields.filter fun field => names.contains field.1).map Prod.fst).Nodup
        then some (fields.filter fun field => names.contains field.1) else none :=
    congrArg (fun found => Option.bind found _) named
  rw [chosen, kept, if_pos distinct]

/-- A field that is there is read, and then the others. -/
theorem bind_lookup {α β : Type} {fields : List (String × Json)} {name : String} {value : Json}
    {read : Json → Option α} {rest : α → Option β} (there : fields.lookup name = some value) :
    (do rest (← read (← fields.lookup name))) = (read value).bind rest := by
  simp only [there, Option.bind_eq_bind, Option.bind_some]

theorem bind_field {α β : Type} {fields : List (String × Json)} {name : String} {value : Json}
    {read : Json → Option α} {found : α} {rest : α → Option β}
    (there : fields.lookup name = some value) (reads : read value = some found) :
    (do rest (← read (← fields.lookup name))) = rest found := by
  rw [bind_lookup there, reads, Option.bind_some]

theorem tagged?_tagged {tag content name : String} {value : Json} {names : List String}
    {origin : Origin} (differ : tag ≠ content) :
    (Manifest.tagged tag content name value).tagged? tag content names origin
      = some (name, value, origin) := by
  have fields : (record [(tag, ofString name), (content, value)]).fields? [tag, content]
      = some [(tag, ofString name), (content, value)] :=
    fields?_record (by simp) (by simp [differ])
  rw [record_eq] at fields
  simp only [Manifest.tagged, record_eq, tagged?, fields]
  exact if_pos rfl

end Json

namespace Manifest

open Json

/-! ## Numbers of fixed width -/

theorem toInt32?_ofInt (value : Int32) : toInt32? (.ofInt value.toInt) = some value := by
  have least := value.le_toInt
  have greatest := value.toInt_lt
  have whole : (ofInt value.toInt).int? .int32 = some value.toInt :=
    int?_ofInt (by simp [Text.Range.int32]; omega) (by simp [Text.Range.int32]; omega)
      (by simp; omega) (by simp; omega)
  rw [toInt32?, whole]
  simp

theorem toInt64?_ofInt (value : Int64) : toInt64? (.ofInt value.toInt) = some value := by
  have least := value.le_toInt
  have greatest := value.toInt_lt
  have whole : (ofInt value.toInt).int? .int64 = some value.toInt :=
    int?_ofInt (by simp [Text.Range.int64]; omega) (by simp [Text.Range.int64]; omega)
      (by simp; omega) (by simp; omega)
  rw [toInt64?, whole]
  simp

theorem toUInt16?_ofNat (value : UInt16) : toUInt16? (.ofNat value.toNat) = some value := by
  have greatest := value.toNat_lt
  have whole : (ofNat value.toNat).nat? .uint16 = some value.toNat :=
    nat?_ofNat rfl (by simp [Text.Range.uint16]; omega) (Nat.lt_trans greatest (by decide))
  rw [toUInt16?, whole]
  simp

theorem toUInt32?_ofNat (value : UInt32) : toUInt32? (.ofNat value.toNat) = some value := by
  have greatest := value.toNat_lt
  have whole : (ofNat value.toNat).nat? .uint32 = some value.toNat :=
    nat?_ofNat rfl (by simp [Text.Range.uint32]; omega) (Nat.lt_trans greatest (by decide))
  rw [toUInt32?, whole]
  simp

/-! ## Operands -/

end Manifest

/-- A literal that JSON holds exactly. -/
def Constant.IsExact : Constant → Prop
  | .float _ | .double _ => False
  | _ => True

/-- An operand that a manifest holds exactly. -/
def Operand.IsExact : Operand → Prop
  | .constant value => value.IsExact
  | .target index => index < UInt64.size
  | _ => True

namespace Manifest

open Json

variable {value : Constant} {operand : Operand}

theorem toMember?_ofMember (r : MemberRef) : toMember? (ofMember r) = some r := by
  have fields : (ofMember r).fields? ["owner", "name", "descriptor"] = some _ :=
    fields?_record (by simp) (by simp)
  rw [toMember?, fields]
  rfl

theorem toConstant?_ofConstant (origin : Origin) (precise : value.IsExact) :
    toConstant? origin (ofConstant value) = some value := by
  unfold toConstant?
  cases value with
  | string text | classRef text =>
      rw [ofConstant, ofConstant.constant, tagged?_tagged (by decide)]
      rfl
  | int value =>
      rw [ofConstant, ofConstant.constant, tagged?_tagged (by decide)]
      exact congrArg (Option.map Constant.int) (toInt32?_ofInt value)
  | long value =>
      rw [ofConstant, ofConstant.constant, tagged?_tagged (by decide)]
      exact congrArg (Option.map Constant.long) (toInt64?_ofInt value)
  | float word | double word => exact precise.elim

theorem toOperand?_ofOperand (precise : operand.IsExact) :
    toOperand? (ofOperand operand) = some operand := by
  unfold toOperand?
  cases operand <;> rw [ofOperand, ofOperand.operand, tagged?_tagged (by decide)]
  case raw text | classRef text => rfl
  case int value => exact congrArg (Option.map Operand.int) (toInt32?_ofInt value)
  case slot index => exact congrArg (Option.map Operand.slot) (toUInt16?_ofNat index)
  case pool index => exact congrArg (Option.map Operand.pool) (toUInt16?_ofNat index)
  case offset position =>
    exact congrArg (Option.map Operand.offset) (toUInt32?_ofNat position)
  case target index =>
    -- An index has no bound of its own, so it must fit the number that is read.
    have bound : index < UInt64.size := precise
    have whole : (ofNat index).nat? .uint64 = some index :=
      nat?_ofNat rfl (Int.ofNat_le.2 (Nat.le_of_lt_succ bound)) bound
    exact congrArg (Option.map Operand.target) whole
  case constant value =>
    exact congrArg (Option.map Operand.constant) (toConstant?_ofConstant .inPlace precise)
  case field ref => exact congrArg (Option.map Operand.field) (toMember?_ofMember ref)
  case method ref => exact congrArg (Option.map Operand.method) (toMember?_ofMember ref)

theorem legible_tagged {tag content name : String} {value : Json} (legible : value.Legible) :
    (tagged tag content name value).Legible :=
  .record (by simpa using ⟨.text name, legible⟩)

theorem legible_ofMember (r : MemberRef) : (ofMember r).Legible :=
  .record (by simp [Legible.text])

theorem legible_ofWord {layout : Decimal.Layout} {f : Decimal.Format} (readable : layout.Readable f)
    (word : Nat) : (ofWord layout f word).Legible := by
  unfold ofWord
  split
  · rename_i literal found
    exact .number (readable word literal found).1
  · exact .null

theorem legible_ofConstant (value : Constant) : (ofConstant value).Legible := by
  cases value with
  | string text | classRef text => exact legible_tagged (.text text)
  | int value => exact legible_tagged (.whole value.toInt)
  | long value => exact legible_tagged (.whole value.toInt)
  | float word =>
      exact legible_tagged (legible_ofWord Decimal.readable_singleLayout word.toNat)
  | double word =>
      exact legible_tagged (legible_ofWord Decimal.readable_doubleLayout word.toNat)

theorem legible_ofOperand (operand : Operand) : (ofOperand operand).Legible := by
  cases operand with
  | raw text | classRef text => exact legible_tagged (.text text)
  | int value => exact legible_tagged (.whole value.toInt)
  | slot index | pool index => exact legible_tagged (.whole index.toNat)
  | offset position => exact legible_tagged (.whole position.toNat)
  | target index => exact legible_tagged (.whole index)
  | constant value => exact legible_tagged (legible_ofConstant value)
  | field ref | method ref => exact legible_tagged (legible_ofMember ref)

end Manifest

/-! ## Classes -/

/-- An instruction that a manifest holds exactly. -/
structure Instruction.IsExact (insn : Instruction) : Prop where
  spelled : insn.opcode.Spelled
  operands : ∀ operand ∈ insn.operands, operand.IsExact

/-- A class that a manifest holds exactly. -/
def ClassCode.IsExact (c : ClassCode) : Prop :=
  ∀ m ∈ c.methods, ∀ insn ∈ m.instructions, insn.IsExact

namespace Manifest

open Json

/-- An instruction is given back with the operands that are read for it. -/
theorem toInstruction?_eq (insn : Instruction) :
    toInstruction? (ofInstruction insn)
      = ((Json.array (insn.operands.map ofOperand)).list? toOperand?).map fun operands =>
        { insn with opcode := Opcode.ofMnemonic insn.opcode.mnemonic, operands } := by
  have position := toUInt32?_ofNat insn.offset
  have fields : (ofInstruction insn).fields? ["offset", "opcode", "operands", "comment"] = some _ :=
    fields?_record (by cases insn.comment <;> simp) (by cases insn.comment <;> simp)
  rw [toInstruction?, fields, Option.bind_eq_bind, Option.bind_some]
  refine .trans (bind_field (by rfl) position) ?_
  refine .trans (bind_field (by rfl) (text?_ofString insn.opcode.mnemonic)) ?_
  refine .trans (bind_lookup (by rfl)) ?_
  obtain ⟨offset, opcode, operands, comment⟩ := insn
  cases (Json.array (operands.map ofOperand)).list? toOperand? with
  | none => rfl
  | some operands => cases comment <;> rfl

theorem toInstruction?_ofInstruction (precise : insn.IsExact) :
    toInstruction? (ofInstruction insn) = some insn := by
  have mnemonic : Opcode.ofMnemonic insn.opcode.mnemonic = insn.opcode :=
    precise.spelled.ofMnemonic_mnemonic
  have operands :
      (Json.array (insn.operands.map ofOperand)).list? toOperand? = some insn.operands :=
    list?_map fun operand member => toOperand?_ofOperand (precise.operands operand member)
  rw [toInstruction?_eq, operands, mnemonic]
  rfl

theorem toFlag?_ofString (flag : Flag) : toFlag? (.ofString flag.token) = some flag := by
  cases flag <;> decide

/-- A method is given back with the instructions that are read for it. -/
theorem toMethod?_eq (m : MethodCode) :
    toMethod? (ofMethod m)
      = ((Json.array (m.instructions.map ofInstruction)).list? toInstruction?).map
        fun instructions => { m with instructions } := by
  have flags : (Json.array (m.flags.toList.map fun flag => .ofString flag.token)).list? toFlag?
      = some m.flags.toList := list?_map fun flag _ => toFlag?_ofString flag
  have maxStack := toUInt16?_ofNat m.maxStack
  have maxLocals := toUInt16?_ofNat m.maxLocals
  have argsSize := toUInt16?_ofNat m.argsSize
  have fields : (ofMethod m).fields? ["name", "descriptor", "flags", "maxStack", "maxLocals",
      "argsSize", "instructions"] = some _ := fields?_record (by simp) (by simp)
  rw [toMethod?, fields, Option.bind_eq_bind, Option.bind_some]
  refine .trans (bind_field (by rfl) (text?_ofString m.name)) ?_
  refine .trans (bind_field (by rfl) (text?_ofString m.descriptor)) ?_
  refine .trans (bind_field (by rfl) flags) ?_
  refine .trans (bind_field (by rfl) maxStack) ?_
  refine .trans (bind_field (by rfl) maxLocals) ?_
  refine .trans (bind_field (by rfl) argsSize) ?_
  refine .trans (bind_lookup (by rfl)) ?_
  rw [FlagSet.ofList_toList]
  exact (Option.map_eq_bind ..).symm

theorem toMethod?_ofMethod (precise : ∀ insn ∈ m.instructions, insn.IsExact) :
    toMethod? (ofMethod m) = some m := by
  have instructions : (Json.array (m.instructions.map ofInstruction)).list? toInstruction?
      = some m.instructions :=
    list?_map fun insn member => toInstruction?_ofInstruction (precise insn member)
  rw [toMethod?_eq, instructions]
  rfl

/-- A class is given back with the methods that are read for it. -/
theorem toClass?_eq (c : ClassCode) :
    toClass? (ofClass c)
      = ((Json.array (c.methods.map ofMethod)).list? toMethod?).map
        fun methods => { c with methods } := by
  have fields : (ofClass c).fields? ["name", "superName", "methods"] = some _ :=
    fields?_record (by simp) (by simp)
  rw [toClass?, fields, Option.bind_eq_bind, Option.bind_some]
  refine .trans (bind_field (by rfl) (text?_ofString c.name)) ?_
  refine .trans (bind_field (by rfl) (text?_ofString c.superName)) ?_
  refine .trans (bind_lookup (by rfl)) ?_
  exact (Option.map_eq_bind ..).symm

theorem toClass?_ofClass (precise : c.IsExact) : toClass? (ofClass c) = some c := by
  have methods : (Json.array (c.methods.map ofMethod)).list? toMethod? = some c.methods :=
    list?_map fun m member => toMethod?_ofMethod (precise m member)
  rw [toClass?_eq, methods]
  rfl

/-! ## Texts -/

theorem legible_ofNat (n : Nat) : (ofNat n).Legible :=
  .whole n

theorem legible_map {α : Type} {write : α → Json} {xs : List α}
    (legible : ∀ x ∈ xs, (write x).Legible) : (Json.array (xs.map write)).Legible :=
  .array (List.forall_mem_map.2 legible)

theorem legible_ofInstruction (insn : Instruction) : (ofInstruction insn).Legible := by
  have operands : (Json.array (insn.operands.map ofOperand)).Legible :=
    legible_map fun operand _ => legible_ofOperand operand
  refine .record (List.forall_mem_append.2 ⟨?_, ?_⟩)
  · simp [operands, legible_ofNat, Legible.text]
  · cases insn.comment <;> simp [Legible.text]

theorem legible_ofMethod (m : MethodCode) : (ofMethod m).Legible := by
  have flags : (Json.array (m.flags.toList.map fun flag => .ofString flag.token)).Legible :=
    legible_map fun flag _ => .text flag.token
  have instructions : (Json.array (m.instructions.map ofInstruction)).Legible :=
    legible_map fun insn _ => legible_ofInstruction insn
  exact .record (by simp [flags, instructions, legible_ofNat, Legible.text])

theorem legible_ofClass (c : ClassCode) : (ofClass c).Legible := by
  have methods : (Json.array (c.methods.map ofMethod)).Legible :=
    legible_map fun m _ => legible_ofMethod m
  exact .record (by simp [methods, Legible.text])

/-- The text of a manifest is read as the JSON that it was written from. -/
theorem read?_write_eq (classes : List ClassCode) :
    read? (write classes) = (Json.array (classes.map ofClass)).list? toClass? := by
  have legible : (Json.array (classes.map ofClass)).Legible :=
    legible_map fun c _ => legible_ofClass c
  rw [read?, write, legible.parse?_prettyText]
  rfl

theorem read?_write (precise : ∀ c ∈ classes, c.IsExact) :
    read? (write classes) = some classes := by
  rw [read?_write_eq]
  exact list?_map fun c member => toClass?_ofClass (precise c member)

end Manifest

/-! ## Where opcodes are spelled -/

/-- Some mnemonic stands for each opcode of the class. -/
def ClassCode.Spelled (c : ClassCode) : Prop :=
  ∀ m ∈ c.methods, ∀ insn ∈ m.instructions, insn.opcode.Spelled

theorem Listing.spelled_of_parse {text : String} (parsed : Listing.parse text = .ok c) :
    c.Spelled :=
  Listing.forall_instructions_of_parse (fun parts _ => ⟨String.ofList parts.mnemonic, rfl⟩) parsed

theorem Instruction.spelled_normalize (className : String) (spelled : insn.opcode.Spelled) :
    (insn.normalize className).opcode.Spelled := by
  unfold normalize
  split
  · rename_i base value suffixed
    cases opcode : insn.opcode with
    | other name =>
        rw [opcode] at suffixed
        obtain ⟨front, suffix, cut, rfl⟩ := Opcode.splitSuffix?_eq_some suffixed
        exact ⟨_, rfl⟩
    | _ =>
        rw [opcode] at suffixed
        cases suffixed
  · exact spelled

theorem ClassCode.Spelled.normalize (spelled : c.Spelled) (normal : c.normalize = .ok c') :
    c'.Spelled := by
  obtain ⟨methods, mapped, done⟩ := bind_eq_ok.1 normal
  cases done
  intro m member insn held
  obtain ⟨original, source, normal⟩ := mem_of_mapM mapped member
  obtain ⟨code, resolved, done⟩ := bind_eq_ok.1 normal
  cases done
  obtain ⟨classified, found, resolved⟩ := mem_of_mapM resolved held
  obtain ⟨first, origin, rfl⟩ := List.mem_map.1 found
  rw [(Instruction.resolve_eq_ok resolved).1]
  exact Instruction.spelled_normalize _ (spelled original source first origin)

namespace Manifest

open Json

theorem mem_of_list? {α : Type} {read : Json → Option α} {value : Json} {xs : List α} {x : α}
    (found : value.list? read = some xs) (member : x ∈ xs) : ∃ item, read item = some x := by
  cases value with
  | array items =>
      rw [list?] at found
      induction items generalizing xs with
      | nil =>
          cases found
          cases member
      | cons item items ih =>
          rw [List.mapM_cons] at found
          obtain ⟨first, front, found⟩ := Option.bind_eq_some_iff.1 found
          obtain ⟨others, behind, done⟩ := Option.bind_eq_some_iff.1 found
          cases done
          rcases List.mem_cons.1 member with rfl | later
          · exact ⟨item, front⟩
          · exact ih later behind
  | _ => cases found

theorem spelled_of_toInstruction? {value : Json} (found : toInstruction? value = some insn) :
    insn.opcode.Spelled := by
  simp only [toInstruction?, Option.bind_eq_bind, Option.bind_eq_some_iff] at found
  obtain ⟨fields, -, position, -, offset, -, spelling, -, name, -, found⟩ := found
  obtain ⟨list, -, operands, -, comment, -, done⟩ := found
  cases done
  exact ⟨name, rfl⟩

theorem list?_of_toMethod? {value : Json} (found : toMethod? value = some m) :
    ∃ list : Json, list.list? toInstruction? = some m.instructions := by
  rw [toMethod?] at found
  -- The fields, and then for each of the first six its value and what it stands for.
  iterate 13 obtain ⟨_, -, found⟩ := Option.bind_eq_some_iff.1 found
  obtain ⟨list, -, found⟩ := Option.bind_eq_some_iff.1 found
  obtain ⟨instructions, listed, done⟩ := Option.bind_eq_some_iff.1 found
  cases done
  exact ⟨list, listed⟩

theorem list?_of_toClass? {value : Json} (found : toClass? value = some c) :
    ∃ list : Json, list.list? toMethod? = some c.methods := by
  simp only [toClass?, Option.bind_eq_bind, Option.bind_eq_some_iff] at found
  obtain ⟨fields, -, _, -, name, -, _, -, superName, -, list, -, methods, listed, done⟩ := found
  cases done
  exact ⟨list, listed⟩

theorem spelled_of_read? {text : String} (found : read? text = some classes) :
    ∀ c ∈ classes, c.Spelled := by
  obtain ⟨value, -, listed⟩ := Option.bind_eq_some_iff.1 found
  intro c member m held insn last
  obtain ⟨item, readClass⟩ := mem_of_list? listed member
  obtain ⟨list, methods⟩ := list?_of_toClass? readClass
  obtain ⟨item, readMethod⟩ := mem_of_list? methods held
  obtain ⟨list, instructions⟩ := list?_of_toMethod? readMethod
  obtain ⟨item, readInstruction⟩ := mem_of_list? instructions last
  exact spelled_of_toInstruction? readInstruction

/-- **Manifests lose nothing.** Reading the text of classes gives these classes, for all
strings, numbers, flags and comments, if no literal is a binary number, jumps lead to
indices of 64 bits and some mnemonic stands for each opcode. The last holds of the
class of every listing, is kept by normalization, and holds of the classes of every
manifest. -/
theorem reads_back :
    (∀ classes : List ClassCode, (∀ c ∈ classes, c.IsExact) →
      read? (write classes) = some classes) ∧
    (∀ text c, Listing.parse text = .ok c → c.Spelled) ∧
    (∀ c c' : ClassCode, c.Spelled → c.normalize = .ok c' → c'.Spelled) ∧
    ∀ text classes, read? text = some classes → ∀ c ∈ classes, c.Spelled := by
  refine ⟨fun classes precise => ?_, fun text c parsed => ?_, fun c c' spelled normal => ?_,
    fun text classes found => ?_⟩
  · exact read?_write precise
  · exact Listing.spelled_of_parse parsed
  · exact spelled.normalize normal
  · exact spelled_of_read? found

end Manifest

/-- Code with odd texts and with numbers at the ends of their ranges. -/
def utmostCode : List Instruction :=
  [⟨0, .ldc, [.constant (.string "\\u0000\x00\t // ")], some " \"\\\x08"⟩,
    ⟨4294967295, .goto, [.target 18446744073709551615], none⟩,
    ⟨7, .other "BREAKPOINT", [.int (-2147483648), .slot 65535, .pool 65535, .offset 4294967295,
      .raw "", .constant (.long (-9223372036854775808)), .constant (.int 2147483647),
      .constant (.classRef "B"), .classRef "B", .field ⟨"B", "x", "I"⟩,
      .method ⟨"B", "f", "()V"⟩], some ""⟩]

/-- A class with that code. -/
def utmostClass : ClassCode where
  name := "A\"\\/\n\x01\x1f\x7fé😀"
  superName := ""
  methods :=
    [{ name := "f"
       descriptor := "()V"
       flags := .ofList [.accStatic, .accSynthetic]
       maxStack := 65535
       maxLocals := 0
       argsSize := 65535
       instructions := utmostCode }]

/-- A listing with mnemonics in mixed case. -/
def mixedListing : String :=
  "class A \x7b\n void f();\n descriptor: ()V\n Code:\n 0: iLoad_1\n 1: Breakpoint\n\x7d"

/-- The class of that listing. -/
def mixedClass : ClassCode where
  name := "A"
  superName := "java/lang/Object"
  methods :=
    [{ name := "f"
       descriptor := "()V"
       flags := .empty
       maxStack := 0
       maxLocals := 0
       argsSize := 0
       instructions := [⟨0, .other "ILOAD_1", [], none⟩, ⟨1, .other "BREAKPOINT", [], none⟩] }]

theorem utmost_reads_back :
    Manifest.read? (Manifest.write [utmostClass]) = some [utmostClass] ∧ utmostClass.Spelled ∧
      Listing.parse mixedListing = .ok mixedClass ∧ mixedClass.Spelled ∧
      ∃ c, mixedClass.normalize = .ok c ∧ c.Spelled := by
  have code : ∀ insn ∈ utmostCode, insn.IsExact := by
    intro insn member
    simp only [utmostCode, List.mem_cons, List.not_mem_nil, or_false] at member
    rcases member with rfl | rfl | rfl
    · exact ⟨⟨"ldc", by decide⟩, by simp [Operand.IsExact, Constant.IsExact]⟩
    · exact ⟨⟨"goto", by decide⟩, by simp [Operand.IsExact, UInt64.size]⟩
    · exact ⟨⟨"Breakpoint", by decide⟩, by simp [Operand.IsExact, Constant.IsExact]⟩
  have precise : ∀ c ∈ [utmostClass], c.IsExact := by
    intro c member m held
    cases List.mem_singleton.1 member
    cases List.mem_singleton.1 held
    exact code
  have back := Manifest.reads_back.1 [utmostClass] precise
  have spelled := Manifest.reads_back.2.2.2 _ _ back utmostClass (List.mem_singleton_self _)
  have parsed : Listing.parse mixedListing = .ok mixedClass :=
    eq_ok_of_toOption (by decide +kernel)
  have mixed := Manifest.reads_back.2.1 _ _ parsed
  have normal : ∃ c, mixedClass.normalize = .ok c := ⟨_, rfl⟩
  obtain ⟨c, normal⟩ := normal
  exact ⟨back, spelled, parsed, mixed, c, normal, Manifest.reads_back.2.2.1 _ _ mixed normal⟩

end ClassMachine
