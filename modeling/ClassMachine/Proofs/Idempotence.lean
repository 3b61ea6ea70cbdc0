import Mathlib.Data.List.TakeDrop
import Mathlib.Data.List.TakeWhile
import ClassMachine.Proofs.Resolution
import ClassMachine.Proofs.Text

/-!
# Normalizing twice

Normalized code stays as it is when it is normalized again, with two exceptions:
a mnemonic that can be split once more, and a number in the place of a symbol
(`Instruction.Stable` excludes both). Only a split mnemonic can leave either of
them behind, so they do not arise from the mnemonics that number their variable
or their constant.

The first pass is compared with what it gives, family by family: operands are
`Fixed` if it leaves them as they are. Resolution keeps them fixed
(`Fixed.resolved`).
-/

namespace ClassMachine

variable {className method name : String} {code : List Instruction} {insn insn' : Instruction}
  {operand operand' : Operand} {operands operands' : List Operand} {m m' : MethodCode}
  {comment : Option String} {family : Family} {base op : Opcode} {value : Int32}

/-! ## Mnemonics -/

theorem Text.cutLast?_eq_some {c : Char} {cs before behind : List Char}
    (cut : cutLast? c cs = some (before, behind)) : cs = before ++ c :: behind := by
  obtain ⟨⟨tail, front⟩, first, same⟩ := Option.map_eq_some_iff.1 cut
  obtain ⟨rfl, rfl⟩ := Prod.mk.inj same
  have reversed := congrArg List.reverse (cutFirst?_eq_some first)
  rw [List.reverse_reverse, List.reverse_append, List.reverse_cons, List.append_assoc,
    List.singleton_append] at reversed
  exact reversed

namespace Opcode

/-- Every opcode that is known has a meaning. -/
theorem other_notMem_known (name : String) : .other name ∉ known := by
  simp [known]

/-- A mnemonic without a meaning is kept in upper case. -/
theorem ofMnemonic_eq_other {text : String} (kept : ofMnemonic text = .other name) :
    name = upperCase text := by
  unfold ofMnemonic ofUpperCase at kept
  cases found : known.find? fun op => op.mnemonic == upperCase text with
  | none =>
      rw [found] at kept
      cases kept
      rfl
  | some op =>
      rw [found] at kept
      cases kept
      exact (other_notMem_known name (List.mem_of_find?_eq_some found)).elim

/-- The base of a suffixed mnemonic stands before its last underscore. -/
theorem splitSuffix?_eq_some (split : splitSuffix? name = some (base, value)) :
    ∃ front suffix, Text.cutLast? '_' name.toList = some (front, suffix) ∧
      base = ofMnemonic (String.ofList front) := by
  unfold splitSuffix? at split
  obtain ⟨⟨front, suffix⟩, cut, split⟩ := Option.bind_eq_some_iff.1 split
  refine ⟨front, suffix, cut, ?_⟩
  dsimp only at split
  split at split
  · cases split
    rfl
  · split at split
    · obtain ⟨_, _, done⟩ := Option.bind_eq_some_iff.1 split
      cases done
      rfl
    · cases split

/-- The base of a suffixed mnemonic is shorter. -/
theorem ne_other_of_splitSuffix? (split : splitSuffix? name = some (base, value)) :
    base ≠ .other name := by
  obtain ⟨front, suffix, cut, rfl⟩ := splitSuffix?_eq_some split
  intro kept
  have upper := congrArg (fun s => s.toList.length) (ofMnemonic_eq_other kept)
  have parts := congrArg List.length (Text.cutLast?_eq_some cut)
  simp only [upperCase, String.toList_ofList, List.length_map] at upper
  simp only [List.length_append, List.length_cons] at parts
  omega

/-- Splitting a mnemonic gives another opcode. -/
theorem ne_self_of_split? (split : op.split? = some (base, value)) : base ≠ op := by
  cases op with
  | other name => exact ne_other_of_splitSuffix? split
  | _ => cases split

end Opcode

/-! ## Fixed operands -/

theorem Operand.unpooled_unpooled (operand : Operand) :
    operand.unpooled.unpooled = operand.unpooled := by
  cases operand <;> rfl

theorem Operand.asOffset_asOffset (operand : Operand) :
    operand.asOffset.asOffset = operand.asOffset := by
  cases operand with
  | int value => by_cases positive : 0 ≤ value.toInt <;> simp [asOffset, positive]
  | _ => rfl

theorem Operand.ofSlot_ne_int (value value' : Int32) : Operand.ofSlot value ≠ .int value' := by
  unfold Operand.ofSlot
  split <;> nofun

/-- Resolution keeps operands that a function fixes one by one. -/
theorem map_eq_self_of_resolvedTo {f : Operand → Operand}
    (target : ∀ index, f (.target index) = .target index) (fixed : operands.map f = operands)
    (pairs : List.Forall₂ (Operand.ResolvedTo code) operands operands') :
    operands'.map f = operands' := by
  induction pairs with
  | nil => rfl
  | cons resolved _ ih =>
      obtain ⟨head, tail⟩ := List.cons.inj fixed
      rw [List.map_cons, ih tail]
      cases resolved with
      | jump => rw [target]
      | other => rw [head]

theorem head?_localOperands (operands : List Operand) (value : Int32) :
    (localOperands operands).head? ≠ some (.int value) := by
  intro first
  unfold localOperands at first
  split at first
  · exact Operand.ofSlot_ne_int _ _ (Option.some.inj first)
  · rename_i numberless
    obtain ⟨rest, rfl⟩ := List.head?_eq_some_iff.1 first
    exact numberless value rest rfl

theorem localOperands_eq_self_iff :
    localOperands operands = operands ↔ ∀ value, operands.head? ≠ some (.int value) := by
  constructor
  · intro fixed value
    rw [← fixed]
    exact head?_localOperands operands value
  · intro numberless
    unfold localOperands
    split
    · exact (numberless _ rfl).elim
    · rfl

/-- The symbol that stands for a comment: what is read from it, or its text. -/
def symbolOf (read : String → Option Operand) : Option String → Operand
  | some text => (read text).getD (.raw text)
  | none => .raw ""

section Symbols

variable {isClassified : Operand → Bool} {read : String → Option Operand}

/-- The first operand is described: it is classified, or it is the symbol of the
comment in the place of a pool token. -/
def IsDescribed (isClassified : Operand → Bool) (read : String → Option Operand)
    (comment : Option String) (operands : List Operand) : Prop :=
  ∃ first rest, operands = first :: rest ∧
    (isClassified first = true ∨ first.isReplaceable = true ∧ first = symbolOf read comment)

theorem symbolOperands_cons (first : Operand) (rest : List Operand) :
    symbolOperands isClassified read comment (first :: rest) =
      if isClassified first then first :: rest
      else if first.isReplaceable then symbolOf read comment :: rest
      else symbolOf read comment :: first :: rest :=
  rfl

theorem symbolOperands_eq_self_iff :
    symbolOperands isClassified read comment operands = operands ↔
      IsDescribed isClassified read comment operands := by
  cases operands with
  | nil =>
      refine ⟨nofun, fun described => ?_⟩
      obtain ⟨_, _, eq, _⟩ := described
      cases eq
  | cons first rest =>
      rw [symbolOperands_cons]
      constructor
      · intro fixed
        refine ⟨first, rest, rfl, ?_⟩
        split at fixed
        · exact Or.inl ‹_›
        · split at fixed
          · exact Or.inr ⟨‹_›, (List.cons.inj fixed).1.symm⟩
          · have longer := congrArg List.length fixed
            simp at longer
      · rintro ⟨_, _, eq, described⟩
        cases eq
        rcases described with classified | ⟨replaceable, same⟩
        · rw [if_pos classified]
        · rw [if_pos replaceable, ← same]
          exact ite_self _

/-- What the first pass gives is described. -/
theorem isDescribed_symbolOperands
    (reads : ∀ text operand, read text = some operand → isClassified operand = true)
    (comment : Option String) (operands : List Operand) :
    IsDescribed isClassified read comment (symbolOperands isClassified read comment operands) := by
  have symbol : isClassified (symbolOf read comment) = true ∨
      (symbolOf read comment).isReplaceable = true := by
    cases comment with
    | none => exact Or.inr rfl
    | some text =>
        rw [symbolOf]
        cases found : read text with
        | none => exact Or.inr rfl
        | some operand => exact Or.inl (reads text operand found)
  have described (rest : List Operand) :
      IsDescribed isClassified read comment (symbolOf read comment :: rest) :=
    ⟨_, rest, rfl, symbol.imp_right fun replaceable => ⟨replaceable, rfl⟩⟩
  cases operands with
  | nil => exact described []
  | cons first rest =>
      rw [symbolOperands_cons]
      split
      · exact ⟨first, rest, rfl, Or.inl ‹_›⟩
      · split <;> exact described _

end Symbols

/-- The reading of comments in the families that describe their operands. -/
theorem classifiedOperands_of_described (className : String)
    (described : family.isDescribed = true) :
    ∃ (isClassified : Operand → Bool) (read : String → Option Operand),
      (∀ comment operands, classifiedOperands className family comment operands =
        symbolOperands isClassified read comment operands) ∧
      (∀ text operand, read text = some operand → isClassified operand = true) ∧
      (∀ value, isClassified (.int value) = false) ∧
      ∀ position, isClassified (.offset position) = false := by
  have reads {α : Type} {isClassified : Operand → Bool} (symbol : α → Operand)
      (classifies : ∀ a, isClassified (symbol a) = true) (source : String → Option α)
      (text : String) (operand : Operand) (found : (source text).map symbol = some operand) :
      isClassified operand = true := by
    obtain ⟨a, _, rfl⟩ := Option.map_eq_some_iff.1 found
    exact classifies a
  cases family with
  | constantLoad =>
      exact ⟨_, _, fun _ _ => rfl, reads .constant (fun _ => rfl) _, fun _ => rfl, fun _ => rfl⟩
  | fieldAccess =>
      exact ⟨_, _, fun _ _ => rfl, reads .field (fun _ => rfl) _, fun _ => rfl, fun _ => rfl⟩
  | invocation =>
      exact ⟨_, _, fun _ _ => rfl, reads .method (fun _ => rfl) _, fun _ => rfl, fun _ => rfl⟩
  | typeReference =>
      exact ⟨_, _, fun _ _ => rfl, reads .classRef (fun _ => rfl) _, fun _ => rfl, fun _ => rfl⟩
  | _ => cases described

/-- Operands that the first pass leaves as they are. -/
def Fixed (className : String) (family : Family) (comment : Option String)
    (operands : List Operand) : Prop :=
  classifiedOperands className family comment operands = operands

/-- What the first pass gives is fixed. -/
theorem fixed_classifiedOperands (className : String) (family : Family)
    (comment : Option String) (operands : List Operand) :
    Fixed className family comment (classifiedOperands className family comment operands) := by
  unfold Fixed
  by_cases described : family.isDescribed = true
  · obtain ⟨isClassified, read, eq, reads, _, _⟩ :=
      classifiedOperands_of_described className described
    rw [eq, eq]
    exact symbolOperands_eq_self_iff.2 (isDescribed_symbolOperands reads comment operands)
  · cases family with
    | immediate | plain =>
        simp only [classifiedOperands, List.map_map, Function.comp_def, Operand.unpooled_unpooled]
    | controlTransfer =>
        simp only [classifiedOperands, List.map_map, Function.comp_def, Operand.asOffset_asOffset]
    | localVariable => exact localOperands_eq_self_iff.2 (head?_localOperands operands)
    | _ => exact (described rfl).elim

/-- Resolution touches offsets only, so fixed operands stay fixed. -/
theorem Fixed.resolved (fixed : Fixed className family comment operands)
    (pairs : List.Forall₂ (Operand.ResolvedTo code) operands operands') :
    Fixed className family comment operands' := by
  unfold Fixed at fixed ⊢
  by_cases described : family.isDescribed = true
  · obtain ⟨isClassified, read, eq, _, _, offset⟩ :=
      classifiedOperands_of_described className described
    rw [eq, symbolOperands_eq_self_iff] at fixed ⊢
    -- Only the first operand matters to a comment, and an offset there is no symbol.
    obtain ⟨first, rest, rfl, head⟩ := fixed
    obtain ⟨first', rest', resolved, _, rfl⟩ := List.forall₂_cons_left_iff.1 pairs
    cases resolved with
    | other => exact ⟨first, rest', rfl, head⟩
    | jump =>
        rcases head with classified | ⟨replaceable, _⟩
        · rw [offset] at classified
          cases classified
        · cases replaceable
  · cases family with
    | immediate | plain | controlTransfer =>
        exact map_eq_self_of_resolvedTo (fun _ => rfl) fixed pairs
    | localVariable =>
        have numberless := localOperands_eq_self_iff.1 fixed
        refine localOperands_eq_self_iff.2 fun value first => ?_
        obtain ⟨rest', rfl⟩ := List.head?_eq_some_iff.1 first
        obtain ⟨operand, rest, resolved, _, rfl⟩ := List.forall₂_cons_right_iff.1 pairs
        cases resolved with
        | other => exact numberless value rfl
    | _ => exact (described rfl).elim

/-- Fixed operands of a described instruction do not start with a number. -/
theorem Fixed.head?_ne_int (fixed : Fixed className family comment operands)
    (described : family.isDescribed = true) (value : Int32) :
    operands.head? ≠ some (.int value) := by
  obtain ⟨isClassified, read, eq, _, number, _⟩ :=
    classifiedOperands_of_described className described
  unfold Fixed at fixed
  rw [eq, symbolOperands_eq_self_iff] at fixed
  obtain ⟨first, rest, rfl, head⟩ := fixed
  intro same
  cases Option.some.inj same
  rcases head with classified | ⟨replaceable, _⟩
  · rw [number] at classified
    cases classified
  · cases replaceable

/-- The number of a split mnemonic is fixed where no comment describes it. -/
theorem fixed_suffixOperand (className : String) (comment : Option String) (base : Opcode)
    (value : Int32) (plain : base.family.isDescribed = false)
    (still : base.family ≠ .controlTransfer) :
    Fixed className base.family comment [suffixOperand base value] := by
  unfold Fixed suffixOperand
  cases family : base.family with
  | immediate | plain => rfl
  | localVariable =>
      refine localOperands_eq_self_iff.2 fun value' first => ?_
      exact Operand.ofSlot_ne_int _ _ (Option.some.inj first)
  | controlTransfer => exact (still family).elim
  | _ =>
      rw [family] at plain
      cases plain

/-- Only the number of a local variable becomes something else. -/
theorem suffixOperand_of_ne (other : base.family ≠ .localVariable) (value : Int32) :
    suffixOperand base value = .int value :=
  if_neg other

/-! ## Stable instructions -/

namespace Instruction

/-- An instruction that normalization would not change any more: its mnemonic cannot
be split, and no number stands where a comment describes a symbol. -/
structure Stable (insn : Instruction) : Prop where
  unsplit : insn.opcode.split? = none
  described : insn.opcode.family.isDescribed = true →
    ∀ value, insn.operands.head? ≠ some (.int value)

theorem normalize_of_unsplit (unsplit : insn.opcode.split? = none) (className : String) :
    insn.normalize className = { insn with
      operands := classifiedOperands className insn.opcode.family insn.comment insn.operands } := by
  rw [normalize, unsplit]

theorem normalize_of_split (split : insn.opcode.split? = some (base, value))
    (className : String) :
    insn.normalize className = { insn with
      opcode := base, operands := [suffixOperand base value] } := by
  rw [normalize, split]

theorem normalize_eq_self_iff (unsplit : insn.opcode.split? = none) :
    insn.normalize className = insn ↔
      Fixed className insn.opcode.family insn.comment insn.operands := by
  rw [normalize_of_unsplit unsplit, Fixed]
  constructor
  · intro same
    exact congrArg Instruction.operands same
  · intro fixed
    rw [fixed]

/-- An instruction that both passes leave as it is is stable. -/
theorem stable_of_resolve_eq_self
    (same : (insn.normalize className).resolve className method code = .ok insn) :
    insn.Stable := by
  obtain ⟨_, _, opcode, pairs⟩ := resolvedTo_of_resolve_eq_ok same
  have unsplit : insn.opcode.split? = none := by
    cases split : insn.opcode.split? with
    | none => rfl
    | some parts =>
        rw [normalize_of_split split] at opcode
        exact (Opcode.ne_self_of_split? split opcode.symm).elim
  refine ⟨unsplit, fun described value first => ?_⟩
  -- A symbol would have been put in front of the number.
  obtain ⟨rest, operands⟩ := List.head?_eq_some_iff.1 first
  obtain ⟨isClassified, read, reading, _, number, _⟩ :=
    classifiedOperands_of_described className described
  have longer := pairs.length_eq
  rw [normalize_of_unsplit unsplit, reading, operands, symbolOperands_cons, number,
    if_neg Bool.false_ne_true] at longer
  exact absurd longer (by simp [Operand.isReplaceable])

/-- The operands after the first pass are fixed, unless they are a number that was
split off a mnemonic. -/
theorem fixed_normalize
    (jumps : (insn.normalize className).opcode.family = .controlTransfer →
      (insn.normalize className).HasJump)
    (numberless : (insn.normalize className).opcode.family.isDescribed = true →
      ∀ value, (insn.normalize className).operands.head? ≠ some (.int value)) :
    Fixed className (insn.normalize className).opcode.family insn.comment
      (insn.normalize className).operands := by
  cases split : insn.opcode.split? with
  | none =>
      rw [normalize_of_unsplit split]
      exact fixed_classifiedOperands className _ _ _
  | some parts =>
      -- The number is the only operand then, so it is neither a jump nor described.
      obtain ⟨base, value⟩ := parts
      rw [normalize_of_split split] at jumps numberless ⊢
      refine fixed_suffixOperand className insn.comment base value ?_ fun family => ?_
      · refine Bool.eq_false_iff.2 fun described => numberless described value ?_
        have other : base.family ≠ .localVariable := fun family => by
          rw [family] at described
          cases described
        exact congrArg some (suffixOperand_of_ne other value)
      · have other : base.family ≠ .localVariable := fun same => by
          rw [family] at same
          cases same
        have jump := jumps family
        rw [HasJump, suffixOperand_of_ne other] at jump
        rcases jump with ⟨_, eq⟩ | ⟨_, eq⟩ <;> cases eq

/-- A stable instruction that both passes have given stays as it is. -/
theorem normalize_eq_self_of_resolve
    (resolved : (insn.normalize className).resolve className method code = .ok insn')
    (stable : insn'.Stable) : insn'.normalize className = insn' := by
  have jumps := (resolve_eq_ok_iff.1 resolved).1
  obtain ⟨_, comment, opcode, pairs⟩ := resolvedTo_of_resolve_eq_ok resolved
  refine (normalize_eq_self_iff stable.unsplit).2 ?_
  rw [opcode, comment]
  refine (fixed_normalize jumps fun described value first => ?_).resolved pairs
  obtain ⟨rest, operands⟩ := List.head?_eq_some_iff.1 first
  rw [operands] at pairs
  obtain ⟨first', rest', same, _, operands'⟩ := List.forall₂_cons_left_iff.1 pairs
  cases same with
  | other => exact stable.described (opcode ▸ described) value (by rw [operands']; rfl)

/-- The operands of a jump stay those of a jump. -/
theorem HasJump.resolved (jump : insn.HasJump)
    (pairs : List.Forall₂ (Operand.ResolvedTo code) insn.operands insn'.operands) :
    insn'.HasJump := by
  unfold HasJump at jump ⊢
  generalize insn.operands = operands at jump pairs
  rcases jump with ⟨position, rfl⟩ | ⟨index, rfl⟩
  · obtain ⟨operand', _, resolved, nothing, operands'⟩ := List.forall₂_cons_left_iff.1 pairs
    cases nothing
    cases resolved with
    | jump => exact Or.inr ⟨_, operands'⟩
    | other other => exact (other position rfl).elim
  · obtain ⟨operand', _, resolved, nothing, operands'⟩ := List.forall₂_cons_left_iff.1 pairs
    cases nothing
    cases resolved with
    | other => exact Or.inr ⟨index, operands'⟩

/-- A resolved instruction has nothing left to resolve, in whatever code. -/
theorem resolve_resolved (resolved : insn.resolve className method code = .ok insn')
    (className' method' : String) (code' : List Instruction) :
    insn'.resolve className' method' code' = .ok insn' := by
  obtain ⟨jumps, same, pairs⟩ := resolve_eq_ok_iff.1 resolved
  have opcode : insn'.opcode = insn.opcode := by rw [same]
  refine resolve_eq_ok_iff.2 ⟨fun family => (jumps (opcode ▸ family)).resolved pairs, rfl, ?_⟩
  refine List.forall₂_same.2 fun operand member => .other fun position eq => ?_
  obtain ⟨_, _, left⟩ := mem_of_mapM (Operand.mapM_resolve_eq_ok_iff.2 pairs) member
  exact (Operand.resolve_eq_ok_iff.1 left).ne_offset position eq

/-- What both passes have given stays as it is if and only if it is stable. -/
theorem resolve_eq_self_iff_stable {method' : String} {code' : List Instruction}
    (resolved : (insn.normalize className).resolve className method code = .ok insn') :
    (insn'.normalize className).resolve className method' code' = .ok insn' ↔ insn'.Stable := by
  refine ⟨stable_of_resolve_eq_self, fun stable => ?_⟩
  rw [normalize_eq_self_of_resolve resolved stable]
  exact resolve_resolved resolved className method' code'

end Instruction

/-- The opcodes that have mnemonics with a number: those of a local variable and
those of a constant. -/
inductive Opcode.TakesNumber : Opcode → Prop
  | load (slot : Slot) : TakesNumber (.load slot)
  | store (slot : Slot) : TakesNumber (.store slot)
  | iconst : TakesNumber .iconst
  | lconst : TakesNumber .lconst
  | fconst : TakesNumber .fconst
  | dconst : TakesNumber .dconst

/-- Such an opcode cannot be split, and no comment describes its operands. -/
theorem Opcode.TakesNumber.plain (numbered : base.TakesNumber) :
    base.split? = none ∧ base.family.isDescribed = false := by
  cases numbered <;> exact ⟨rfl, rfl⟩

/-- Only a split mnemonic leaves something unstable behind, and none of those that
number their variable or their constant does. -/
theorem Instruction.stable_of_takesNumber
    (resolved : (insn.normalize className).resolve className method code = .ok insn')
    (numbered : ∀ base value, insn.opcode.split? = some (base, value) → base.TakesNumber) :
    insn'.Stable := by
  obtain ⟨_, _, opcode, pairs⟩ := resolvedTo_of_resolve_eq_ok resolved
  cases split : insn.opcode.split? with
  | none =>
      rw [normalize_of_unsplit split] at opcode pairs
      refine ⟨by rw [opcode]; exact split, fun described => ?_⟩
      have fixed := fixed_classifiedOperands className insn.opcode.family insn.comment insn.operands
      exact (fixed.resolved pairs).head?_ne_int (opcode ▸ described)
  | some parts =>
      obtain ⟨base, value⟩ := parts
      rw [normalize_of_split split] at opcode
      obtain ⟨unsplit, plain⟩ := (numbered base value split).plain
      refine ⟨by rw [opcode]; exact unsplit, fun described => ?_⟩
      rw [opcode, plain] at described
      cases described

/-! ## Methods and classes -/

namespace MethodCode

theorem normalize_eq_self_iff :
    m.normalize className = .ok m ↔
      ∀ insn ∈ m.instructions, m.resolveAt className insn = .ok insn := by
  have each : m.instructions.mapM (m.resolveAt className) = .ok m.instructions ↔
      ∀ insn ∈ m.instructions, m.resolveAt className insn = .ok insn :=
    mapM_eq_ok_iff.trans List.forall₂_same
  rw [normalize_eq_ok_iff, ← each]
  constructor
  · rintro ⟨instructions, mapped, same⟩
    have instructions' : m.instructions = instructions := congrArg MethodCode.instructions same
    rw [mapped, instructions']
  · intro mapped
    exact ⟨m.instructions, mapped, rfl⟩

/-- A normalized method stays as it is if and only if its instructions are stable. -/
theorem normalize_eq_self_iff_stable (normal : m.normalize className = .ok m') :
    m'.normalize className = .ok m' ↔ ∀ insn ∈ m'.instructions, insn.Stable := by
  obtain ⟨instructions, mapped, rfl⟩ := normalize_eq_ok_iff.1 normal
  rw [normalize_eq_self_iff]
  refine forall₂_congr fun insn member => ?_
  obtain ⟨original, _, resolved⟩ := mem_of_mapM mapped member
  exact Instruction.resolve_eq_self_iff_stable resolved

end MethodCode

namespace ClassCode

variable {c n : ClassCode}

/-- A normalized class stays as it is if and only if its methods do. -/
theorem normalize_eq_self_iff (normal : c.normalize = .ok n) :
    n.normalize = .ok n ↔
      ∀ m ∈ n.methods, m.normalize (canonicalName c.name) = .ok m := by
  obtain ⟨name, superName, _⟩ := normalize_eq_ok_iff.1 normal
  rw [normalize_eq_ok_iff, name, superName, canonicalName_canonicalName,
    canonicalName_canonicalName, mapM_eq_ok_iff, List.forall₂_same]
  simp only [true_and]

/-- **Normalizing twice.** Normalized code stays as it is when it is normalized again
if and only if all its instructions are stable. They are if every mnemonic that was
split numbers its variable or its constant. -/
theorem normalize_normalize_iff (normal : c.normalize = .ok n) :
    (n.normalize = .ok n ↔ ∀ m ∈ n.methods, ∀ insn ∈ m.instructions, insn.Stable) ∧
    ((∀ m ∈ c.methods, ∀ insn ∈ m.instructions, ∀ base value,
        insn.opcode.split? = some (base, value) → base.TakesNumber) →
      n.normalize = .ok n) := by
  obtain ⟨_, _, mapped⟩ := normalize_eq_ok_iff.1 normal
  have boundary : n.normalize = .ok n ↔ ∀ m ∈ n.methods, ∀ insn ∈ m.instructions, insn.Stable := by
    rw [normalize_eq_self_iff normal]
    refine forall₂_congr fun m member => ?_
    obtain ⟨original, _, normal⟩ := mem_of_mapM mapped member
    exact MethodCode.normalize_eq_self_iff_stable normal
  refine ⟨boundary, fun numbered => boundary.2 fun m member insn inside => ?_⟩
  obtain ⟨original, there, normal⟩ := mem_of_mapM mapped member
  obtain ⟨instructions, mapped, rfl⟩ := MethodCode.normalize_eq_ok_iff.1 normal
  obtain ⟨insn', from', resolved⟩ := mem_of_mapM mapped inside
  exact Instruction.stable_of_takesNumber resolved (numbered original there insn' from')

end ClassCode

/-- A class of one instruction. -/
def singleClass (insn : Instruction) : ClassCode where
  name := "p.Single"
  superName := "java.lang.Object"
  methods :=
    [{ name := "run"
       descriptor := "()V"
       flags := .empty
       maxStack := 1
       maxLocals := 1
       argsSize := 0
       instructions := [insn] }]

/-- A numbered variable is normalized once and for all. A numbered literal is not: its
comment is read only the second time. -/
theorem single_normalize_normalize :
    (∃ n, (singleClass ⟨0, .other "ALOAD_1", [], none⟩).normalize = .ok n ∧
      n.normalize = .ok n) ∧
    ∃ n, (singleClass ⟨0, .other "LDC_5", [], some "int 7"⟩).normalize = .ok n ∧
      n.normalize ≠ .ok n := by
  constructor
  · obtain ⟨n, normal⟩ : ∃ n, (singleClass ⟨0, .other "ALOAD_1", [], none⟩).normalize = .ok n :=
      ⟨_, rfl⟩
    refine ⟨n, normal, (ClassCode.normalize_normalize_iff normal).2 ?_⟩
    intro m member insn inside base value split
    cases List.mem_singleton.1 member
    cases List.mem_singleton.1 inside
    have base' : base = .load .ref := (Prod.mk.inj (Option.some.inj split)).1.symm
    exact base' ▸ .load .ref
  · let literal : Instruction := ⟨0, .ldc, [.int 5], some "int 7"⟩
    have normal : (singleClass ⟨0, .other "LDC_5", [], some "int 7"⟩).normalize =
        .ok { singleClass literal with name := "p/Single", superName := "java/lang/Object" } :=
      rfl
    refine ⟨_, normal, fun same => ?_⟩
    have stable := (ClassCode.normalize_normalize_iff normal).1.1 same _
      (List.mem_singleton_self _) literal (List.mem_singleton_self _)
    exact stable.described rfl 5 rfl

end ClassMachine
