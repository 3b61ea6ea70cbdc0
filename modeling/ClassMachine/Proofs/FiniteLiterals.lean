import ClassMachine.Proofs.Manifest
import ClassMachine.Proofs.Translation
import ClassMachine.Proofs.WellFormed

/-!
# Which manifests are accepted

JSON has literals for finite numbers alone, so a binary literal that is infinite or not a
number is written as null, and nothing is read from it. All else that translation gives is
accepted (`Manifest.accepts_iff_finite`): finite words have readable literals, and jumps
lead to indices below the number of instructions, which their offsets bound.
-/

namespace ClassMachine

/-! ## Finite literals -/

/-- The word stands for a finite number. -/
def Decimal.Format.IsFinite (f : Decimal.Format) (word : Nat) : Prop :=
  ∃ negative m q, f.decode word = .finite negative m q

/-- A literal that is no infinite number and is a number if it is a binary one. -/
def Constant.IsFinite : Constant → Prop
  | .float word => Decimal.single.IsFinite word.toNat
  | .double word => Decimal.double.IsFinite word.toNat
  | _ => True

def Operand.IsFinite : Operand → Prop
  | .constant value => value.IsFinite
  | _ => True

/-- A class all of whose literals are finite. -/
def ClassCode.IsFinite (c : ClassCode) : Prop :=
  ∀ m ∈ c.methods, ∀ insn ∈ m.instructions, ∀ operand ∈ insn.operands, operand.IsFinite

/-- A class whose jumps lead to indices of 64 bits. -/
def ClassCode.HasIndices (c : ClassCode) : Prop :=
  ∀ m ∈ c.methods, ∀ insn ∈ m.instructions, ∀ index, .target index ∈ insn.operands →
    index < UInt64.size

namespace Manifest

open Json

variable {layout : Decimal.Layout} {f : Decimal.Format} {insn : Instruction} {m : MethodCode}
  {c : ClassCode} {classes : List ClassCode}

theorem isSome_finite?_iff (layout : Decimal.Layout) (word : Nat) :
    (layout.finite? f word).isSome = true ↔ f.IsFinite word := by
  unfold Decimal.Layout.finite? Decimal.Format.IsFinite
  split
  · rename_i negative m q decoded
    exact iff_of_true rfl ⟨negative, m, q, decoded⟩
  · rename_i other
    refine iff_of_false Bool.false_ne_true ?_
    rintro ⟨negative, m, q, decoded⟩
    exact other negative m q decoded

/-- The JSON of a word is read if and only if the word is finite. -/
theorem isSome_word?_ofWord (readable : layout.Readable f) (word : Nat) :
    ((ofWord layout f word).word? f).isSome = true ↔ f.IsFinite word := by
  rw [← isSome_finite?_iff layout]
  unfold ofWord
  cases written : layout.finite? f word with
  | none => exact iff_of_false Bool.false_ne_true Bool.false_ne_true
  | some literal =>
      obtain ⟨value, found⟩ := Option.isSome_iff_exists.1 (readable word literal written).2
      refine iff_of_true ?_ rfl
      simp only [word?, found]
      cases value <;> rfl

/-! ## Acceptance, type by type -/

theorem isSome_toConstant?_iff (origin : Origin) (value : Constant) :
    (toConstant? origin (ofConstant value)).isSome = true ↔ value.IsFinite := by
  cases value with
  | float word =>
      rw [toConstant?, ofConstant, ofConstant.constant, tagged?_tagged (by decide)]
      refine .trans ?_ (isSome_word?_ofWord Decimal.readable_singleLayout word.toNat)
      exact Bool.eq_iff_iff.1 Option.isSome_map
  | double word =>
      rw [toConstant?, ofConstant, ofConstant.constant, tagged?_tagged (by decide)]
      refine .trans ?_ (isSome_word?_ofWord Decimal.readable_doubleLayout word.toNat)
      exact Bool.eq_iff_iff.1 Option.isSome_map
  | _ =>
      refine iff_of_true ?_ trivial
      exact Option.isSome_iff_exists.2 ⟨_, toConstant?_ofConstant origin trivial⟩

theorem isSome_toOperand?_iff {operand : Operand}
    (inside : ∀ index, operand = .target index → index < UInt64.size) :
    (toOperand? (ofOperand operand)).isSome = true ↔ operand.IsFinite := by
  cases operand with
  | constant value =>
      rw [toOperand?, ofOperand, ofOperand.operand, tagged?_tagged (by decide)]
      refine .trans ?_ (isSome_toConstant?_iff .inPlace value)
      exact Bool.eq_iff_iff.1 Option.isSome_map
  | target index =>
      refine iff_of_true ?_ trivial
      exact Option.isSome_iff_exists.2 ⟨_, toOperand?_ofOperand (inside index rfl)⟩
  | _ =>
      refine iff_of_true ?_ trivial
      exact Option.isSome_iff_exists.2 ⟨_, toOperand?_ofOperand trivial⟩

/-- A list is read if and only if all its items are. -/
theorem isSome_list?_map_iff {α : Type} {read : Json → Option α} {write : α → Json} {xs : List α} :
    ((Json.array (xs.map write)).list? read).isSome = true
      ↔ ∀ x ∈ xs, (read (write x)).isSome = true := by
  rw [list?]
  induction xs with
  | nil => exact iff_of_true rfl (List.forall_mem_nil _)
  | cons x xs ih =>
      rw [List.map_cons, List.mapM_cons, List.forall_mem_cons, ← ih]
      cases read (write x) with
      | none => exact iff_of_false Bool.false_ne_true fun both => Bool.false_ne_true both.1
      | some first =>
          cases (xs.map write).mapM read with
          | none => exact iff_of_false Bool.false_ne_true fun both => Bool.false_ne_true both.2
          | some others => exact iff_of_true rfl ⟨rfl, rfl⟩

theorem isSome_toClass?_iff (indices : c.HasIndices) :
    (toClass? (ofClass c)).isSome = true ↔ c.IsFinite := by
  rw [toClass?_eq, Option.isSome_map, isSome_list?_map_iff]
  refine forall₂_congr fun m member => ?_
  rw [toMethod?_eq, Option.isSome_map, isSome_list?_map_iff]
  refine forall₂_congr fun insn inside => ?_
  rw [toInstruction?_eq, Option.isSome_map, isSome_list?_map_iff]
  refine forall₂_congr fun operand held => isSome_toOperand?_iff fun index target => ?_
  exact indices m member insn inside index (target ▸ held)

/-- A manifest is read if and only if all literals in it are finite. -/
theorem isSome_read?_write_iff (indices : ∀ c ∈ classes, c.HasIndices) :
    (read? (write classes)).isSome = true ↔ ∀ c ∈ classes, c.IsFinite := by
  rw [read?_write_eq, isSome_list?_map_iff]
  exact forall₂_congr fun c member => isSome_toClass?_iff (indices c member)

end Manifest

/-! ## Translated classes -/

/-- A method has at most as many instructions as there are offsets. -/
theorem MethodCode.WellFormed.length_le {m : MethodCode} (wellFormed : m.WellFormed) :
    m.instructions.length ≤ UInt32.size := by
  have distinct : (m.instructions.map fun insn => insn.offset.toFin).Nodup := by
    refine List.pairwise_map.2 (wellFormed.increasing.imp fun less same => ?_)
    exact UInt32.ne_of_lt less (UInt32.toFin_inj.1 same)
  have count := distinct.length_le_card
  rwa [List.length_map, Fintype.card_fin] at count

theorem hasIndices_of_readListing {c : ClassCode} {text : String}
    (read : readListing text = .ok c) : c.HasIndices := by
  intro m member insn inside index held
  have translated := readListing_translated read m member
  have below := (translated.instructions insn inside).inside index held
  obtain ⟨scanned, parsed, normal⟩ := bind_eq_ok.1 read
  obtain ⟨methods, mapped, done⟩ := bind_eq_ok.1 normal
  cases done
  obtain ⟨original, source, normal⟩ := mem_of_mapM mapped member
  obtain ⟨code, resolved, done⟩ := bind_eq_ok.1 normal
  cases done
  have length : code.length = original.instructions.length :=
    (length_of_mapM resolved).trans (List.length_map _)
  have wellFormed := ((Listing.parse_wellFormed text).1 scanned parsed).methods original source
  calc index < code.length := below
    _ = original.instructions.length := length
    _ ≤ UInt32.size := wellFormed.length_le
    _ ≤ UInt64.size := by decide

/-- **What is written for a source is accepted** if and only if every binary literal in its
classes is a finite number. -/
theorem Manifest.accepts_iff_finite {source : String → Except SourceError String}
    {names : List String} {classes : List ClassCode}
    (translated : names.mapM (readNamed source) = .ok classes) :
    (∃ again, read? (write classes) = some again) ↔ ∀ c ∈ classes, c.IsFinite := by
  rw [← Option.isSome_iff_exists]
  refine isSome_read?_write_iff fun c member => ?_
  obtain ⟨name, _, named⟩ := mem_of_mapM translated member
  obtain ⟨text, read⟩ := readNamed_eq_ok named
  exact hasIndices_of_readListing read

/-- A listing whose methods load the given literals. -/
def literalListing (float double : String) : String :=
  "class A \x7b\n static float f();\n descriptor: ()F\n Code:\n 0: ldc #1 // float " ++ float
    ++ "\n 2: freturn\n\n static double d();\n descriptor: ()D\n Code:\n 0: ldc2_w #2 // double "
    ++ double ++ "\n 3: dreturn\n\x7d"

/-- A method that gives a literal. -/
def literalMethod (name descriptor : String) (code : List Instruction) : MethodCode where
  name := name
  descriptor := descriptor
  flags := .empty
  maxStack := 0
  maxLocals := 0
  argsSize := 0
  instructions := code

/-- The class of that listing, with the words of the literals. -/
def literalClass (float double : String) (word : UInt32) (word' : UInt64) : ClassCode where
  name := "A"
  superName := rootClass
  methods :=
    [literalMethod "f" "()F"
      [⟨0, .ldc, [.constant (.float word)], some ("float " ++ float)⟩,
        ⟨2, .returnValue .float, [], none⟩],
      literalMethod "d" "()D"
        [⟨0, .ldc2W, [.constant (.double word')], some ("double " ++ double)⟩,
          ⟨3, .returnValue .double, [], none⟩]]

/-- The greatest numbers are accepted. -/
theorem greatest_accepted :
    let listing := literalListing "3.4028235E38f" "1.7976931348623157E308d"
    let c := literalClass "3.4028235E38f" "1.7976931348623157E308d" 0x7F7FFFFF 0x7FEFFFFFFFFFFFFF
    ["A"].mapM (readNamed fun _ => .ok listing) = .ok [c] ∧
      ∃ again, Manifest.read? (Manifest.write [c]) = some again := by
  intro listing c
  have translated : ["A"].mapM (readNamed fun _ => .ok listing) = .ok [c] :=
    eq_ok_of_toOption (by decide +kernel)
  have single : Decimal.single.IsFinite 0x7F7FFFFF := ⟨false, 2 ^ 24 - 1, 104, by decide +kernel⟩
  have double : Decimal.double.IsFinite 0x7FEFFFFFFFFFFFFF :=
    ⟨false, 2 ^ 53 - 1, 971, by decide +kernel⟩
  have finite : ∀ c' ∈ [c], c'.IsFinite := by
    simp [c, literalClass, literalMethod, ClassCode.IsFinite, Operand.IsFinite, Constant.IsFinite,
      single, double]
  exact ⟨translated, (Manifest.accepts_iff_finite translated).2 finite⟩

/-- A literal that is not a number is refused, and so is an infinite one. -/
theorem notANumber_refused :
    let listing := literalListing "NaNf" "1e999"
    let c := literalClass "NaNf" "1e999" 0x7FC00000 0x7FF0000000000000
    ["A"].mapM (readNamed fun _ => .ok listing) = .ok [c] ∧
      Manifest.read? (Manifest.write [c]) = none := by
  intro listing c
  have indices : ∀ c' ∈ [c], c'.HasIndices := by
    simp [c, literalClass, literalMethod, ClassCode.HasIndices]
  refine ⟨eq_ok_of_toOption (by decide +kernel), ?_⟩
  refine Option.not_isSome_iff_eq_none.1 fun accepted => ?_
  have finite := (Manifest.isSome_read?_write_iff indices).1 accepted
  obtain ⟨negative, m, q, decoded⟩ : Decimal.single.IsFinite (UInt32.toNat 0x7FC00000) :=
    finite c (List.mem_singleton_self _) _ List.mem_cons_self _ List.mem_cons_self _
      List.mem_cons_self
  have refused : Decimal.single.decode (UInt32.toNat 0x7FC00000) = .notANumber := by decide +kernel
  rw [refused] at decoded
  cases decoded

end ClassMachine
