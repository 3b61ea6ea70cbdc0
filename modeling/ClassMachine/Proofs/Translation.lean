import ClassMachine.Proofs.Loaded
import ClassMachine.Proofs.Normal
import ClassMachine.Sources

/-!
# Translation and loading agree

What is read from listings passes every check of loading but one: pool tokens
that no comment describes may be left. Loading refuses these and nothing else.
-/

namespace ClassMachine

variable {c : ClassCode} {classes : List ClassCode} {m : MethodCode} {insn : Instruction}

/-- No pool token is left in the class. -/
def ClassCode.Unpooled (c : ClassCode) : Prop :=
  ∀ m ∈ c.methods, ∀ insn ∈ m.instructions, ∀ index, .pool index ∉ insn.operands

/-- A translated instruction passes the check if no pool token is left in it. -/
theorem Instruction.Translated.checked_iff {length : Nat} (translated : insn.Translated length) :
    insn.Checked length ↔ ∀ index, .pool index ∉ insn.operands := by
  constructor
  · intro checked index member
    cases checked.resolved _ member
  · intro unpooled
    refine ⟨translated.jumps, translated.inside, fun operand member => ?_⟩
    cases operand with
    | pool index => exact (unpooled index member).elim
    | offset position => exact (translated.noOffset position member).elim
    | _ => rfl

theorem MethodCode.Translated.checked_iff (translated : m.Translated) :
    m.Checked ↔ ∀ insn ∈ m.instructions, ∀ index, .pool index ∉ insn.operands := by
  constructor
  · intro checked insn member
    exact (translated.instructions insn member).checked_iff.1 (checked.instructions insn member)
  · intro unpooled
    refine ⟨translated.nonempty, fun insn member => ?_, translated.descriptor⟩
    exact (translated.instructions insn member).checked_iff.2 (unpooled insn member)

theorem load_isOk_iff_unpooled (translated : ∀ c ∈ classes, ∀ m ∈ c.methods, m.Translated) :
    (∃ t, ClassTable.load classes = .ok t) ↔ ∀ c ∈ classes, c.Unpooled := by
  rw [ClassTable.load_isOk_iff]
  constructor
  · intro checked c source m member
    exact (translated c source m member).checked_iff.1 (checked c source m member)
  · intro unpooled c source m member
    exact (translated c source m member).checked_iff.2 (unpooled c source m member)

theorem readListing_translated {text : String} (read : readListing text = .ok c) :
    ∀ m ∈ c.methods, m.Translated := by
  obtain ⟨scanned, parsed, normal⟩ := bind_eq_ok.1 read
  exact ClassCode.normalize_translated (Listing.parse_scanned parsed) normal

theorem readNamed_eq_ok {source : String → Except SourceError String} {name : String}
    (read : readNamed source name = .ok c) : ∃ text, readListing text = .ok c := by
  obtain ⟨text, _, read⟩ := bind_eq_ok.1 read
  cases result : readListing text with
  | ok c' =>
      rw [result] at read
      cases read
      exact ⟨text, result⟩
  | error cause =>
      rw [result] at read
      cases read

/-- **Translation and loading agree.** A class read from a listing, or all the
classes of a source, load if and only if no pool token is left in them. Whatever
is read has code, a well-formed descriptor, exactly one target inside the method
at each control transfer, no target outside and no offset; and pool tokens are
left on local variables or behind the first operand of a described
instruction. -/
theorem translation_loads :
    (∀ text c, readListing text = .ok c →
      (∀ m ∈ c.methods, m.Translated) ∧
      ((∃ t, ClassTable.load [c] = .ok t) ↔ c.Unpooled)) ∧
    ∀ (source : String → Except SourceError String) (names : List String) classes,
      names.mapM (readNamed source) = .ok classes →
      (∀ c ∈ classes, ∀ m ∈ c.methods, m.Translated) ∧
      ((∃ t, ClassTable.load classes = .ok t) ↔ ∀ c ∈ classes, c.Unpooled) := by
  constructor
  · intro text c read
    have translated := readListing_translated read
    refine ⟨translated, ?_⟩
    have loads : (∃ t, ClassTable.load [c] = .ok t) ↔ ∀ c' ∈ [c], c'.Unpooled :=
      load_isOk_iff_unpooled (List.forall_mem_singleton.2 translated)
    rw [List.forall_mem_singleton] at loads
    exact loads
  · intro source names classes read
    have translated : ∀ c ∈ classes, ∀ m ∈ c.methods, m.Translated := by
      intro c member
      obtain ⟨name, _, named⟩ := mem_of_mapM read member
      obtain ⟨text, listed⟩ := readNamed_eq_ok named
      exact readListing_translated listed
    exact ⟨translated, load_isOk_iff_unpooled translated⟩

/-- A listing whose first instruction has a pool token in place of a variable. -/
def pooledListing : String :=
  "class A \x7b\n void f();\n descriptor: ()V\n Code:\n 0: iload #5\n 1: goto 0\n\x7d"

/-- The class of that listing. -/
def pooledClass : ClassCode where
  name := "A"
  superName := "java/lang/Object"
  methods :=
    [{ name := "f"
       descriptor := "()V"
       flags := .empty
       maxStack := 0
       maxLocals := 0
       argsSize := 0
       instructions := [⟨0, .load .int, [.pool 5], none⟩, ⟨1, .goto, [.target 0], none⟩] }]

/-- The listing can be read, but its class cannot be loaded. -/
theorem pooled_translation_loads :
    readListing pooledListing = .ok pooledClass ∧
      ¬ ∃ t, ClassTable.load [pooledClass] = .ok t := by
  have read : readListing pooledListing = .ok pooledClass := by
    have some : (readListing pooledListing).toOption = some pooledClass := by decide +kernel
    cases result : readListing pooledListing with
    | ok c =>
        rw [result] at some
        cases some
        rfl
    | error cause =>
        rw [result] at some
        cases some
  refine ⟨read, fun loads => ?_⟩
  have unpooled := (translation_loads.1 _ _ read).2.1 loads
  exact unpooled _ List.mem_cons_self _ List.mem_cons_self 5 List.mem_cons_self

end ClassMachine
