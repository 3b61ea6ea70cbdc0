import ClassMachine.ClassTable
import ClassMachine.Proofs.Outcome

/-!
# What loading guarantees

Loading checks every method on its own, so a list of classes loads if and only
if each of their methods passes (`ClassTable.load_isOk_iff`). Whatever a loaded
table holds has passed, and stands under its own key (`ClassTable.load_sound`).
-/

namespace ClassMachine

variable {length : Nat} {insn : Instruction} {m : MethodCode}

/-! ## The check -/

/-- An instruction that may stand in a method of that length. -/
structure Instruction.Checked (length : Nat) (insn : Instruction) : Prop where
  jumps : insn.opcode.family = .controlTransfer → ∃ index, insn.operands = [.target index]
  inside : ∀ index, .target index ∈ insn.operands → index < length
  resolved : ∀ operand ∈ insn.operands, operand.isUnresolved = false

/-- A method that may be loaded. -/
structure MethodCode.Checked (m : MethodCode) : Prop where
  nonempty : m.instructions ≠ []
  instructions : ∀ insn ∈ m.instructions, insn.Checked m.instructions.length
  descriptor : ∃ descriptor, Descriptor.parse m.descriptor = .ok descriptor

namespace ClassTable

theorem operandFlaw?_eq_none {operand : Operand} :
    operandFlaw? length operand = none ↔
      operand.isUnresolved = false ∧ ∀ index, operand = .target index → index < length := by
  cases operand <;> simp [operandFlaw?, Operand.isUnresolved]

theorem isTarget_iff {operands : List Operand} :
    isTarget operands = true ↔ ∃ index, operands = [.target index] := by
  unfold isTarget
  split
  · simp
  · rename_i other
    simp only [Bool.false_eq_true, false_iff, not_exists]
    exact other

theorem instructionFlaw?_eq_none :
    instructionFlaw? length insn = none ↔ insn.Checked length := by
  have operands : insn.operands.findSome? (operandFlaw? length) = none ↔
      ∀ operand ∈ insn.operands, operand.isUnresolved = false ∧
        ∀ index, operand = .target index → index < length := by
    simp only [List.findSome?_eq_none_iff, operandFlaw?_eq_none]
  unfold instructionFlaw?
  split
  · rename_i bad
    refine ⟨nofun, fun checked => ?_⟩
    have target := isTarget_iff.2 (checked.jumps bad.1)
    rw [target] at bad
    cases bad.2
  · rename_i good
    rw [operands]
    constructor
    · intro all
      refine ⟨fun family => ?_, fun index member => (all _ member).2 index rfl,
        fun operand member => (all operand member).1⟩
      simp only [family, true_and, Bool.not_eq_true', Bool.not_eq_false] at good
      exact isTarget_iff.1 good
    · rintro checked operand member
      exact ⟨checked.resolved operand member, fun index eq => checked.inside index (eq ▸ member)⟩

theorem firstFlaw?_eq_none {index : Nat} {insns : List Instruction} :
    firstFlaw? length index insns = none ↔ ∀ insn ∈ insns, insn.Checked length := by
  induction insns generalizing index with
  | nil => simp [firstFlaw?]
  | cons insn rest ih =>
      rw [firstFlaw?, List.forall_mem_cons, ← instructionFlaw?_eq_none]
      cases flaw : instructionFlaw? length insn with
      | none => simp [ih]
      | some flaw => simp

theorem methodFlaw?_eq_none :
    methodFlaw? m = none ↔
      m.instructions ≠ [] ∧ ∀ insn ∈ m.instructions, insn.Checked m.instructions.length := by
  unfold methodFlaw?
  split
  · rename_i empty
    rw [List.isEmpty_iff] at empty
    exact ⟨nofun, fun checked => (checked.1 empty).elim⟩
  · rename_i nonempty
    rw [List.isEmpty_iff] at nonempty
    rw [firstFlaw?_eq_none]
    exact ⟨fun all => ⟨nonempty, all⟩, And.right⟩

/-! ## What passes the check -/

theorem loadMethod_eq_ok {owner : String} {id : Nat} {method : LoadedMethod} :
    loadMethod owner id m = .ok method ↔
      m.Checked ∧ ∃ descriptor, Descriptor.parse m.descriptor = .ok descriptor ∧
        method = ⟨id, owner, m, descriptor⟩ := by
  unfold loadMethod
  constructor
  · intro loaded
    split at loaded
    · cases loaded
    · rename_i flawless
      split at loaded
      · cases loaded
      · rename_i descriptor parsed
        cases loaded
        obtain ⟨nonempty, instructions⟩ := methodFlaw?_eq_none.1 flawless
        exact ⟨⟨nonempty, instructions, descriptor, parsed⟩, descriptor, parsed, rfl⟩
  · rintro ⟨checked, descriptor, parsed, rfl⟩
    rw [methodFlaw?_eq_none.2 ⟨checked.nonempty, checked.instructions⟩, parsed]

theorem loadMethods_isOk_iff {owner : String} {id : Nat} {methods : List MethodCode}
    {table : Table (String × String) LoadedMethod} :
    (∃ table', loadMethods owner id methods table = .ok table') ↔ ∀ m ∈ methods, m.Checked := by
  induction methods generalizing id table with
  | nil => simp [loadMethods]
  | cons m rest ih =>
      rw [List.forall_mem_cons]
      constructor
      · rintro ⟨table', loaded⟩
        obtain ⟨method, first, others⟩ := bind_eq_ok.1 loaded
        exact ⟨(loadMethod_eq_ok.1 first).1, ih.1 ⟨table', others⟩⟩
      · rintro ⟨checked, others⟩
        obtain ⟨descriptor, parsed⟩ := checked.descriptor
        have first : loadMethod owner id m = .ok ⟨id, owner, m, descriptor⟩ :=
          loadMethod_eq_ok.2 ⟨checked, descriptor, parsed, rfl⟩
        obtain ⟨table', loaded⟩ := ih.2 others
        exact ⟨table', bind_eq_ok.2 ⟨_, first, loaded⟩⟩

theorem insert_isOk_iff {t : ClassTable} {c : ClassCode} :
    (∃ t', t.insert c = .ok t') ↔ ∀ m ∈ c.methods, m.Checked := by
  constructor
  · rintro ⟨t', inserted⟩
    obtain ⟨table, loaded, _⟩ := bind_eq_ok.1 inserted
    exact loadMethods_isOk_iff.1 ⟨table, loaded⟩
  · intro checked
    obtain ⟨table, loaded⟩ : ∃ table,
        loadMethods (canonicalName c.name) t.methodCount c.methods .empty = .ok table :=
      loadMethods_isOk_iff.2 checked
    exact ⟨_, bind_eq_ok.2 ⟨table, loaded, rfl⟩⟩

/-- Classes load if and only if every method passes the check. -/
theorem load_isOk_iff {classes : List ClassCode} :
    (∃ t, load classes = .ok t) ↔ ∀ c ∈ classes, ∀ m ∈ c.methods, m.Checked := by
  suffices ∀ t, (∃ t', classes.foldlM insert t = .ok t') ↔
      ∀ c ∈ classes, ∀ m ∈ c.methods, m.Checked from this empty
  induction classes with
  | nil => exact fun t => ⟨fun _ => nofun, fun _ => ⟨t, rfl⟩⟩
  | cons c rest ih =>
      intro t
      rw [List.forall_mem_cons, List.foldlM_cons]
      constructor
      · rintro ⟨t', loaded⟩
        obtain ⟨t₁, first, others⟩ := bind_eq_ok.1 loaded
        exact ⟨insert_isOk_iff.1 ⟨t₁, first⟩, (ih t₁).1 ⟨t', others⟩⟩
      · rintro ⟨checked, others⟩
        obtain ⟨t₁, first⟩ := (insert_isOk_iff (t := t)).2 checked
        obtain ⟨t', loaded⟩ := (ih t₁).2 others
        exact ⟨t', bind_eq_ok.2 ⟨t₁, first, loaded⟩⟩

end ClassTable

/-! ## What a loaded table holds -/

namespace ClassTable

section Contents

variable {P : MethodKey → LoadedMethod → Prop} {owner : String} {t t' : ClassTable}

/-- Each method of a class, found by its name and descriptor, has the property. -/
def EachMethod (P : MethodKey → LoadedMethod → Prop) (owner : String)
    (methods : Table (String × String) LoadedMethod) : Prop :=
  ∀ key method, methods.find? key = some method → P ⟨owner, key.1, key.2⟩ method

/-- Each method of the table, found under its key, has the property. -/
def Each (P : MethodKey → LoadedMethod → Prop) (t : ClassTable) : Prop :=
  ∀ owner c, t.classes.find? owner = some c → EachMethod P owner c.methods

/-- Whatever the code is loaded into has the property. -/
def Grants (P : MethodKey → LoadedMethod → Prop) (owner : String) (m : MethodCode) : Prop :=
  ∀ id method, loadMethod owner id m = .ok method → P ⟨owner, m.name, m.descriptor⟩ method

theorem each_empty : empty.Each P := by
  intro owner c found
  rw [empty, Table.find?_empty] at found
  cases found

theorem loadMethods_each {id : Nat} {methods : List MethodCode}
    {table table' : Table (String × String) LoadedMethod}
    (grants : ∀ m ∈ methods, Grants P owner m) (each : EachMethod P owner table)
    (loaded : loadMethods owner id methods table = .ok table') : EachMethod P owner table' := by
  induction methods generalizing id table with
  | nil =>
      cases loaded
      exact each
  | cons m rest ih =>
      obtain ⟨here, later⟩ := List.forall_mem_cons.1 grants
      obtain ⟨method, first, others⟩ := bind_eq_ok.1 loaded
      refine ih later (fun key found there => ?_) others
      rcases Table.find?_insert_eq_some there with ⟨rfl, rfl⟩ | ⟨_, there⟩
      · exact here id found first
      · exact each key found there

theorem insert_each {c : ClassCode}
    (grants : ∀ m ∈ c.methods, Grants P (canonicalName c.name) m) (each : t.Each P)
    (inserted : t.insert c = .ok t') : t'.Each P := by
  obtain ⟨methods, loaded, done⟩ := bind_eq_ok.1 inserted
  cases done
  intro owner c' found
  rcases Table.find?_insert_eq_some found with ⟨rfl, rfl⟩ | ⟨_, found⟩
  · refine loadMethods_each grants (fun key method there => ?_) loaded
    rw [Table.find?_empty] at there
    cases there
  · exact each owner c' found

/-- What all code grants holds of each method of the table. -/
theorem load_each {classes : List ClassCode}
    (grants : ∀ c ∈ classes, ∀ m ∈ c.methods, Grants P (canonicalName c.name) m)
    (loaded : load classes = .ok t) : t.Each P :=
  foldlM_invariant (I := Each P) each_empty (fun c member _ _ => insert_each (grants c member))
    loaded

theorem Each.method {key : MethodKey} {method : LoadedMethod} (each : t.Each P)
    (found : t.method? key = some method) : P key method := by
  obtain ⟨c, owner, found⟩ := Option.bind_eq_some_iff.1 found
  exact each key.owner c owner (key.name, key.descriptor) method found

end Contents

end ClassTable

/-- The method has passed the check. -/
structure LoadedMethod.Sound (method : LoadedMethod) : Prop where
  checked : method.code.Checked
  descriptor : Descriptor.parse method.code.descriptor = .ok method.descriptor

namespace ClassTable

/-- The methods of a class have passed the check and stand under their keys. -/
def SoundMethods (owner : String) (methods : Table (String × String) LoadedMethod) : Prop :=
  ∀ key method, methods.find? key = some method →
    method.Sound ∧ method.key = ⟨owner, key.1, key.2⟩

/-- Whatever the table holds has passed the check and stands under its key. -/
def Sound (t : ClassTable) : Prop :=
  ∀ owner c, t.classes.find? owner = some c → SoundMethods owner c.methods

/-- **Whatever is loaded has been checked.** -/
theorem load_sound {classes : List ClassCode} {t : ClassTable} (loaded : load classes = .ok t) :
    t.Sound := by
  refine load_each (P := fun key method => method.Sound ∧ method.key = key) ?_ loaded
  intro c _ m _ id method first
  obtain ⟨checked, descriptor, parsed, rfl⟩ := loadMethod_eq_ok.1 first
  exact ⟨⟨checked, parsed⟩, rfl⟩

theorem Sound.method {t : ClassTable} {key : MethodKey} {method : LoadedMethod}
    (sound : t.Sound) (found : t.method? key = some method) :
    method.Sound ∧ method.key = key :=
  Each.method (P := fun key method => method.Sound ∧ method.key = key) sound found

end ClassTable

end ClassMachine
