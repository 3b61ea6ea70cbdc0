import ClassMachine.Proofs.Reloading
import ClassMachine.Proofs.Session

/-!
# Diagnostic parts of code

Offsets and comments of instructions, the depth of the operand stack, the size of
the arguments, all flags but one and the name of the superclass are there for
messages and readers. `ClassCode.bare` takes them away. Two lists of classes that
are equal without them cannot be told apart by running them, except by the offsets
in errors (`Machine.indistinct_of_bare`).
-/

namespace ClassMachine

variable {ω : Type}

/-! ## Code without its diagnostic parts -/

/-- The method without what only messages and readers use. -/
def MethodCode.bare (m : MethodCode) : MethodCode :=
  { m with
    flags := ⟨fun flag => flag = .accStatic && m.isStatic⟩
    maxStack := 0
    argsSize := 0
    instructions := m.instructions.map .bare }

/-- The class without what only messages and readers use. -/
def ClassCode.bare (c : ClassCode) : ClassCode :=
  { c with superName := "", methods := c.methods.map .bare }

/-- The location without its offset. -/
def Location.bare (l : Location) : Location :=
  { l with offset := 0 }

/-- The error without the offsets of its locations. -/
def RuntimeError.bare (e : RuntimeError) : RuntimeError :=
  { e with location := e.location.map .bare, callers := e.callers.map .bare }

/-- Taking the diagnostic parts away changes offsets only. -/
def Recoding.bare : Recoding where
  code := .bare
  location := .bare
  name _ := rfl
  descriptor _ := rfl
  isStatic m := by simp [MethodCode.bare, MethodCode.isStatic]
  maxLocals _ := rfl
  instructions m := by
    rw [MethodCode.bare, List.map_map]
    rfl
  location_of m index := by
    unfold Location.of
    simp only [MethodCode.bare, List.getElem?_map]
    cases m.code.instructions[index]? <;> rfl

theorem MethodCode.Checked.bare {m : MethodCode} (checked : m.Checked) : m.bare.Checked where
  nonempty := by
    rw [MethodCode.bare, ne_eq, List.map_eq_nil_iff]
    exact checked.nonempty
  instructions insn there := by
    simp only [MethodCode.bare, List.mem_map] at there
    obtain ⟨insn, there, rfl⟩ := there
    rw [MethodCode.bare, List.length_map]
    obtain ⟨jumps, inside, resolved⟩ := checked.instructions insn there
    exact ⟨jumps, inside, resolved⟩
  descriptor := checked.descriptor

/-- The bare classes load if the classes do, into the bare methods. -/
theorem ClassTable.load_bare {classes : List ClassCode} {t : ClassTable}
    (loaded : load classes = .ok t) :
    ∃ t₀, load (classes.map .bare) = .ok t₀ ∧ t.Recodes .bare (fun _ => False) t₀ := by
  have checked := load_isOk_iff.1 ⟨t, loaded⟩
  obtain ⟨t₀, loaded₀⟩ : ∃ t₀, load (classes.map .bare) = .ok t₀ := by
    refine load_isOk_iff.2 fun c₀ there₀ m₀ member₀ => ?_
    obtain ⟨c, there, rfl⟩ := List.mem_map.1 there₀
    obtain ⟨m, member, rfl⟩ := List.mem_map.1 member₀
    exact (checked c there m member).bare
  have alike : List.Forall₂ (ClassCode.Recodes .bare fun _ => False) classes
      (classes.map .bare) := by
    refine List.forall₂_map_right_iff.2 (List.forall₂_same.2 fun c _ => ⟨rfl, ?_⟩)
    exact List.forall₂_map_right_iff.2 (List.forall₂_same.2 fun m _ => ⟨rfl, rfl, fun _ => rfl⟩)
  exact ⟨t₀, loaded₀, load_recodes alike loaded loaded₀⟩

/-! ## Machines -/

/-- **Diagnostic parts never influence execution.** -/
theorem Machine.indistinct_of_bare {classes classes' : List ClassCode} {m : Machine ω}
    {t : ClassTable} (loaded : ClassTable.load classes = .ok m.classes)
    (loaded' : ClassTable.load classes' = .ok t)
    (same : classes'.map ClassCode.bare = classes.map ClassCode.bare) :
    m.Indistinct RuntimeError.bare t := by
  obtain ⟨t₀, load, own⟩ := ClassTable.load_bare loaded
  obtain ⟨t₁, load', other⟩ := ClassTable.load_bare loaded'
  rw [same, load] at load'
  cases load'
  exact indistinct_of_recodes (r := .bare) ⟨own, nofun, nofun⟩ ⟨other, nofun, nofun⟩

/-- A method that divides by zero, with diagnostic parts of any kind. -/
def dividingCode (flags : List Flag) (size : UInt16) (width : UInt32) (comment : Option String) :
    MethodCode where
  name := "run"
  descriptor := "()I"
  flags := .ofList (.accStatic :: flags)
  maxStack := size
  maxLocals := 0
  argsSize := size
  instructions :=
    [⟨0, .iconst, [.int 1], comment⟩, ⟨width, .iconst, [.int 0], comment⟩,
      ⟨2 * width, .binary .div, [], comment⟩, ⟨3 * width, .returnValue .int, [], comment⟩]

/-- The table with that method alone. -/
def dividingTable (superName : String) (code : MethodCode) : ClassTable where
  classes := .insert .empty "Dividing"
    { name := "Dividing"
      superName := canonicalName superName
      methods := .insert .empty ("run", "()I") ⟨0, "Dividing", code, ⟨[], .int⟩⟩ }
  methodCount := 1

/-- Wider instructions with comments fail in the same place, at another offset. -/
theorem dividing_indistinct :
    let code := dividingCode [] 2 1 none
    let code' := dividingCode [.accPublic] 9 4 (some "int 0")
    let m : Machine Unit := .create (dividingTable rootClass code) {} ()
    let t := dividingTable "Base" code'
    let requests : List (Request Unit) := [.act (.call "Dividing" "run" "()I" [])]
    ClassTable.load [⟨"Dividing", rootClass, [code]⟩] = .ok m.classes ∧
      ClassTable.load [⟨"Dividing", "Base", [code']⟩] = .ok t ∧
      m.Indistinct RuntimeError.bare t ∧ ∃ m' e e',
        m.Session requests [.outcome (.error e)] m' ∧
        (m.withClasses t).Session requests [.outcome (.error e')] (m'.withClasses t) ∧
        e.location.map Location.offset = some 2 ∧ e'.location.map Location.offset = some 8 := by
  have loaded : ClassTable.load [⟨"Dividing", rootClass, [dividingCode [] 2 1 none]⟩] =
      .ok (dividingTable rootClass (dividingCode [] 2 1 none)) := rfl
  have loaded' :
      ClassTable.load
        [⟨"Dividing", "Base", [dividingCode [.accPublic] 9 4 (some "int 0")]⟩] =
      .ok (dividingTable "Base" (dividingCode [.accPublic] 9 4 (some "int 0"))) := rfl
  exact ⟨loaded, loaded', Machine.indistinct_of_bare loaded loaded' rfl,
    _, _, _, .act ⟨3, rfl⟩ (.done _), .act ⟨3, rfl⟩ (.done _), rfl, rfl⟩

end ClassMachine
