import ClassMachine.Proofs.Reloading
import ClassMachine.Proofs.Session

/-!
# Methods behind bridges

A bridge goes before the method of its key wherever a key is looked up, so a method
behind a bridge is never reached: any other method of its name and descriptor can
stand in its place (`Machine.indistinct_of_bridged`). The one exception is the
initializer of a class, which runs without being looked up by its key.
-/

namespace ClassMachine

variable {ω : Type}

/-- In code that stays, errors stay. -/
theorem RuntimeError.recode_same : RuntimeError.recode .same = id := by
  funext e
  obtain ⟨fault, location, callers⟩ := e
  simp [recode, Recoding.same]

variable {exempt : MethodKey → Prop}

theorem MethodCode.Recodes.refl (owner : String) (m : MethodCode) :
    m.Recodes .same exempt owner m :=
  ⟨rfl, rfl, fun _ => rfl⟩

theorem ClassCode.Recodes.refl (c : ClassCode) : c.Recodes .same exempt c :=
  ⟨rfl, List.forall₂_same.2 fun m _ => .refl _ m⟩

theorem ClassTable.Recodes.refl (t : ClassTable) :
    t.Recodes .same exempt t where
  count := rfl
  classes owner := by
    cases t.classes.find? owner with
    | none => exact .none
    | some c => exact .some fun name descriptor _ => Option.map_id'.symm

/-- Of a class, one method is exchanged for another of its name and descriptor. -/
theorem ClassCode.Recodes.exchange {c : ClassCode} {above below : List MethodCode}
    {method other : MethodCode} (methods : c.methods = above ++ method :: below)
    (name : other.name = method.name) (descriptor : other.descriptor = method.descriptor) :
    c.Recodes .same (· = .of c.name method.name method.descriptor)
      { c with methods := above ++ other :: below } := by
  refine ⟨rfl, ?_⟩
  rw [methods]
  exact List.rel_append (List.forall₂_same.2 fun m _ => .refl _ m)
    (.cons ⟨name, descriptor, fun held => (held rfl).elim⟩
      (List.forall₂_same.2 fun m _ => .refl _ m))

/-- **A bridge fully replaces the method that it answers for.** -/
theorem Machine.indistinct_of_bridged {before after : List ClassCode} {c : ClassCode}
    {above below : List MethodCode} {method other : MethodCode} {m : Machine ω}
    {t : ClassTable} (methods : c.methods = above ++ method :: below)
    (loaded : ClassTable.load (before ++ c :: after) = .ok m.classes)
    (loaded' : ClassTable.load
      (before ++ { c with methods := above ++ other :: below } :: after) = .ok t)
    (name : other.name = method.name) (descriptor : other.descriptor = method.descriptor)
    (ordinary : ¬ (MethodKey.of c.name method.name method.descriptor).IsInitializer)
    (bridged : (m.bridges.find? (.of c.name method.name method.descriptor)).isSome) :
    m.Indistinct id t := by
  have alike : List.Forall₂
      (ClassCode.Recodes .same (· = .of c.name method.name method.descriptor))
      (before ++ c :: after)
      (before ++ { c with methods := above ++ other :: below } :: after) :=
    List.rel_append (List.forall₂_same.2 fun c _ => .refl c)
      (.cons (.exchange methods name descriptor) (List.forall₂_same.2 fun c _ => .refl c))
  have own : m.Recodes .same (· = .of c.name method.name method.descriptor) t :=
    ⟨ClassTable.load_recodes alike loaded loaded', fun _ same => same ▸ bridged,
      fun _ same => same ▸ ordinary⟩
  have indistinct := indistinct_of_recodes own (t := t) ⟨.refl t, own.bridged, own.ordinary⟩
  rwa [RuntimeError.recode_same] at indistinct

/-- A method without parameters, of an int. -/
def intCode (name : String) (flags : List Flag) (instructions : List Instruction) :
    MethodCode where
  name
  descriptor := "()I"
  flags := .ofList flags
  maxStack := 1
  maxLocals := 0
  argsSize := 0
  instructions

/-- A method that calls another one of its class. -/
def callingCode : MethodCode :=
  intCode "run" [.accStatic]
    [⟨0, .invoke .static, [.method ⟨"Calling", "helper", "()I"⟩], none⟩,
      ⟨3, .returnValue .int, [], none⟩]

/-- The method that is called. -/
def helperCode : MethodCode :=
  intCode "helper" [.accStatic]
    [⟨0, .iconst, [.int 1], none⟩, ⟨1, .returnValue .int, [], none⟩]

/-- Another method of that name, which is not static and throws. -/
def throwingCode : MethodCode :=
  intCode "helper" [.accPrivate] [⟨0, .aconstNull, [], none⟩, ⟨1, .athrow, [], none⟩]

/-- A bridge that counts its calls. -/
def countingBridge : Bridge Nat := fun calls heap _ _ =>
  ⟨calls + 1, heap, .ok (.int 7)⟩

/-- The table of a class with that method and the one it calls. -/
def callingTable (helper : MethodCode) : ClassTable where
  classes := .insert .empty "Calling"
    { name := "Calling"
      superName := rootClass
      methods := .insert (.insert .empty ("run", "()I") ⟨0, "Calling", callingCode, ⟨[], .int⟩⟩)
        ("helper", "()I") ⟨1, "Calling", helper, ⟨[], .int⟩⟩ }
  methodCount := 2

/-- A static method that returns may become one that is not static and throws, where
a bridge answers for it. -/
theorem calling_indistinct :
    let m := (Machine.create (callingTable helperCode) {} 0).setBridge "Calling" "helper" "()I"
      countingBridge
    let t := callingTable throwingCode
    let requests : List (Request Nat) := [.act (.call "Calling" "run" "()I" [])]
    ClassTable.load [⟨"Calling", rootClass, [callingCode, helperCode]⟩] = .ok m.classes ∧
      ClassTable.load [⟨"Calling", rootClass, [callingCode, throwingCode]⟩] = .ok t ∧
      m.Indistinct id t ∧ ∃ m',
        m.Session requests [.outcome (.ok (some (.int 7)))] m' ∧
        (m.withClasses t).Session requests [.outcome (.ok (some (.int 7)))]
          (m'.withClasses t) ∧
        m'.world = 1 := by
  have loaded : ClassTable.load [⟨"Calling", rootClass, [callingCode, helperCode]⟩] =
      .ok (callingTable helperCode) := rfl
  have loaded' : ClassTable.load [⟨"Calling", rootClass, [callingCode, throwingCode]⟩] =
      .ok (callingTable throwingCode) := rfl
  intro m t requests
  have indistinct : m.Indistinct id t :=
    @Machine.indistinct_of_bridged Nat [] [] ⟨"Calling", rootClass, [callingCode, helperCode]⟩
      [callingCode] [] helperCode throwingCode m t rfl loaded loaded' rfl rfl
      (fun initializer => nomatch initializer.1) rfl
  obtain ⟨m', session, world⟩ :
      ∃ m', m.Session requests [.outcome (.ok (some (.int 7)))] m' ∧ m'.world = 1 :=
    ⟨_, .act ⟨2, rfl⟩ (.done _), rfl⟩
  obtain ⟨responses', session', same⟩ := indistinct.answers session
  simp only [Response.mapError_id, List.map_id'] at same
  rw [same] at session'
  exact ⟨loaded, loaded', indistinct, m', session, session', world⟩

end ClassMachine
