import ClassMachine.Proofs.Lifetime
import ClassMachine.Proofs.Recoding

/-!
# Sessions of a host

A session is what a host does with a machine while no call runs: one request after
the other, each with its answer. The host cannot tell two machines apart that give
the same answers in every session and stay the same but for their classes, also
inside of a call that never ends (`Machine.Indistinct`).

`Machine.indistinct_of_recodes` finds such machines: their classes are the same in
some other code.
-/

namespace ClassMachine

variable {ω : Type}

/-- What the host asks of a machine on which no call runs. -/
inductive Request (ω : Type) where
  | act (action : HostAction ω)
  | getStatic (className field : String)

/-- What the machine answers. -/
inductive Response where
  | outcome (outcome : Except RuntimeError (Option Value))
  | value (value : Option Value)

/-- The answer, with an error as it is seen through a function. -/
def Response.mapError (view : RuntimeError → RuntimeError) : Response → Response
  | .outcome result => .outcome (result.mapError view)
  | .value found => .value found

theorem Response.mapError_id (response : Response) : response.mapError id = response := by
  rcases response with (error | value) | found <;> rfl

/-- The outcome of a program that has ended. -/
def Progress.outcome? : Progress ω → Option (Except RuntimeError (Option Value))
  | .running .. => none
  | .finished _ outcome => some outcome

namespace Machine

/-- Requests that are all answered, their answers, and the machine behind them. -/
inductive Session : Machine ω → List (Request ω) → List Response → Machine ω → Prop
  | done (m : Machine ω) : Session m [] [] m
  | act {m m₁ m' : Machine ω} {action : HostAction ω}
    {outcome : Except RuntimeError (Option Value)} {requests : List (Request ω)}
    {responses : List Response} :
    (action.act m).Ends m₁ outcome → Session m₁ requests responses m' →
    Session m (.act action :: requests) (.outcome outcome :: responses) m'
  | getStatic {m m' : Machine ω} {requests : List (Request ω)} {responses : List Response}
    (className field : String) : Session m requests responses m' →
    Session m (.getStatic className field :: requests)
      (.value (m.static? className field) :: responses) m'

/-- The machine and itself with other classes are the same to the host, which sees
errors through `view`. -/
structure Indistinct (view : RuntimeError → RuntimeError) (m : Machine ω) (t : ClassTable) :
    Prop where
  /-- The same requests have the same answers, and leave the same machine. -/
  answers {requests : List (Request ω)} {responses : List Response} {m' : Machine ω} :
    m.Session requests responses m' →
    ∃ responses', (m.withClasses t).Session requests responses' (m'.withClasses t) ∧
      responses'.map (·.mapError view) = responses.map (·.mapError view)
  /-- Whatever is done next: at every moment the machines are the same, and the action
  has ended on both with the same outcome or on none. -/
  moments {requests : List (Request ω)} {responses : List Response} {m' : Machine ω} :
    m.Session requests responses m' → ∀ (action : HostAction ω) (n : Nat),
    let p := (action.act m').run n
    let p' := (action.act (m'.withClasses t)).run n
    p'.machine = p.machine.withClasses t ∧
      p'.outcome?.map (·.mapError view) = p.outcome?.map (·.mapError view)

end Machine

/-! ## One action -/

variable {r : Recoding} {exempt : MethodKey → Prop} {t t₀ : ClassTable}
  {m m' m₁ : Machine ω} {outcome : Except RuntimeError (Option Value)}

theorem Progress.machine_recode (p : Progress ω) :
    (p.recode r t).machine = p.machine.withClasses t := by
  cases p <;> rfl

theorem Progress.outcome?_recode (p : Progress ω) :
    (p.recode r t).outcome? = p.outcome?.map (·.mapError (RuntimeError.recode r)) := by
  cases p <;> rfl

theorem HostAction.linked_act (action : HostAction ω) (m : Machine ω) :
    (action.act m).Linked := by
  cases action with
  | call className method descriptor args =>
      exact (m.start_starts className method descriptor args).linked
  | _ => trivial

theorem HostAction.classes_act (action : HostAction ω) (m : Machine ω) (n : Nat) :
    ((action.act m).run n).machine.classes = m.classes := by
  cases action with
  | call className method descriptor args =>
      exact (Progress.becomes_of_reaches ⟨n, rfl⟩).classes
  | _ =>
      rw [act, Progress.run_finished]
      rfl

namespace Machine

/-- A bridge that has been set is never taken away. -/
theorem Recodes.act (recodes : m.Recodes r exempt t) (action : HostAction ω) :
    (action.act m).machine.Recodes r exempt t := by
  cases action with
  | setBridge className method descriptor bridge =>
      refine ⟨recodes.classes, fun key exempted => ?_, recodes.ordinary⟩
      change ((m.bridges.insert _ bridge).find? key).isSome = true
      by_cases same : key = .of className method descriptor
      · rw [same, Table.find?_insert_self]
        rfl
      · rw [Table.find?_insert_of_ne _ _ same]
        exact recodes.bridged key exempted
  | call className method descriptor args =>
      exact recodes.becomes (m.start_starts className method descriptor args).becomes
  | _ => exact ⟨recodes.classes, recodes.bridged, recodes.ordinary⟩

theorem Recodes.of_ends (recodes : m.Recodes r exempt t) {action : HostAction ω}
    (ends : (action.act m).Ends m₁ outcome) : m₁.Recodes r exempt t :=
  (recodes.act action).becomes (Progress.Reaches.becomes (action.linked_act m) ends)

theorem Recodes.run_act (recodes : m.Recodes r exempt t) (action : HostAction ω) (n : Nat) :
    (action.act (m.withClasses t)).run n = ((action.act m).run n).recode r t := by
  have first : action.act (m.withClasses t) = (action.act m).recode r t := by
    cases action with
    | call className method descriptor args => exact start_recode recodes className method _ args
    | _ => rfl
  rw [first, Progress.run_recode (action.linked_act m) (recodes.act action)]

/-- At every moment of one action, the machines are the same but for the classes. -/
theorem Recodes.moment (own : m.Recodes r exempt t₀)
    (other : (m.withClasses t).Recodes r exempt t₀) (action : HostAction ω) (n : Nat) :
    let p := (action.act m).run n
    let p' := (action.act (m.withClasses t)).run n
    p'.machine = p.machine.withClasses t ∧
      p'.outcome?.map (·.mapError (RuntimeError.recode r)) =
        p.outcome?.map (·.mapError (RuntimeError.recode r)) := by
  intro p p'
  have same : p'.recode r t₀ = p.recode r t₀ := by
    rw [← own.run_act, ← other.run_act]
    rfl
  have classes : p'.machine.classes = t := action.classes_act (m.withClasses t) n
  have machines := congrArg Progress.machine same
  have outcomes := congrArg Progress.outcome? same
  rw [Progress.machine_recode, Progress.machine_recode] at machines
  rw [Progress.outcome?_recode, Progress.outcome?_recode] at outcomes
  refine ⟨?_, outcomes⟩
  calc p'.machine = p'.machine.withClasses t := by rw [← classes]; rfl
    _ = (p'.machine.withClasses t₀).withClasses t := rfl
    _ = (p.machine.withClasses t₀).withClasses t := by rw [machines]
    _ = p.machine.withClasses t := rfl

/-- An action that ends on one of the machines ends on the other. -/
theorem Recodes.ends (own : m.Recodes r exempt t₀)
    (other : (m.withClasses t).Recodes r exempt t₀) {action : HostAction ω}
    (ends : (action.act m).Ends m₁ outcome) :
    ∃ outcome', (action.act (m.withClasses t)).Ends (m₁.withClasses t) outcome' ∧
      outcome'.mapError (RuntimeError.recode r) = outcome.mapError (RuntimeError.recode r) := by
  obtain ⟨n, run⟩ := ends
  obtain ⟨machines, outcomes⟩ := own.moment other action n
  rw [run] at machines outcomes
  cases run' : (action.act (m.withClasses t)).run n with
  | running m₂ f link =>
      rw [run'] at outcomes
      cases outcomes
  | finished m₂ outcome' =>
      rw [run'] at machines outcomes
      cases machines
      exact ⟨outcome', ⟨n, run'⟩, Option.some.inj outcomes⟩

end Machine

/-! ## Whole sessions -/

namespace Machine

variable {requests : List (Request ω)} {responses : List Response}

/-- The sessions of both machines, and what they keep. -/
theorem Session.recodes (session : m.Session requests responses m')
    (own : m.Recodes r exempt t₀) (other : (m.withClasses t).Recodes r exempt t₀) :
    (m'.Recodes r exempt t₀ ∧ (m'.withClasses t).Recodes r exempt t₀) ∧
      ∃ responses', (m.withClasses t).Session requests responses' (m'.withClasses t) ∧
        responses'.map (·.mapError (RuntimeError.recode r)) =
          responses.map (·.mapError (RuntimeError.recode r)) := by
  induction session with
  | done m => exact ⟨⟨own, other⟩, [], .done _, rfl⟩
  | @act m m₁ m' action outcome requests responses ends later ih =>
      obtain ⟨outcome', ends', seen⟩ := own.ends other ends
      obtain ⟨kept, responses', session', same⟩ := ih (own.of_ends ends) (other.of_ends ends')
      refine ⟨kept, .outcome outcome' :: responses', .act ends' session', ?_⟩
      rw [List.map_cons, List.map_cons, same, Response.mapError, seen]
      rfl
  | getStatic className field later ih =>
      obtain ⟨kept, responses', session', same⟩ := ih own other
      exact ⟨kept, _ :: responses', .getStatic className field session', by
        rw [List.map_cons, List.map_cons, same]; rfl⟩

/-- **Classes that are the same in some other code cannot be told apart.** -/
theorem indistinct_of_recodes (own : m.Recodes r exempt t₀)
    (other : (m.withClasses t).Recodes r exempt t₀) : m.Indistinct (RuntimeError.recode r) t where
  answers session := (session.recodes own other).2
  moments session := by
    obtain ⟨own', other'⟩ := (session.recodes own other).1
    exact own'.moment other'

end Machine

end ClassMachine
