import ClassMachine.Proofs.ControlFlow
import ClassMachine.Proofs.Depth
import ClassMachine.Proofs.Limits

/-!
# The limit on the depth of calls

A call that the host makes when nothing runs has at every moment as many frames as
the machine counts, never more than the limit, and none when it has ended
(`Progress.counts_of_reaches`).

The limit is monotone. A larger one changes no step but one that is refused for lack
of depth, and that one ends the call. So a call that ends in any other way ends in
the same way under every larger limit (`Progress.Ends.deepen`).
-/

namespace ClassMachine

variable {ω : Type} {m : Machine ω} {f : Frame} {link : Link} {p : Progress ω}
  {outcome : Except RuntimeError (Option Value)}

/-- Limits that allow deeper calls. -/
def Limits.deepen (extra : Nat) (limits : Limits) : Limits :=
  { limits with maxDepth := limits.maxDepth + extra }

/-- The machine under a larger limit of depth. -/
def Machine.deepen (m : Machine ω) (extra : Nat) : Machine ω :=
  m.mapLimits (Limits.deepen extra)

/-- The program under a larger limit of depth. -/
def Progress.deepen (p : Progress ω) (extra : Nat) : Progress ω :=
  p.mapLimits (Limits.deepen extra)

/-- The call did not fail for lack of depth. -/
def DeepEnough (outcome : Except RuntimeError (Option Value)) : Prop :=
  ∀ e, outcome = .error e → e.fault.kind ≠ .callDepthExceeded

theorem deepEnough_ok (value : Option Value) : DeepEnough (.ok value) :=
  fun _ failed => nomatch failed

theorem Limits.maxDepth_le_deepen (extra : Nat) (limits : Limits) :
    limits.maxDepth ≤ (limits.deepen extra).maxDepth :=
  Nat.le_add_right _ _

namespace Machine

/-- One step under a larger limit. The budget is the same, so where it is spent both
fail alike. -/
theorem step_deepen (m : Machine ω) (f : Frame) (link : Link) (extra : Nat) :
    (m.step f link).Follows (Limits.deepen extra) ((m.deepen extra).step f link) := by
  by_cases spent : m.Spent
  · cases current : f.insn? with
    | none =>
        rw [step_of_insn?_none current, step_of_insn?_none current]
        exact Or.inl (m.failAt_mapLimits f.method _ link _)
    | some insn =>
        obtain ⟨budget, limited, reached⟩ := spent
        have limited' : (m.deepen extra).limits.budget = some budget := limited
        rw [step_of_spent current limited reached, step_of_spent current limited' reached]
        exact Or.inl (m.fail_mapLimits f link (.budgetSpent budget))
  · exact step_follows (Limits.maxDepth_le_deepen extra) spent spent

end Machine

namespace Progress

/-- What follows a program that ends with enough depth is the same program under the
larger limit. -/
theorem Follows.eq_of_ends {φ : Limits → Limits} {p' : Progress ω} (follows : p.Follows φ p')
    (ends : p.Ends m outcome) (enough : DeepEnough outcome) : p' = p.mapLimits φ := by
  rcases follows with same | ⟨m', e, rfl, kind, _⟩
  · exact same
  · obtain ⟨_, rfl⟩ := ends.of_finished
    exact (enough e rfl kind).elim

/-- **The limit is monotone.** -/
theorem Ends.deepen (ends : p.Ends m outcome) (enough : DeepEnough outcome) (extra : Nat) :
    (p.deepen extra).Ends (m.deepen extra) outcome := by
  obtain ⟨n, ends⟩ := ends
  induction n generalizing p with
  | zero =>
      rw [run] at ends
      rw [ends]
      exact .refl _
  | succ n ih =>
      rw [run_succ] at ends
      refine Ends.of_step ?_
      cases p with
      | finished m' outcome' => exact ih ends
      | running m' f link =>
          have same := (m'.step_deepen f link extra).eq_of_ends ⟨n, ends⟩ enough
          have stepped : ((running m' f link).deepen extra).step =
              (m'.step f link).deepen extra := same
          rw [stepped]
          exact ih ends

end Progress

/-- **Depth is exact, and its limit is monotone.** Between a call made when no frame is
at work and its end, at every moment the machine counts the frames at work, and there
are no more than the limit allows. When the call has ended, in whatever way, the count
is back at zero. And a call that does not fail for lack of depth ends with the same
outcome and the same machine under every larger limit. -/
theorem Machine.call_depth (m : Machine ω) (idle : m.depth = 0)
    (className method descriptor : String) (args : List Value) :
    let start := m.start className method descriptor args
    (∀ p, start.Reaches p →
      p.machine.depth = p.frames.length ∧ p.frames.length ≤ m.limits.maxDepth) ∧
    (∀ m' outcome, start.Ends m' outcome → m'.depth = 0) ∧
    ∀ m' outcome, start.Ends m' outcome → DeepEnough outcome → ∀ extra,
      ((m.deepen extra).start className method descriptor args).Ends (m'.deepen extra)
        outcome := by
  intro start
  have counts : ∀ p, start.Reaches p → p.machine.depth = p.frames.length := by
    intro p reached
    rw [(Progress.counts_of_reaches reached).depth, idle, Nat.zero_add]
  refine ⟨fun p reached => ⟨counts p reached, Progress.length_frames_le reached⟩, ?_, ?_⟩
  · intro m' outcome ends
    exact counts (.finished m' outcome) ends
  intro m' outcome ends enough extra
  have follows := start_follows (Limits.maxDepth_le_deepen extra) m className method descriptor args
  have same : (m.deepen extra).start className method descriptor args = start.deepen extra :=
    follows.eq_of_ends ends enough
  rw [same]
  exact ends.deepen enough extra

/-- A class whose initializer calls a method, and another method that calls the same
one. -/
def stairClass : ClassCode where
  name := "Stair"
  superName := "java/lang/Object"
  methods :=
    [plainMethod "<clinit>" "()V"
        [⟨0, .invoke .static, [.method ⟨"Stair", "step", "()V"⟩], none⟩,
          ⟨3, .returnVoid, [], none⟩],
      plainMethod "step" "()V" [⟨0, .returnVoid, [], none⟩],
      plainMethod "climb" "()V"
        [⟨0, .invoke .static, [.method ⟨"Stair", "step", "()V"⟩], none⟩,
          ⟨3, .returnVoid, [], none⟩]]

/-- A machine with that class alone, on which calls may nest that deep. -/
def climbing (maxDepth : Nat) : Machine Unit :=
  .create ((ClassTable.load [stairClass]).toOption.getD .empty) { maxDepth } ()

/-- With room for one frame the initializer cannot call its method, and all frames are
gone. With room for two the call succeeds, and so it does with room for more. -/
theorem climbing_call_depth :
    (climbing 1).depth = 0 ∧ (climbing 2).depth = 0 ∧
      (∃ m e, ((climbing 1).start "Stair" "climb" "()V" []).Ends m (.error e) ∧
        e.fault.kind = .callDepthExceeded ∧ m.depth = 0) ∧
      ∃ m, ((climbing 2).start "Stair" "climb" "()V" []).Ends m (.ok none) ∧
        m.profile.executed = 6 ∧ DeepEnough (.ok none) ∧ ∀ extra,
          (((climbing 2).deepen extra).start "Stair" "climb" "()V" []).Ends (m.deepen extra)
            (.ok none) := by
  have idle (maxDepth : Nat) : (climbing maxDepth).depth = 0 := rfl
  have enough := deepEnough_ok none
  obtain ⟨m₁, e, refused, kind⟩ : ∃ m e,
      ((climbing 1).start "Stair" "climb" "()V" []).Ends m (.error e) ∧
        e.fault.kind = .callDepthExceeded :=
    ⟨_, _, ⟨1, rfl⟩, rfl⟩
  obtain ⟨m₂, ends, executed⟩ : ∃ m,
      ((climbing 2).start "Stair" "climb" "()V" []).Ends m (.ok none) ∧ m.profile.executed = 6 :=
    ⟨_, ⟨6, rfl⟩, rfl⟩
  have shallow := (climbing 1).call_depth (idle 1) "Stair" "climb" "()V" []
  have deep := (climbing 2).call_depth (idle 2) "Stair" "climb" "()V" []
  have back : m₁.depth = 0 := shallow.2.1 m₁ (.error e) refused
  have same := deep.2.2 m₂ (.ok none) ends enough
  exact ⟨idle 1, idle 2, ⟨m₁, e, refused, kind, back⟩, m₂, ends, executed, enough, same⟩

end ClassMachine
