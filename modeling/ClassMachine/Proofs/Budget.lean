import ClassMachine.Proofs.Limits

/-!
# The instruction budget

A budget changes nothing about a program that stays within it, and it ends every
other program.

The proof compares one state without a budget and the same state with one, by
induction on what is left of the budget. While something is left both take the
same step (`Machine.step_withBudget`), and each step that goes on counts one
instruction. When nothing is left, the budgeted program fails and the other one
counts beyond the budget or never ends.
-/

namespace ClassMachine

variable {ω : Type} {m : Machine ω} {f : Frame} {link : Link} {p q : Progress ω}
  {insn : Instruction} {budget : Nat}

/-- Limits with another budget. -/
def Limits.withBudget (budget : Option Nat) (limits : Limits) : Limits :=
  { limits with budget }

/-- The machine under another budget. -/
def Machine.withBudget (m : Machine ω) (budget : Option Nat) : Machine ω :=
  m.mapLimits (Limits.withBudget budget)

/-- The program under another budget. -/
def Progress.withBudget (p : Progress ω) (budget : Option Nat) : Progress ω :=
  p.mapLimits (Limits.withBudget budget)

namespace Machine

/-! ## One step -/

theorem not_spent_of_unlimited (unlimited : m.limits.budget = none) : ¬ m.Spent := by
  rintro ⟨budget, limited, _⟩
  rw [unlimited] at limited
  cases limited

theorem not_spent_withBudget (room : m.profile.executed < budget) :
    ¬ (m.withBudget (some budget)).Spent := by
  rintro ⟨limit, limited, reached⟩
  cases limited
  exact Nat.not_le_of_lt room reached

/-- While something is left of the budget, it changes no step. -/
theorem step_withBudget (unlimited : m.limits.budget = none)
    (room : m.profile.executed < budget) :
    (m.withBudget (some budget)).step f link = (m.step f link).withBudget (some budget) := by
  have deeper (l : Limits) : l.maxDepth ≤ (l.withBudget (some budget)).maxDepth := Nat.le_refl _
  have follows : (m.step f link).Follows _ ((m.withBudget (some budget)).step f link) :=
    step_follows deeper (not_spent_of_unlimited unlimited) (not_spent_withBudget room)
  exact follows.eq fun _ => rfl

/-- The start of a call does not ask for the budget. -/
theorem start_withBudget (m : Machine ω) (budget : Option Nat)
    (className method descriptor : String) (args : List Value) :
    (m.withBudget budget).start className method descriptor args =
      (m.start className method descriptor args).withBudget budget := by
  have deeper (l : Limits) : l.maxDepth ≤ (l.withBudget budget).maxDepth := Nat.le_refl _
  exact (start_follows deeper m className method descriptor args).eq fun _ => rfl

/-- Past the last instruction nothing is counted, so the budget does not matter. -/
theorem step_withBudget_of_insn?_none (past : f.insn? = none) :
    (m.withBudget (some budget)).step f link = (m.step f link).withBudget (some budget) := by
  rw [step_of_insn?_none past, step_of_insn?_none past]
  exact m.failAt_mapLimits f.method _ link _

/-- When nothing is left of the budget, the next instruction fails uncounted. -/
theorem step_withBudget_of_spent (current : f.insn? = some insn)
    (spent : m.profile.executed = budget) (link : Link) :
    ∃ m' e, (m.withBudget (some budget)).step f link = .finished m' (.error e) ∧
      e.fault = .budgetSpent budget ∧ m'.profile.executed = budget := by
  obtain ⟨m', ends, keeps⟩ :=
    (m.withBudget (some budget)).failAt_eq f.method f.ip link (.budgetSpent budget)
  have failed : (m.withBudget (some budget)).step f link =
      (m.withBudget (some budget)).fail f link (.budgetSpent budget) :=
    step_of_spent current rfl (Nat.le_of_eq spent.symm)
  exact ⟨m', _, failed.trans ends, rfl, keeps.executed.trans spent⟩

/-- A step that carries out an instruction counts it. -/
theorem executed_step (linked : link.Linked m.classes f.method) (current : f.insn? = some insn)
    (room : ¬ m.Spent) : (m.step f link).machine.profile.executed = m.profile.executed + 1 := by
  obtain ⟨depth, keeps⟩ := (step_moves linked).keeps current room
  exact keeps.executed

end Machine

/-! ## Whole runs -/

/-- The unlimited program ends within the budget, and the budgeted one ends in the
same way. -/
def Progress.EndsWithin (p : Progress ω) (budget : Nat) : Prop :=
  ∃ m outcome, p.Ends m outcome ∧ m.profile.executed ≤ budget ∧
    (p.withBudget (some budget)).Ends (m.withBudget (some budget)) outcome

/-- The unlimited program does not end within the budget, and the budgeted one ends
when the budget is spent. -/
def Progress.Exhausts (p : Progress ω) (budget : Nat) : Prop :=
  (∀ m outcome, p.Ends m outcome → budget < m.profile.executed) ∧
    ∃ m e, (p.withBudget (some budget)).Ends m (.error e) ∧
      e.fault = .budgetSpent budget ∧ m.profile.executed = budget

namespace Progress

/-- What holds after a step that both programs take holds before it. -/
theorem EndsWithin.of_step (both : (p.withBudget (some budget)).step =
    p.step.withBudget (some budget)) (h : p.step.EndsWithin budget) : p.EndsWithin budget := by
  obtain ⟨m, outcome, ends, within, ends'⟩ := h
  rw [← both] at ends'
  exact ⟨m, outcome, ends.of_step, within, ends'.of_step⟩

theorem Exhausts.of_step (both : (p.withBudget (some budget)).step =
    p.step.withBudget (some budget)) (h : p.step.Exhausts budget) : p.Exhausts budget := by
  obtain ⟨beyond, m, e, ends, fault, executed⟩ := h
  rw [← both] at ends
  exact ⟨fun m outcome ends => beyond m outcome ends.step, m, e, ends.of_step, fault, executed⟩

theorem endsWithin_finished {outcome : Except RuntimeError (Option Value)}
    (within : m.profile.executed ≤ budget) : (finished m outcome).EndsWithin budget :=
  ⟨m, outcome, .refl _, within, .refl _⟩

/-- Falling off the end costs nothing. -/
theorem endsWithin_of_insn?_none (past : f.insn? = none)
    (within : m.profile.executed ≤ budget) : (running m f link).EndsWithin budget := by
  refine EndsWithin.of_step (Machine.step_withBudget_of_insn?_none past) ?_
  obtain ⟨m', ends, keeps⟩ := m.failAt_eq f.method (f.ip - 1) link (.fellOffEnd f.ip)
  rw [step, Machine.step_of_insn?_none past, ends]
  exact endsWithin_finished (keeps.executed.symm ▸ within)

/-- Nothing is left of the budget and there is one more instruction. -/
theorem exhausts_of_spent (linked : link.Linked m.classes f.method)
    (unlimited : m.limits.budget = none) (current : f.insn? = some insn)
    (spent : m.profile.executed = budget) : (running m f link).Exhausts budget := by
  constructor
  · -- The unlimited program counts this instruction, and never counts back.
    intro m' outcome ends
    have counts := Machine.executed_step linked current (Machine.not_spent_of_unlimited unlimited)
    have after : (m.step f link).Linked := (Machine.step_moves linked).linked linked
    have grows := (Reaches.becomes after ends.step).executed
    rw [counts, spent] at grows
    exact grows
  · obtain ⟨m', e, failed, fault, executed⟩ :=
      Machine.step_withBudget_of_spent current spent link
    exact ⟨m', e, ⟨1, failed⟩, fault, executed⟩

/-- **Within the budget or not.** Either both programs end in the same way, or the
budgeted one ends when its budget is spent. -/
theorem endsWithin_or_exhausts (linked : p.Linked) (unlimited : p.machine.limits.budget = none)
    (within : p.machine.profile.executed ≤ budget) :
    p.EndsWithin budget ∨ p.Exhausts budget := by
  -- The induction is on what is left of the budget: a step that both take counts one.
  induction measure : budget - p.machine.profile.executed using
    Nat.strongRecOn generalizing p with
  | ind rest ih =>
      cases p with
      | finished m outcome => exact Or.inl (endsWithin_finished within)
      | running m f link =>
          cases current : f.insn? with
          | none => exact Or.inl (endsWithin_of_insn?_none current within)
          | some insn =>
              rcases Nat.eq_or_lt_of_le within with spent | room
              · exact Or.inr (exhausts_of_spent linked unlimited current spent)
              · have both : ((running m f link).withBudget (some budget)).step =
                    (m.step f link).withBudget (some budget) :=
                  Machine.step_withBudget unlimited room
                have counts := Machine.executed_step linked current
                  (Machine.not_spent_of_unlimited unlimited)
                have becomes := becomes_step (p := running m f link) linked
                have left : budget - (m.step f link).machine.profile.executed < rest := by
                  rw [counts, ← measure]
                  exact Nat.sub_succ_lt_self _ _ room
                have after := ih _ left (linked_step (p := running m f link) linked)
                  ((congrArg Limits.budget becomes.limits).trans unlimited)
                  (counts.symm ▸ room) rfl
                exact after.imp (.of_step both) (.of_step both)

/-- A step does not count beyond the budget. -/
theorem executed_step_le (linked : p.Linked) (limited : p.machine.limits.budget = some budget)
    (within : p.machine.profile.executed ≤ budget) :
    p.step.machine.profile.executed ≤ budget := by
  cases p with
  | finished m outcome => exact within
  | running m f link =>
      change m.limits.budget = some budget at limited
      rw [step]
      cases current : f.insn? with
      | none =>
          have keeps := m.failAt_keeps f.method (f.ip - 1) link (.fellOffEnd f.ip)
          rw [Machine.step_of_insn?_none current, keeps.executed]
          exact within
      | some insn =>
          -- The count grows only where the budget has room for one more.
          by_cases reached : budget ≤ m.profile.executed
          · have keeps := m.failAt_keeps f.method f.ip link (.budgetSpent budget)
            rw [Machine.step_of_spent current limited reached, Machine.fail, keeps.executed]
            exact within
          · have room : ¬ m.Spent := by
              rintro ⟨limit, limited', reached'⟩
              cases limited.symm.trans limited'
              exact reached reached'
            rw [Machine.executed_step linked current room]
            exact Nat.lt_of_not_le reached

/-- A budgeted program never counts beyond its budget. -/
theorem Reaches.executed_le (linked : p.Linked)
    (limited : p.machine.limits.budget = some budget)
    (within : p.machine.profile.executed ≤ budget) (reached : p.Reaches q) :
    q.machine.profile.executed ≤ budget := by
  refine reached.invariant (I := fun q => q.machine.profile.executed ≤ budget) within ?_
  intro q ahead ih
  have limits := (ahead.becomes linked).limits
  exact executed_step_le (ahead.linked linked) (limits.symm ▸ limited) ih

end Progress

/-! ## Calls of the host -/

/-- **A budget is transparent and ends every call.** A call that ends within the
budget when there is none ends in the same way with it. Every other call ends
when the budget is spent, exactly. No call counts beyond the budget. -/
theorem Machine.call_under_budget (m : Machine ω) {budget : Nat}
    (within : m.profile.executed ≤ budget) (className method descriptor : String)
    (args : List Value) :
    let unlimited := (m.withBudget none).start className method descriptor args
    let limited := (m.withBudget (some budget)).start className method descriptor args
    (∀ m' outcome, unlimited.Ends m' outcome → m'.profile.executed ≤ budget →
      limited.Ends (m'.withBudget (some budget)) outcome) ∧
    ((¬ ∃ m' outcome, unlimited.Ends m' outcome ∧ m'.profile.executed ≤ budget) →
      ∃ m' e, limited.Ends m' (.error e) ∧ e.fault.kind = .budgetExhausted ∧
        m'.profile.executed = budget) ∧
    ∀ p, limited.Reaches p → p.machine.profile.executed ≤ budget := by
  intro unlimited limited
  have starts := (m.withBudget none).start_starts className method descriptor args
  obtain ⟨depth, keeps⟩ := starts.keeps
  have same : limited = unlimited.withBudget (some budget) :=
    (m.withBudget none).start_withBudget (some budget) className method descriptor args
  have cases := Progress.endsWithin_or_exhausts starts.linked
    (congrArg Limits.budget keeps.limits) (keeps.executed.symm ▸ within)
  refine ⟨fun m' outcome ends within' => ?_, fun beyond => ?_, fun p reached => ?_⟩
  · rw [same]
    rcases cases with ⟨m'', outcome', ends', _, limitedEnds⟩ | ⟨beyond, _⟩
    · obtain ⟨rfl, rfl⟩ := ends.unique ends'
      exact limitedEnds
    · exact (Nat.not_lt_of_le within' (beyond m' outcome ends)).elim
  · rw [same]
    rcases cases with ⟨m', outcome, ends, within', _⟩ | ⟨_, m', e, ends, fault, executed⟩
    · exact (beyond ⟨m', outcome, ends, within'⟩).elim
    · exact ⟨m', e, ends, by rw [fault]; rfl, executed⟩
  · have starts' := (m.withBudget (some budget)).start_starts className method descriptor args
    obtain ⟨depth', keeps'⟩ := starts'.keeps
    exact reached.executed_le starts'.linked (congrArg Limits.budget keeps'.limits)
      (keeps'.executed.symm ▸ within)

/-- A method whose only instruction jumps to itself. -/
def spin : LoadedMethod where
  id := 0
  owner := "Spin"
  code :=
    { name := "run"
      descriptor := "()V"
      flags := .ofList [.accStatic]
      maxStack := 0
      maxLocals := 0
      argsSize := 0
      instructions := [⟨0, .goto, [.target 0], none⟩] }
  descriptor := ⟨[], .void⟩

/-- A machine with that method alone. -/
def spinning : Machine Unit :=
  .create ⟨.insert .empty "Spin" ⟨"Spin", "", .insert .empty ("run", "()V") spin⟩, 1⟩ {} ()

/-- The frame of that method never leaves its instruction. -/
theorem spinning_reaches {p : Progress Unit}
    (reached : ((spinning.withBudget none).start "Spin" "run" "()V" []).Reaches p) :
    ∃ m : Machine Unit, p = .running (m.withBudget none) ⟨#[], [], 0, spin, none⟩ .host := by
  refine reached.invariant
    (I := fun p => ∃ m : Machine Unit,
      p = .running (m.withBudget none) ⟨#[], [], 0, spin, none⟩ .host) ?_ ?_
  · exact ⟨{ spinning.atDepth 1 with started := ["Spin"] }, rfl⟩
  · rintro q _ ⟨m, rfl⟩
    exact ⟨{ m with profile := m.counted.profile.jump ⟨0, 0⟩ ⟨0, 0⟩ }, rfl⟩

/-- A program that never ends by itself ends with a budget. -/
theorem spinning_call_under_budget :
    (¬ ∃ m outcome, ((spinning.withBudget none).start "Spin" "run" "()V" []).Ends m outcome) ∧
    ∃ m e, ((spinning.withBudget (some 3)).start "Spin" "run" "()V" []).Ends m (.error e) ∧
      e.fault.kind = .budgetExhausted ∧ m.profile.executed = 3 := by
  have endless : ∀ m outcome,
      ¬ ((spinning.withBudget none).start "Spin" "run" "()V" []).Ends m outcome := by
    intro m outcome ends
    obtain ⟨m', running⟩ := spinning_reaches ends
    cases running
  refine ⟨fun ⟨m, outcome, ends⟩ => endless m outcome ends, ?_⟩
  have within : spinning.profile.executed ≤ 3 := Nat.zero_le 3
  exact (spinning.call_under_budget within "Spin" "run" "()V" []).2.1
    fun ⟨m, outcome, ends, _⟩ => endless m outcome ends

end ClassMachine
