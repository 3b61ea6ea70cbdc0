import ClassMachine.Loop

/-!
# Runs of a program

`Progress.run` takes a number of steps at once. This module forgets the number.

* `Progress.Reaches p q`: steps lead from `p` to `q`. `Reaches.invariant` carries
  what one step preserves along a whole run, and `Reaches.cases_last` gives the
  last step of a run that took one.
* `Progress.Ends p m outcome`: the program ends, with that machine and outcome.
  A program ends in one way only (`Ends.unique`), and the outer loop finds that
  end (`Ends.complete_eq`).
-/

namespace ClassMachine

variable {ω : Type} {p q r : Progress ω} {m m' : Machine ω}
  {outcome outcome' : Except RuntimeError (Option Value)}

/-- The machine of a program that runs or has ended. -/
def Progress.machine : Progress ω → Machine ω
  | .running m _ _ => m
  | .finished m _ => m

/-- The frames at work, innermost first. -/
def Progress.frames : Progress ω → List Frame
  | .running _ f link => f :: link.frames
  | .finished _ _ => []

/-! ## Counted steps -/

@[simp]
theorem Progress.run_finished (n : Nat) (m : Machine ω)
    (outcome : Except RuntimeError (Option Value)) :
    (Progress.finished m outcome).run n = .finished m outcome := by
  cases n <;> rfl

theorem Progress.run_succ (n : Nat) (p : Progress ω) : p.run (n + 1) = p.step.run n := by
  cases p with
  | running m f link => rfl
  | finished m outcome =>
      rw [run_finished]
      exact (run_finished n m outcome).symm

theorem Progress.run_add (n k : Nat) (p : Progress ω) : p.run (n + k) = (p.run n).run k := by
  induction n generalizing p with
  | zero => rw [Nat.zero_add, Progress.run]
  | succ n ih => rw [Nat.succ_add, run_succ, ih, run_succ]

theorem Progress.run_succ_last (n : Nat) (p : Progress ω) : p.run (n + 1) = (p.run n).step := by
  rw [run_add, run_succ, Progress.run]

/-! ## Reachable states -/

/-- Some number of steps leads from `p` to `q`. -/
def Progress.Reaches (p q : Progress ω) : Prop :=
  ∃ n, p.run n = q

namespace Progress.Reaches

theorem refl (p : Progress ω) : p.Reaches p :=
  ⟨0, rfl⟩

/-- One step further. -/
theorem step (h : p.Reaches q) : p.Reaches q.step := by
  obtain ⟨n, rfl⟩ := h
  exact ⟨n + 1, run_succ_last n p⟩

/-- One step earlier. -/
theorem of_step (h : p.step.Reaches q) : p.Reaches q := by
  obtain ⟨n, rfl⟩ := h
  exact ⟨n + 1, run_succ n p⟩

/-- What holds at the start and is kept by every step of the run holds of every
reachable state. -/
theorem invariant {I : Progress ω → Prop} (start : I p)
    (keep : ∀ q, p.Reaches q → I q → I q.step) (h : p.Reaches q) : I q := by
  obtain ⟨n, rfl⟩ := h
  induction n with
  | zero => exact start
  | succ n ih =>
      rw [run_succ_last]
      exact keep _ ⟨n, rfl⟩ ih

/-- A reachable state is the start or the result of a step of a program that still
ran. -/
theorem cases_last (h : p.Reaches q) :
    q = p ∨ ∃ m f link, p.Reaches (.running m f link) ∧ m.step f link = q := by
  obtain ⟨n, rfl⟩ := h
  induction n with
  | zero => exact Or.inl rfl
  | succ n ih =>
      rw [run_succ_last]
      cases last : p.run n with
      | running m f link => exact Or.inr ⟨m, f, link, ⟨n, last⟩, rfl⟩
      | finished m outcome =>
          rw [last] at ih
          exact ih

end Progress.Reaches

/-! ## Endings -/

/-- The program ends, with that machine and outcome. -/
def Progress.Ends (p : Progress ω) (m : Machine ω)
    (outcome : Except RuntimeError (Option Value)) : Prop :=
  p.Reaches (.finished m outcome)

namespace Progress.Ends

theorem of_step (h : p.step.Ends m outcome) : p.Ends m outcome :=
  Reaches.of_step h

/-- A program that ends also ends after its next step. -/
theorem step (h : p.Ends m outcome) : p.step.Ends m outcome := by
  obtain ⟨n, ends⟩ := h
  refine ⟨n, ?_⟩
  rw [← run_succ, run_succ_last, ends]
  rfl

/-- A program that has ended stays as it is. -/
theorem of_finished (h : (Progress.finished m outcome).Ends m' outcome') :
    m' = m ∧ outcome' = outcome := by
  obtain ⟨n, ends⟩ := h
  rw [run_finished] at ends
  cases ends
  exact ⟨rfl, rfl⟩

theorem unique (h : p.Ends m outcome) (h' : p.Ends m' outcome') :
    m' = m ∧ outcome' = outcome := by
  obtain ⟨n, ends⟩ := h
  obtain ⟨k, ends'⟩ := h'
  refine of_finished ⟨k, ?_⟩
  rw [← ends, ← run_add, Nat.add_comm, run_add, ends', run_finished]

/-- The outer loop finds the end. -/
theorem complete_eq [Inhabited ω] (h : p.Ends m outcome) :
    p.complete = .finished m outcome := by
  obtain ⟨n, ends⟩ := h
  induction n generalizing p with
  | zero =>
      rw [Progress.run] at ends
      rw [ends, complete]
  | succ n ih =>
      cases p with
      | running m₀ f link =>
          rw [complete]
          exact ih ends
      | finished m₀ outcome₀ =>
          rw [run_finished] at ends
          rw [ends, complete]

end Progress.Ends

end ClassMachine
