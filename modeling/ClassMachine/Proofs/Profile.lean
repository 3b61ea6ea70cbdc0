import ClassMachine.Profile

/-!
# The accounts of a profile

Whatever is called on a profile and in whatever order, its numbers are those of the
history of calls: as many instructions are executed as calls have counted one, and an
instruction has been entered as often as a jump of the history goes back to it. So a
profile says the same whether it is asked about one loop or lists the hot ones
(`Profile.accounts`).

A call adds to the accounts what it says itself (`Profile.executed_after`,
`Profile.entriesAt_after`), so a history adds what its calls say, one after the other.
-/

namespace ClassMachine

variable {budget : Option Nat} {threshold : Nat} {p : Profile} {pc source target : ProgramCounter}
  {fault : Fault}

/-! ## Program counters in order -/

/-- The instruction stands in front of the other one: in an earlier method, or earlier in
the same one. -/
def ProgramCounter.Before (a b : ProgramCounter) : Prop :=
  a.method < b.method ∨ a.method = b.method ∧ a.index < b.index

namespace ProgramCounter

theorem le_iff {a b : ProgramCounter} : a.le b = true ↔ a.Before b ∨ a = b := by
  obtain ⟨method, index⟩ := a
  obtain ⟨method', index'⟩ := b
  simp only [le, Before, Bool.or_eq_true, Bool.and_eq_true, decide_eq_true_eq, beq_iff_eq,
    mk.injEq]
  omega

theorem le_trans (a b c : ProgramCounter) (first : a.le b = true) (second : b.le c = true) :
    a.le c = true := by
  simp only [le, Bool.or_eq_true, Bool.and_eq_true, decide_eq_true_eq, beq_iff_eq] at *
  omega

theorem le_total (a b : ProgramCounter) : (a.le b || b.le a) = true := by
  simp only [le, Bool.or_eq_true, Bool.and_eq_true, decide_eq_true_eq, beq_iff_eq]
  omega

end ProgramCounter

namespace Profile

/-! ## Histories -/

/-- What is called on a profile. -/
inductive Call where
  /-- An instruction is to be counted. -/
  | instruction
  | jump (source target : ProgramCounter)
deriving DecidableEq

/-- What a call gives: another profile, or a fault. -/
def perform (budget : Option Nat) (p : Profile) : Call → Except Fault Profile
  | .instruction => p.count budget
  | .jump source target => .ok (p.jump source target)

/-- The profile behind a call. One that fails leaves it as it was. -/
def after (budget : Option Nat) (p : Profile) (call : Call) : Profile :=
  match p.perform budget call with
  | .ok performed => performed
  | .error _ => p

/-- The profile behind a history. -/
def replay (budget : Option Nat) (calls : List Call) : Profile :=
  calls.foldl (after budget) empty

/-- Whether the call counts an instruction, and with success. -/
def counts (budget : Option Nat) (p : Profile) (call : Call) : Bool :=
  call = .instruction && (p.perform budget call).isOk

/-- How many calls have counted an instruction, from a profile on. -/
def countsFrom (budget : Option Nat) : Profile → List Call → Nat
  | _, [] => 0
  | p, call :: calls => (p.counts budget call).toNat + countsFrom budget (p.after budget call) calls

/-- Whether the call is a jump to the instruction from the same or a later one of its
method. -/
def Call.enters (pc : ProgramCounter) : Call → Bool
  | .instruction => false
  | .jump source target =>
    target = pc && source.method = pc.method && decide (pc.index ≤ source.index)

variable (budget p) (calls : List Call)

/-! ## Executed instructions -/

theorem count_eq_error_iff : p.count budget = .error fault ↔
    ∃ limit, budget = some limit ∧ limit ≤ p.executed ∧ fault = .budgetSpent limit := by
  unfold count
  cases budget with
  | none => simp
  | some limit =>
      dsimp only
      split
      · rename_i reached
        simp [reached, eq_comm]
      · rename_i room
        simp [room]

theorem count_eq_ok_iff {counted : Profile} : p.count budget = .ok counted ↔
    (∀ limit, budget = some limit → p.executed < limit) ∧
      counted = { p with executed := p.executed + 1 } := by
  unfold count
  cases budget with
  | none => simp [eq_comm]
  | some limit =>
      dsimp only
      split
      · rename_i reached
        simp [Nat.not_lt.2 reached]
      · rename_i room
        simp [Nat.not_le.1 room, eq_comm]

theorem executed_after (call : Call) :
    (p.after budget call).executed = p.executed + (p.counts budget call).toNat := by
  cases call with
  | jump source target =>
      exact p.executed_jump source target
  | instruction =>
      rw [after, counts, perform]
      cases done : p.count budget with
      | error fault => rfl
      | ok counted =>
          rw [((p.count_eq_ok_iff budget).1 done).2]
          rfl

theorem executed_foldl :
    (calls.foldl (after budget) p).executed = p.executed + countsFrom budget p calls := by
  induction calls generalizing p with
  | nil => rfl
  | cons call calls ih => rw [List.foldl_cons, ih, executed_after, countsFrom, Nat.add_assoc]

theorem countsFrom_le_length : countsFrom budget p calls ≤ calls.length := by
  induction calls generalizing p with
  | nil => exact Nat.le_refl _
  | cons call calls ih =>
      have one := Bool.toNat_le (p.counts budget call)
      have rest := ih (p.after budget call)
      rw [countsFrom, List.length_cons]
      omega

/-- A call executes no more than the budget allows. -/
theorem executed_after_le {limit : Nat} (within : p.executed ≤ limit) (call : Call) :
    (p.after (some limit) call).executed ≤ limit := by
  unfold after
  cases done : p.perform (some limit) call with
  | error fault => exact within
  | ok performed =>
      cases call with
      | jump source target =>
          cases done
          rwa [executed_jump]
      | instruction =>
          obtain ⟨room, rfl⟩ := (p.count_eq_ok_iff (some limit)).1 done
          exact room limit rfl

/-- No history does. -/
theorem executed_replay_le (limit : Nat) : (replay (some limit) calls).executed ≤ limit :=
  List.foldlRecOn (motive := fun p => p.executed ≤ limit) calls _ (Nat.zero_le limit)
    fun p within call _ => executed_after_le p within call

/-- The budget is spent once as many instructions are executed. -/
theorem count_replay_eq_error_iff : (replay budget calls).count budget = .error fault ↔
    budget = some (replay budget calls).executed ∧
      fault = .budgetSpent (replay budget calls).executed := by
  rw [count_eq_error_iff]
  constructor
  · rintro ⟨limit, rfl, reached, rfl⟩
    have spent : limit = (replay (some limit) calls).executed :=
      Nat.le_antisymm reached (executed_replay_le calls limit)
    exact ⟨congrArg some spent, congrArg Fault.budgetSpent spent⟩
  · rintro ⟨limited, rfl⟩
    exact ⟨_, limited, Nat.le_refl _, rfl⟩

/-- A call that fails is one that finds the budget spent. -/
theorem after_instruction : (replay budget calls).after budget .instruction
    = if budget = some (replay budget calls).executed then replay budget calls
      else { replay budget calls with executed := (replay budget calls).executed + 1 } := by
  change (match (replay budget calls).count budget with
    | .ok counted => counted
    | .error _ => replay budget calls) = _
  cases done : (replay budget calls).count budget with
  | error fault => rw [if_pos ((count_replay_eq_error_iff budget calls).1 done).1]
  | ok counted =>
      obtain ⟨room, rfl⟩ := (count_eq_ok_iff budget _).1 done
      rw [if_neg fun spent => Nat.lt_irrefl _ (room _ spent)]

/-! ## Entries of loops -/

theorem entriesAt_jump (source target pc : ProgramCounter) : (p.jump source target).entriesAt pc
    = p.entriesAt pc + ((Call.jump source target).enters pc).toNat := by
  have enters : (Call.jump source target).enters pc
      = (decide (target = pc) && isLoopEntry source target) := by
    by_cases here : target = pc
    · subst here
      simp [Call.enters, isLoopEntry, Bool.beq_eq_decide_eq]
    · simp [Call.enters, here]
  rw [enters]
  unfold jump
  split
  · rename_i back
    rw [back, Bool.and_true]
    by_cases here : pc = target
    · subst here
      simp [entriesAt]
    · rw [entriesAt, Table.find?_insert_of_ne _ _ here, decide_eq_false (Ne.symm here)]
      rfl
  · rename_i forth
    rw [Bool.eq_false_iff.2 forth, Bool.and_false]
    rfl

/-- A call adds an entry to the instruction that it enters. -/
theorem entriesAt_after (call : Call) (pc : ProgramCounter) :
    (p.after budget call).entriesAt pc = p.entriesAt pc + (call.enters pc).toNat := by
  cases call with
  | jump source target => exact p.entriesAt_jump source target pc
  | instruction =>
      rw [after, perform]
      cases done : p.count budget with
      | error fault => rfl
      | ok counted =>
          rw [((p.count_eq_ok_iff budget).1 done).2]
          rfl

theorem entriesAt_foldl (pc : ProgramCounter) :
    (calls.foldl (after budget) p).entriesAt pc = p.entriesAt pc + calls.countP (·.enters pc) := by
  induction calls generalizing p with
  | nil => rfl
  | cons call calls ih =>
      rw [List.foldl_cons, ih, entriesAt_after, List.countP_cons]
      cases call.enters pc with
      | false => rfl
      | true => exact Nat.add_right_comm _ 1 _

theorem entriesAt_replay (pc : ProgramCounter) :
    (replay budget calls).entriesAt pc = calls.countP (·.enters pc) := by
  rw [replay, entriesAt_foldl]
  exact Nat.zero_add _

/-! ## Hot loops -/

/-- The hot loops that are listed are those that are hot when asked for. -/
theorem mem_hotLoops_iff (threshold : Nat) (pc : ProgramCounter) :
    pc ∈ p.hotLoops threshold ↔ p.isHot threshold pc = true := by
  rw [hotLoops, List.mem_mergeSort, List.mem_filter, Table.mem_keys_iff]
  refine and_iff_right_of_imp fun hot => ?_
  rw [isHot, decide_eq_true_iff, entriesAt] at hot
  cases found : p.entries.find? pc with
  | some entries => exact ⟨entries, rfl⟩
  | none =>
      rw [found] at hot
      exact absurd hot (Nat.not_lt_zero _)

/-- They are listed in order, each once. -/
theorem pairwise_hotLoops (threshold : Nat) :
    (p.hotLoops threshold).Pairwise ProgramCounter.Before := by
  have sorted : (p.hotLoops threshold).Pairwise fun a b => a.le b = true :=
    List.pairwise_mergeSort ProgramCounter.le_trans ProgramCounter.le_total _
  have distinct : (p.hotLoops threshold).Nodup :=
    (List.mergeSort_perm _ _).nodup_iff.2 (p.entries.distinct.filter _)
  refine (sorted.and distinct).imp fun ⟨ordered, different⟩ => ?_
  exact (ProgramCounter.le_iff.1 ordered).resolve_right different

/-! ## All accounts -/

/-- **A profile accounts exactly for its history**, under every threshold and budget.
As many instructions are executed as calls have counted one; a call fails just where that
number is the budget, and leaves the profile as it was. An instruction has as many entries
as jumps come from the same or a later instruction of its method, wherever in the history
they stand, and is hot if these are more than the threshold. The hot loops are listed in
order, each once and no other. No number is larger than the history is long, so words of 64
bits hold all of them. -/
theorem accounts (threshold : Nat) (budget : Option Nat) (calls : List Call) :
    let p := replay budget calls
    p.executed = countsFrom budget empty calls ∧
    (∀ fault, p.count budget = .error fault ↔
      budget = some p.executed ∧ fault = .budgetSpent p.executed) ∧
    p.after budget .instruction
      = (if budget = some p.executed then p else { p with executed := p.executed + 1 }) ∧
    (∀ pc, p.entriesAt pc = calls.countP (·.enters pc)) ∧
    (∀ pc, p.isHot threshold pc = true ↔ threshold < p.entriesAt pc) ∧
    (p.hotLoops threshold).Pairwise ProgramCounter.Before ∧
    (∀ pc, pc ∈ p.hotLoops threshold ↔ p.isHot threshold pc = true) ∧
    p.executed ≤ calls.length ∧ ∀ pc, p.entriesAt pc ≤ calls.length := by
  have executed : (replay budget calls).executed = countsFrom budget empty calls := by
    rw [replay, executed_foldl]
    exact Nat.zero_add _
  refine ⟨executed, fun _ => count_replay_eq_error_iff budget calls,
    after_instruction budget calls, entriesAt_replay budget calls, fun _ => decide_eq_true_iff,
    pairwise_hotLoops _ _, mem_hotLoops_iff _ _, ?_, fun pc => ?_⟩
  · rw [executed]
    exact countsFrom_le_length budget empty calls
  · rw [entriesAt_replay]
    exact List.countP_le_length

/-- Jumps forth and into another method are no entries. -/
example : (replay (some 1) [.jump ⟨1, 2⟩ ⟨1, 2⟩, .instruction, .jump ⟨0, 9⟩ ⟨0, 4⟩, .instruction,
    .jump ⟨0, 1⟩ ⟨0, 6⟩, .jump ⟨1, 7⟩ ⟨0, 6⟩]).hotLoops 0 = [⟨0, 4⟩, ⟨1, 2⟩] := by
  cbv

end Profile

end ClassMachine
