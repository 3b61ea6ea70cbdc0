import ClassMachine.Fault

/-!
# Profiles

A profile counts executed instructions, and jumps back to an earlier or the
same instruction of a method. The instruction jumped to is the head of a loop;
a loop is hot once its head has been entered more often than a threshold.

A count is a word of 64 bits, and the number here is what this word stands for.
So the profiles modelled are those of fewer than `2 ^ 64` counted instructions.
-/

namespace ClassMachine

/-- An instruction by the id of its method and its index. -/
structure ProgramCounter where
  method : Nat
  index : Nat
deriving DecidableEq, Repr

/-- The order of methods, then of instructions. -/
def ProgramCounter.le (a b : ProgramCounter) : Bool :=
  a.method < b.method || (a.method == b.method && a.index ≤ b.index)

/-- The number of executed instructions, and of entries by loop head. -/
structure Profile where
  executed : Nat
  entries : Table ProgramCounter Nat
deriving DecidableEq

namespace Profile

def empty : Profile :=
  ⟨0, .empty⟩

/-- Counts an instruction, unless the budget is spent. -/
def count (p : Profile) (budget : Option Nat) : Except Fault Profile :=
  let counted := { p with executed := p.executed + 1 }
  match budget with
  | some limit => if limit ≤ p.executed then .error (.budgetSpent limit) else .ok counted
  | none => .ok counted

/-- The number of times that an instruction was jumped back to. -/
def entriesAt (p : Profile) (pc : ProgramCounter) : Nat :=
  (p.entries.find? pc).getD 0

/-- Whether a jump enters a loop: back within a method, or to itself. -/
def isLoopEntry (source target : ProgramCounter) : Bool :=
  source.method == target.method && decide (target.index ≤ source.index)

/-- Records a jump. -/
def jump (p : Profile) (source target : ProgramCounter) : Profile :=
  if isLoopEntry source target then
    { p with entries := p.entries.insert target (p.entriesAt target + 1) }
  else p

theorem executed_jump (p : Profile) (source target : ProgramCounter) :
    (p.jump source target).executed = p.executed := by
  unfold jump
  split <;> rfl

def isHot (p : Profile) (threshold : Nat) (pc : ProgramCounter) : Bool :=
  threshold < p.entriesAt pc

/-- The heads of hot loops in order. -/
def hotLoops (p : Profile) (threshold : Nat) : List ProgramCounter :=
  ((p.entries.entries.map Prod.fst).filter (p.isHot threshold)).mergeSort ProgramCounter.le

end Profile

end ClassMachine
