import ClassMachine.Text.Blank
import ClassMachine.Text.Numeral

/-!
# Limits

How many instructions a program may execute, how deep calls may nest, and how
often a loop is entered before it counts as hot. Variables of the environment
override the defaults.
-/

namespace ClassMachine

/-- The limits of a machine; without a budget a program may run forever. -/
structure Limits where
  budget : Option Nat := none
  maxDepth : Nat := 1024
  hotThreshold : Nat := 1000
deriving DecidableEq, Repr

/-- A variable that does not hold a number. -/
structure ConfigError where
  name : String
  value : String
deriving DecidableEq, Repr

def ConfigError.message (e : ConfigError) : String :=
  s!"invalid value `{e.value}` for {e.name}"

namespace Limits

def budgetVariable : String := "POUROVER_INSTRUCTION_BUDGET"
def depthVariable : String := "POUROVER_MAX_CALL_DEPTH"
def hotLoopVariable : String := "POUROVER_HOT_LOOP_THRESHOLD"

/-- The number that a variable holds: 64 bits, blanks around it apart. -/
def readVariable (lookup : String → Option String) (name : String) :
    Except ConfigError (Option Nat) :=
  match lookup name with
  | none => .ok none
  | some value =>
    match Text.Range.uint64.read? (Text.trim value.toList) with
    | some n => .ok (some n.toNat)
    | none => .error ⟨name, value⟩

/-- The defaults, overridden by variables. -/
def ofVariables (lookup : String → Option String) : Except ConfigError Limits := do
  let defaults : Limits := {}
  let budget ← readVariable lookup budgetVariable
  let depth ← readVariable lookup depthVariable
  let threshold ← readVariable lookup hotLoopVariable
  return {
    budget := budget.or defaults.budget
    maxDepth := depth.getD defaults.maxDepth
    hotThreshold := threshold.getD defaults.hotThreshold }

end Limits

end ClassMachine
