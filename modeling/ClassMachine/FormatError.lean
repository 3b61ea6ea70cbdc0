import ClassMachine.Code
import ClassMachine.Descriptor

/-!
# Errors in code

What can be wrong with a listing, with the jumps of a method, and with code
that is to be run. Messages are worded here and nowhere else.
-/

namespace ClassMachine

/-- Why code is not ready to run. -/
inductive LoadFlaw where
  | noInstructions
  | noTarget
  | unresolvedOperand (operand : Operand)
  | targetOutOfRange (index : Nat)
deriving DecidableEq, Repr

def LoadFlaw.message : LoadFlaw → String
  | .noInstructions => "method has no instructions"
  | .noTarget => "branch has no resolved target"
  | .unresolvedOperand operand => "operand " ++ operand.text ++ " is unresolved"
  | .targetOutOfRange index => "branch target #" ++ toString index ++ " is out of range"

/-- Why a listing or code is rejected. -/
inductive FormatError where
  | missingClassHeader
  /-- A metric that is missing, repeated, unknown or no number. -/
  | badMetric (line : Nat) (field value : String)
  | nonMonotonicOffset (line : Nat) (offset previous : UInt32)
  | badInstruction (line : Nat) (text : String)
  | missingDescriptor (line : Nat) (method : String)
  | badDescriptor (method : String) (cause : DescriptorError)
  /-- A jump to an offset where no instruction starts. -/
  | unresolvedBranch (className method : String) (offset target : UInt32)
  /-- A jump without exactly one offset. -/
  | badBranchOperand (className method : String) (offset : UInt32) (operands : List Operand)
  | notNormalized (className method : String) (index : Nat) (flaw : LoadFlaw)
deriving DecidableEq, Repr

namespace FormatError

def message : FormatError → String
  | .missingClassHeader => "no class declaration found in disassembly"
  | .badMetric line field value =>
    s!"line {line}: malformed metric `{field}={value}`"
  | .nonMonotonicOffset line offset previous =>
    s!"line {line}: instruction offset {offset.toNat} does not follow offset {previous.toNat}"
  | .badInstruction line text =>
    s!"line {line}: malformed instruction `{text}`"
  | .missingDescriptor line method =>
    s!"line {line}: method `{method}` has code but no descriptor"
  | .badDescriptor method cause =>
    s!"method `{method}`: {cause.message}"
  | .unresolvedBranch className method offset target =>
    s!"{className}.{method}: branch at offset {offset.toNat} targets offset {target.toNat} "
      ++ "which is not an instruction boundary"
  | .badBranchOperand className method offset operands =>
    s!"{className}.{method}: branch at offset {offset.toNat} has malformed operands "
      ++ "`" ++ Operand.textOfList operands ++ "`"
  | .notNormalized className method index flaw =>
    s!"{className}.{method}: instruction {index} is not normalized: {flaw.message}"

/-- The messages of the errors behind an error, outermost first. -/
def causes : FormatError → List String
  | .badDescriptor _ cause => [cause.message]
  | _ => []

end FormatError

end ClassMachine
