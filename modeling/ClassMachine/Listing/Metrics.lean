import ClassMachine.Text.Blank
import ClassMachine.Text.Numeral
import ClassMachine.FormatError

/-!
# Metric lines

The line `stack=…, locals=…, args_size=…` in front of a method's code. All
three fields must be there, each once and each a number of 16 bits, in any
order.
-/

namespace ClassMachine.Listing

open Text

/-- The fields of a metric line that have been read so far. -/
structure Metrics where
  stack : Option UInt16 := none
  locals : Option UInt16 := none
  argsSize : Option UInt16 := none
deriving DecidableEq, Repr

/-- The value of a field, unless the number does not fit. -/
def metricValue? (value : List Char) : Option UInt16 :=
  (Range.uint16.read? value).map fun n => UInt16.ofNat n.toNat

/-- A field divided at its first equals sign, without blanks around the parts. -/
def metricParts (field : List Char) : List Char × List Char :=
  match cutFirst? '=' field with
  | some (key, value) => (trim key, trim value)
  | none => (trim field, [])

/-- Adds a field. There is no result for a key that is unknown or already set,
or for a value that does not fit. -/
def Metrics.set? (m : Metrics) (key value : List Char) : Option Metrics := do
  let n ← metricValue? value
  if key = "stack".toList then
    if m.stack.isSome then none else some { m with stack := some n }
  else if key = "locals".toList then
    if m.locals.isSome then none else some { m with locals := some n }
  else if key = "args_size".toList then
    if m.argsSize.isSome then none else some { m with argsSize := some n }
  else none

/-- Reads fields onto what has been read, up to the first bad one. -/
def Metrics.readFields (line : Nat) : Metrics → List (List Char) → Except FormatError Metrics
  | m, [] => .ok m
  | m, field :: fields =>
    let (key, value) := metricParts field
    match m.set? key value with
    | some m => m.readFields line fields
    | none => .error (.badMetric line (String.ofList key) (String.ofList value))

/-- The numbers of a complete metric line. -/
structure FrameSize where
  maxStack : UInt16
  maxLocals : UInt16
  argsSize : UInt16
deriving DecidableEq, Repr

/-- The numbers, or the first field that is missing. -/
def Metrics.complete (line : Nat) (m : Metrics) : Except FormatError FrameSize :=
  match m.stack, m.locals, m.argsSize with
  | none, _, _ => .error (.badMetric line "stack" "")
  | _, none, _ => .error (.badMetric line "locals" "")
  | _, _, none => .error (.badMetric line "args_size" "")
  | some stack, some locals, some argsSize => .ok ⟨stack, locals, argsSize⟩

/-- Reads a metric line. -/
def readMetrics (line : Nat) (cs : List Char) : Except FormatError FrameSize := do
  let m ← Metrics.readFields line {} (cs.splitOn ',')
  m.complete line

end ClassMachine.Listing
