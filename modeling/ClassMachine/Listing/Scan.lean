import ClassMachine.Descriptor
import ClassMachine.Listing.Declaration
import ClassMachine.Listing.Metrics
import ClassMachine.Listing.Line

/-!
# Scanning a listing

A listing is read line by line. Until the class header every line is skipped;
then lines are skipped until a method signature, which opens a method. Its
descriptor and flags follow, then its code, and a blank line or the header of
another section closes it. A method without code is dropped.

The state of the scan carries exactly what that stage knows: no class before
the header, no method before a signature.
-/

namespace ClassMachine.Listing

open Text

/-- A method whose lines are being read. -/
structure Pending where
  name : String
  /-- The line of its signature. -/
  line : Nat
  descriptor : Option String := none
  flags : FlagSet := .empty
  size : FrameSize := ⟨0, 0, 0⟩
  /-- The instructions read so far, the last one first. -/
  latest : List Instruction := []
deriving DecidableEq

/-- What the lines of a class are waited for. -/
inductive Stage where
  /-- The signature of a method. -/
  | signature
  /-- The descriptor, the flags or the code of an open method. -/
  | metadata (method : Pending)
  /-- The instructions of an open method. -/
  | code (method : Pending)
deriving DecidableEq

/-- What has been read of a listing. -/
inductive Scan where
  | start
  | inside (header : Header) (methods : List MethodCode) (stage : Stage)
deriving DecidableEq

/-- Headers that end the code of a method. -/
def sectionHeaders : List (List Char) :=
  ["LineNumberTable", "LocalVariableTable", "LocalVariableTypeTable", "Exception table",
    "Exceptions:", "StackMapTable", "RuntimeVisibleAnnotations", "RuntimeInvisibleAnnotations",
    "RuntimeVisibleParameterAnnotations", "RuntimeInvisibleParameterAnnotations",
    "MethodParameters", "Signature:"].map String.toList

/-- Whether the line ends the code of a method. -/
def endsCode (line : List Char) : Bool :=
  line.isEmpty || sectionHeaders.any (·.isPrefixOf line)

/-! ## Closing a method -/

/-- The method, if it has code. It then needs a well-formed descriptor. -/
def Pending.close (m : Pending) : Except FormatError (Option MethodCode) :=
  if m.latest.isEmpty then .ok none
  else
    match m.descriptor with
    | none => .error (.missingDescriptor m.line m.name)
    | some descriptor =>
      match Descriptor.parse descriptor with
      | .error cause => .error (.badDescriptor m.name cause)
      | .ok _ =>
        .ok (some
          { name := m.name
            descriptor
            flags := m.flags
            maxStack := m.size.maxStack
            maxLocals := m.size.maxLocals
            argsSize := m.size.argsSize
            instructions := m.latest.reverse })

/-- The methods read so far with an open one closed. -/
def Stage.close (methods : List MethodCode) : Stage → Except FormatError (List MethodCode)
  | .signature => .ok methods
  | .metadata m | .code m => do return methods ++ (← m.close).toList

/-! ## One line -/

/-- A line where a signature is waited for. -/
def signatureLine (header : Header) (number : Nat) (line : List Char) : Stage :=
  match methodName? header.name line with
  | some name => .metadata { name, line := number }
  | none => .signature

/-- A line between the signature and the code of a method. A signature here opens
the next method and closes this one, which has no code. -/
def metadataLine (header : Header) (methods : List MethodCode) (m : Pending) (number : Nat)
    (line : List Char) : Except FormatError Scan :=
  if line.isEmpty then do
    return .inside header (← (Stage.metadata m).close methods) .signature
  else
    match dropFront? "descriptor:".toList line with
    | some text =>
      let descriptor := some (String.ofList (trim text))
      .ok (.inside header methods (.metadata { m with descriptor }))
    | none =>
      match dropFront? "flags:".toList line with
      | some text => .ok (.inside header methods (.metadata { m with flags := readFlags text }))
      | none =>
        if "Code:".toList.isPrefixOf line then .ok (.inside header methods (.code m))
        else if (methodName? header.name line).isSome then do
          let methods ← (Stage.metadata m).close methods
          return .inside header methods (signatureLine header number line)
        else .ok (.inside header methods (.metadata m))

/-- Adds the instruction of a line; offsets must increase. -/
def Pending.addInstruction (m : Pending) (number : Nat) (line : List Char)
    (parts : InstructionLine) : Except FormatError Pending :=
  match parts.offset? with
  | none => .error (.badInstruction number (String.ofList line))
  | some offset =>
    let add := { m with latest := parts.instruction offset :: m.latest }
    match m.latest with
    | last :: _ =>
      if offset ≤ last.offset then .error (.nonMonotonicOffset number offset last.offset)
      else .ok add
    | [] => .ok add

/-- A line inside the code of a method. Lines that are neither metrics nor
instructions, such as the rows of a switch, are skipped. -/
def codeLine (header : Header) (methods : List MethodCode) (m : Pending) (number : Nat)
    (line : List Char) : Except FormatError Scan :=
  if endsCode line then do
    return .inside header (← (Stage.code m).close methods) .signature
  else if "stack=".toList.isPrefixOf line then do
    return .inside header methods (.code { m with size := ← readMetrics number line })
  else
    match instructionLine? line with
    | none => .ok (.inside header methods (.code m))
    | some parts => do
      return .inside header methods (.code (← m.addInstruction number line parts))

/-- Reads one line, without blanks around it. -/
def Scan.feed (number : Nat) (line : List Char) : Scan → Except FormatError Scan
  | .start =>
    match header? rootClass line with
    | some header => .ok (.inside header [] .signature)
    | none => .ok .start
  | .inside header methods .signature =>
    .ok (.inside header methods (signatureLine header number line))
  | .inside header methods (.metadata m) => metadataLine header methods m number line
  | .inside header methods (.code m) => codeLine header methods m number line

/-! ## The whole listing -/

/-- Reads lines, of which the first has the given number. -/
def Scan.feedLines : (number : Nat) → List (List Char) → Scan → Except FormatError Scan
  | _, [], scan => .ok scan
  | number, line :: lines, scan => do
    let scan ← scan.feed number (trim line)
    scan.feedLines (number + 1) lines

/-- The class, once every line is read. -/
def Scan.finish : Scan → Except FormatError ClassCode
  | .start => .error .missingClassHeader
  | .inside header methods stage => do
    return ⟨header.name, header.superName, ← stage.close methods⟩

/-- Reads the listing of one class. -/
def parse (text : String) : Except FormatError ClassCode := do
  let scan ← Scan.start.feedLines 1 (lines text.toList)
  scan.finish

end ClassMachine.Listing
