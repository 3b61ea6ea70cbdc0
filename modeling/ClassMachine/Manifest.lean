import ClassMachine.Code
import ClassMachine.Json.Decode
import ClassMachine.Json.Writer
import ClassMachine.Limits

/-!
# Manifests

Classes as JSON: an array of classes, each with its methods and instructions.
Operands and literals carry a tag. A manifest is written with two spaces of
indentation, flags in their order, and comments only where there are any.
-/

namespace ClassMachine

/-! ## Writing -/

namespace Manifest

/-- Numbers of 32 bits are set out in positions from `10 ^ (-6)` up to below
`10 ^ 13`. -/
def singleLayout : Decimal.Layout where
  positional e := decide (-6 ≤ e ∧ e ≤ 12)
  keepPlace := true
  plusSign := true
  tie := .even

/-- Numbers of 64 bits are set out in positions from `10 ^ (-5)` up to below
`10 ^ 16`. -/
def doubleLayout : Decimal.Layout where
  positional e := decide (-5 ≤ e ∧ e ≤ 15)
  keepPlace := true
  plusSign := true
  tie := .even

/-- A binary number; what is not finite has no literal and becomes null. -/
def ofWord (layout : Decimal.Layout) (f : Decimal.Format) (word : Nat) : Json :=
  match layout.finite? f word with
  | some literal => .number literal
  | none => .null

def ofFloat (word : UInt32) : Json :=
  ofWord singleLayout Decimal.single word.toNat

def ofDouble (word : UInt64) : Json :=
  ofWord doubleLayout Decimal.double word.toNat

/-- A tag and its content. -/
def tagged (tag content name : String) (value : Json) : Json :=
  .record [(tag, .ofString name), (content, value)]

def ofConstant : Constant → Json
  | .string text => constant "String" (.ofString text)
  | .int value => constant "Int" (.ofInt value.toInt)
  | .float word => constant "Float" (ofFloat word)
  | .long value => constant "Long" (.ofInt value.toInt)
  | .double word => constant "Double" (ofDouble word)
  | .classRef name => constant "Class" (.ofString name)
where
  constant := tagged "type" "value"

def ofMember (r : MemberRef) : Json :=
  .record [("owner", .ofString r.owner), ("name", .ofString r.name),
    ("descriptor", .ofString r.descriptor)]

def ofOperand : Operand → Json
  | .int value => operand "IntLiteral" (.ofInt value.toInt)
  | .slot index => operand "LocalIndex" (.ofNat index.toNat)
  | .target index => operand "BranchTarget" (.ofNat index)
  | .constant value => operand "ConstLiteral" (ofConstant value)
  | .field ref => operand "FieldRef" (ofMember ref)
  | .method ref => operand "MethodRef" (ofMember ref)
  | .classRef name => operand "ClassRef" (.ofString name)
  | .raw text => operand "Raw" (.ofString text)
  | .pool index => operand "PoolIndex" (.ofNat index.toNat)
  | .offset position => operand "BranchOffset" (.ofNat position.toNat)
where
  operand := tagged "kind" "value"

def ofInstruction (insn : Instruction) : Json :=
  .record ([("offset", .ofNat insn.offset.toNat),
      ("opcode", .ofString insn.opcode.mnemonic),
      ("operands", .array (insn.operands.map ofOperand))]
    ++ (insn.comment.map fun text => ("comment", Json.ofString text)).toList)

def ofMethod (m : MethodCode) : Json :=
  .record [("name", .ofString m.name),
    ("descriptor", .ofString m.descriptor),
    ("flags", .array (m.flags.toList.map fun flag => .ofString flag.token)),
    ("maxStack", .ofNat m.maxStack.toNat),
    ("maxLocals", .ofNat m.maxLocals.toNat),
    ("argsSize", .ofNat m.argsSize.toNat),
    ("instructions", .array (m.instructions.map ofInstruction))]

def ofClass (c : ClassCode) : Json :=
  .record [("name", .ofString c.name), ("superName", .ofString c.superName),
    ("methods", .array (c.methods.map ofMethod))]

/-- The text of a manifest. -/
def write (classes : List ClassCode) : String :=
  (Json.array (classes.map ofClass)).prettyText

/-! ## Reading -/

def toUInt16? (value : Json) : Option UInt16 :=
  (value.nat? .uint16).map UInt16.ofNat

def toUInt32? (value : Json) : Option UInt32 :=
  (value.nat? .uint32).map UInt32.ofNat

def toInt32? (value : Json) : Option Int32 :=
  (value.int? .int32).map Int32.ofInt

def toInt64? (value : Json) : Option Int64 :=
  (value.int? .int64).map Int64.ofInt

/-- The tags of literals in order. -/
def constantTags : List String :=
  ["String", "Int", "Float", "Long", "Double", "Class"]

def toConstant? (origin : Json.Origin) (value : Json) : Option Constant := do
  let (name, content, _) ← value.tagged? "type" "value" constantTags origin
  match name with
  | "String" => content.text?.map .string
  | "Int" => (toInt32? content).map .int
  | "Float" => (content.word? Decimal.single).map fun word => .float (UInt32.ofNat word)
  | "Long" => (toInt64? content).map .long
  | "Double" => (content.word? Decimal.double).map fun word => .double (UInt64.ofNat word)
  | "Class" => content.text?.map .classRef
  | _ => none

def toMember? (value : Json) : Option MemberRef := do
  let fields ← value.fields? ["owner", "name", "descriptor"]
  return {
    owner := ← (← fields.lookup "owner").text?
    name := ← (← fields.lookup "name").text?
    descriptor := ← (← fields.lookup "descriptor").text? }

/-- The tags of operands in order. -/
def operandTags : List String :=
  ["IntLiteral", "LocalIndex", "BranchTarget", "ConstLiteral", "FieldRef", "MethodRef", "ClassRef",
    "Raw", "PoolIndex", "BranchOffset"]

def toOperand? (value : Json) : Option Operand := do
  let (name, content, origin) ← value.tagged? "kind" "value" operandTags .inPlace
  match name with
  | "IntLiteral" => (toInt32? content).map .int
  | "LocalIndex" => (toUInt16? content).map .slot
  | "BranchTarget" => (content.nat? .uint64).map .target
  | "ConstLiteral" => (toConstant? origin content).map .constant
  | "FieldRef" => (toMember? content).map .field
  | "MethodRef" => (toMember? content).map .method
  | "ClassRef" => content.text?.map .classRef
  | "Raw" => content.text?.map .raw
  | "PoolIndex" => (toUInt16? content).map .pool
  | "BranchOffset" => (toUInt32? content).map .offset
  | _ => none

/-- A comment that is missing or null is none. -/
def toComment? : Option Json → Option (Option String)
  | none | some .null => some none
  | some value => value.text?.map some

def toInstruction? (value : Json) : Option Instruction := do
  let fields ← value.fields? ["offset", "opcode", "operands", "comment"]
  return {
    offset := ← toUInt32? (← fields.lookup "offset")
    opcode := Opcode.ofMnemonic (← (← fields.lookup "opcode").text?)
    operands := ← (← fields.lookup "operands").list? toOperand?
    comment := ← toComment? (fields.lookup "comment") }

def toFlag? (value : Json) : Option Flag :=
  (value.name? .inPlace).bind Flag.ofToken?

def toMethod? (value : Json) : Option MethodCode := do
  let fields ← value.fields? ["name", "descriptor", "flags", "maxStack", "maxLocals", "argsSize",
    "instructions"]
  return {
    name := ← (← fields.lookup "name").text?
    descriptor := ← (← fields.lookup "descriptor").text?
    flags := .ofList (← (← fields.lookup "flags").list? toFlag?)
    maxStack := ← toUInt16? (← fields.lookup "maxStack")
    maxLocals := ← toUInt16? (← fields.lookup "maxLocals")
    argsSize := ← toUInt16? (← fields.lookup "argsSize")
    instructions := ← (← fields.lookup "instructions").list? toInstruction? }

def toClass? (value : Json) : Option ClassCode := do
  let fields ← value.fields? ["name", "superName", "methods"]
  return {
    name := ← (← fields.lookup "name").text?
    superName := ← (← fields.lookup "superName").text?
    methods := ← (← fields.lookup "methods").list? toMethod? }

/-- The classes of a JSON array. -/
def toClasses? (value : Json) : Option (List ClassCode) :=
  value.list? toClass?

/-- Reads the text of a manifest. -/
def read? (text : String) : Option (List ClassCode) :=
  (Json.parse? text).bind toClasses?

end Manifest

/-! ## Limits -/

namespace Limits

/-- A budget may be null, which is none. -/
def toBudget? : Json → Option (Option Nat)
  | .null => some none
  | value => (value.nat? .uint64).map some

/-- Limits as a JSON record; whatever is missing keeps its default. -/
def ofJson? (value : Json) : Option Limits := do
  let fields ← value.fields? ["instruction_budget", "max_call_depth", "hot_loop_threshold"]
  let defaults : Limits := {}
  return {
    budget := ← (fields.lookup "instruction_budget").elim (some defaults.budget) toBudget?
    maxDepth := ← (fields.lookup "max_call_depth").elim (some defaults.maxDepth)
      (·.nat? .uint64)
    hotThreshold := ← (fields.lookup "hot_loop_threshold").elim (some defaults.hotThreshold)
      (·.nat? .uint64) }

end Limits

end ClassMachine
