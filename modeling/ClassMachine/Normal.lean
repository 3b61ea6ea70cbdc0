import ClassMachine.Comment
import ClassMachine.FormatError

/-!
# Normalization

Code as it is read becomes code that can run. Each instruction first has its
operands classified by the family of its opcode, with symbols read out of the
comment; suffixed mnemonics are split on the way. Then the offsets of jumps
become indices of instructions. Operands that are already classified stay.
-/

namespace ClassMachine

/-! ## Operands of one instruction -/

namespace Operand

/-- The slot of a local variable, if the number can be one. -/
def ofSlot (value : Int32) : Operand :=
  if 0 ≤ value.toInt ∧ value.toInt < UInt16.size then .slot (UInt16.ofNat value.toInt.toNat)
  else .raw (toString value.toInt)

/-- A pool token becomes plain text where nothing describes it. -/
def unpooled : Operand → Operand
  | .pool index => .raw ("#" ++ toString index.toNat)
  | operand => operand

/-- A number that is not negative becomes the offset of a jump. -/
def asOffset : Operand → Operand
  | .int value =>
    if 0 ≤ value.toInt then .offset (UInt32.ofNat value.toInt.toNat) else .int value
  | operand => operand

def isConstant : Operand → Bool
  | .constant _ => true
  | _ => false

def isField : Operand → Bool
  | .field _ => true
  | _ => false

def isMethod : Operand → Bool
  | .method _ => true
  | _ => false

def isClass : Operand → Bool
  | .classRef _ => true
  | _ => false

/-- Operands that a symbol takes the place of. -/
def isReplaceable : Operand → Bool
  | .pool _ | .raw _ => true
  | _ => false

end Operand

/-- The operands of an instruction on a local variable: the first number is its
slot. -/
def localOperands : List Operand → List Operand
  | .int value :: rest => .ofSlot value :: rest
  | operands => operands

/-- The operands of an instruction that a comment describes. The symbol of the
comment takes the place of a leading pool token; whatever else stands there is
kept behind it. -/
def symbolOperands (isClassified : Operand → Bool) (read : String → Option Operand)
    (comment : Option String) (operands : List Operand) : List Operand :=
  if operands.head?.any isClassified then operands
  else
    let symbol :=
      match comment with
      | some text => (read text).getD (.raw text)
      | none => .raw ""
    match operands with
    | [] => [symbol]
    | first :: rest => if first.isReplaceable then symbol :: rest else symbol :: first :: rest

/-- The operands of an instruction, classified by the family of its opcode. -/
def classifiedOperands (className : String) (family : Family) (comment : Option String)
    (operands : List Operand) : List Operand :=
  match family with
  | .immediate | .plain => operands.map Operand.unpooled
  | .localVariable => localOperands operands
  | .controlTransfer => operands.map Operand.asOffset
  | .constantLoad =>
    symbolOperands Operand.isConstant (fun c => (Comment.constant? c).map .constant) comment
      operands
  | .fieldAccess =>
    symbolOperands Operand.isField (fun c => (Comment.fieldRef? className c).map .field) comment
      operands
  | .invocation =>
    symbolOperands Operand.isMethod (fun c => (Comment.methodRef? className c).map .method) comment
      operands
  | .typeReference =>
    symbolOperands Operand.isClass (fun c => (Comment.className? c).map .classRef) comment operands

/-- The base opcode and the number of a mnemonic that is known only with its
suffix. -/
def Opcode.split? : Opcode → Option (Opcode × Int32)
  | .other name => Opcode.splitSuffix? name
  | _ => none

/-- The operand that stood in the suffix of a mnemonic. -/
def suffixOperand (base : Opcode) (value : Int32) : Operand :=
  if base.family = .localVariable then .ofSlot value else .int value

/-- The instruction with its operands classified. -/
def Instruction.normalize (className : String) (insn : Instruction) : Instruction :=
  match insn.opcode.split? with
  | some (base, value) => { insn with opcode := base, operands := [suffixOperand base value] }
  | none =>
    { insn with
      operands := classifiedOperands className insn.opcode.family insn.comment insn.operands }

/-! ## Jumps of one method -/

/-- The index of the last instruction at an offset. -/
def indexAt? (offset : UInt32) : List Instruction → Option Nat
  | [] => none
  | insn :: rest =>
    match indexAt? offset rest with
    | some index => some (index + 1)
    | none => if insn.offset = offset then some 0 else none

/-- Whether the operands are those of a jump: one offset or index. -/
def isJumpOperands : List Operand → Bool
  | [.offset _] | [.target _] => true
  | _ => false

/-- An operand with its offset resolved, or the offset that leads nowhere. -/
def Operand.resolve (code : List Instruction) : Operand → Except UInt32 Operand
  | .offset position =>
    match indexAt? position code with
    | some index => .ok (.target index)
    | none => .error position
  | operand => .ok operand

/-- Resolves the operands of one instruction of a method. -/
def Instruction.resolve (className method : String) (code : List Instruction)
    (insn : Instruction) : Except FormatError Instruction :=
  if insn.opcode.family = .controlTransfer ∧ !isJumpOperands insn.operands then
    .error (.badBranchOperand className method insn.offset insn.operands)
  else
    match insn.operands.mapM (Operand.resolve code) with
    | .ok operands => .ok { insn with operands }
    | .error target => .error (.unresolvedBranch className method insn.offset target)

/-- The method with its operands classified and its jumps resolved. -/
def MethodCode.normalize (className : String) (m : MethodCode) : Except FormatError MethodCode := do
  let code := m.instructions.map (Instruction.normalize className)
  return { m with instructions := ← code.mapM (Instruction.resolve className m.name code) }

/-- The class with every method normalized, or the first error. -/
def ClassCode.normalize (c : ClassCode) : Except FormatError ClassCode := do
  let name := canonicalName c.name
  let methods ← c.methods.mapM (MethodCode.normalize name)
  return ⟨name, canonicalName c.superName, methods⟩

end ClassMachine
