import ClassMachine.Proofs.Execute

/-!
# The faults of an instruction

An instruction fails for its operands, for what it finds in its frame and in
the heap, or because it is not supported. Only the loop around it finds that
there is no instruction, or that the budget is spent: `Fault.OfInstruction`
excludes these two kinds, and `Instruction.execute_fails` says that no
instruction fails with them. A control transfer that has a target fails for the
operand stack only (`Frame.branch_fails`).
-/

namespace ClassMachine

namespace Fault

/-- A fault of the operand stack: there is no value, or one of the wrong kind. -/
def OfStack (fault : Fault) : Prop :=
  fault.kind = .stackUnderflow ∨ fault.kind = .typeMismatch

/-- A fault that does not come from the loop around the instructions. -/
def OfInstruction (fault : Fault) : Prop :=
  fault.kind ≠ .fellOffEnd ∧ fault.kind ≠ .budgetExhausted

attribute [simp] Fault.kind

theorem OfStack.ofInstruction {fault : Fault} (stack : fault.OfStack) : fault.OfInstruction := by
  rcases stack with kind | kind
  · exact ⟨by rw [kind]; nofun, by rw [kind]; nofun⟩
  · exact ⟨by rw [kind]; nofun, by rw [kind]; nofun⟩

theorem OfStack.ne_badOperand {fault : Fault} (stack : fault.OfStack) :
    fault.kind ≠ .badOperand := by
  rcases stack with kind | kind
  · rw [kind]
    nofun
  · rw [kind]
    nofun

end Fault

open Fault

/-! ## The operand stack -/

namespace Frame

variable {insn : Instruction}

theorem pop_fails (f : Frame) : FailsWith OfStack f.pop := by
  unfold pop
  split
  · exact .ok _
  · exact FailsWith.error_iff.2 (Or.inl rfl)

theorem popInt_fails (f : Frame) : FailsWith OfStack f.popInt := by
  refine FailsWith.bind_iff.2 ⟨f.pop_fails, fun popped _ => ?_⟩
  split
  · exact .pure _
  · exact FailsWith.throw_iff.2 (Or.inr rfl)

theorem popRef_fails (f : Frame) : FailsWith OfStack f.popRef := by
  refine FailsWith.bind_iff.2 ⟨f.pop_fails, fun popped _ => ?_⟩
  split
  · exact .pure _
  · exact .pure _
  · exact FailsWith.throw_iff.2 (Or.inr rfl)

theorem test_fails (f : Frame) (op : Opcode) : FailsWith OfStack (f.test op) := by
  unfold test
  split <;> simp [popInt_fails, popRef_fails]

/-- With its target in place, a control transfer fails for the operand stack only. -/
theorem branch_fails (f : Frame) {target : Nat} (operand : insn.targetOperand = .ok target) :
    FailsWith OfStack (f.branch insn) := by
  simp [branch, test_fails, operand]

variable (f : Frame)

@[simp]
theorem pop_ofInstruction : FailsWith OfInstruction f.pop :=
  f.pop_fails.mono OfStack.ofInstruction

@[simp]
theorem popInt_ofInstruction : FailsWith OfInstruction f.popInt :=
  f.popInt_fails.mono OfStack.ofInstruction

@[simp]
theorem popRef_ofInstruction : FailsWith OfInstruction f.popRef :=
  f.popRef_fails.mono OfStack.ofInstruction

@[simp]
theorem peek_fails : FailsWith OfInstruction f.peek := by
  unfold peek
  split <;> simp [OfInstruction]

@[simp]
theorem popArgs_fails (count : Nat) : FailsWith OfInstruction (f.popArgs count) := by
  simp [popArgs, OfInstruction]

@[simp]
theorem test_ofInstruction (op : Opcode) : FailsWith OfInstruction (f.test op) :=
  (f.test_fails op).mono OfStack.ofInstruction

end Frame

/-! ## Operands, variables and objects -/

namespace Instruction

@[simp]
theorem intOperand_fails (insn : Instruction) (position : Nat) :
    FailsWith OfInstruction (insn.intOperand position) := by
  unfold intOperand
  split <;> simp [OfInstruction]

@[simp]
theorem slotOperand_fails (insn : Instruction) : FailsWith OfInstruction insn.slotOperand := by
  unfold slotOperand
  split <;> simp [OfInstruction]

@[simp]
theorem targetOperand_fails (insn : Instruction) : FailsWith OfInstruction insn.targetOperand := by
  unfold targetOperand
  split <;> simp [OfInstruction]

@[simp]
theorem constantOperand_fails (insn : Instruction) :
    FailsWith OfInstruction insn.constantOperand := by
  unfold constantOperand
  split <;> simp [OfInstruction]

@[simp]
theorem fieldOperand_fails (insn : Instruction) : FailsWith OfInstruction insn.fieldOperand := by
  unfold fieldOperand
  split <;> simp [OfInstruction]

@[simp]
theorem methodOperand_fails (insn : Instruction) : FailsWith OfInstruction insn.methodOperand := by
  unfold methodOperand
  split <;> simp [OfInstruction]

@[simp]
theorem classOperand_fails (insn : Instruction) : FailsWith OfInstruction insn.classOperand := by
  unfold classOperand
  split <;> simp [OfInstruction]

@[simp]
theorem componentOperand_fails (insn : Instruction) :
    FailsWith OfInstruction insn.componentOperand := by
  unfold componentOperand
  split
  · split <;> simp [OfInstruction]
  · split <;> simp [OfInstruction]
  · simp [OfInstruction]

end Instruction

@[simp]
theorem nonNull_fails (reference : Option Nat) : FailsWith OfInstruction (nonNull reference) := by
  cases reference <;> simp [nonNull, OfInstruction]

@[simp]
theorem arrayIndex_fails (length : Nat) (index : Int32) :
    FailsWith OfInstruction (arrayIndex length index) := by
  unfold arrayIndex
  split <;> simp [OfInstruction]

@[simp]
theorem newLength_fails (count : Int32) : FailsWith OfInstruction (newLength count) := by
  unfold newLength
  split <;> simp [OfInstruction]

@[simp]
theorem BinaryOp.apply_fails (op : BinaryOp) (a b : Int32) :
    FailsWith OfInstruction (op.apply a b) := by
  cases op <;> simp only [BinaryOp.apply, FailsWith.ok]
  all_goals split <;> simp [OfInstruction]

namespace Heap

@[simp]
theorem intArray_fails (h : Heap) (index : Nat) : FailsWith OfInstruction (h.intArray index) := by
  unfold intArray
  split <;> simp [mismatch, OfInstruction]

@[simp]
theorem refArray_fails (h : Heap) (index : Nat) : FailsWith OfInstruction (h.refArray index) := by
  unfold refArray
  split <;> simp [mismatch, OfInstruction]

@[simp]
theorem arraySize_fails (h : Heap) (index : Nat) :
    FailsWith OfInstruction (h.arraySize index) := by
  unfold arraySize
  split <;> simp [mismatch, OfInstruction]

@[simp]
theorem instanceFields_fails (h : Heap) (index : Nat) :
    FailsWith OfInstruction (h.instanceFields index) := by
  unfold instanceFields
  split <;> simp [mismatch, OfInstruction]

end Heap

namespace Frame

variable (f : Frame)

@[simp]
theorem load_fails (index : Nat) : FailsWith OfInstruction (f.load index) := by
  unfold load
  split <;> simp [OfInstruction]

@[simp]
theorem store_fails (index : Nat) (value : Value) :
    FailsWith OfInstruction (f.store index value) := by
  unfold store
  split <;> simp [OfInstruction]

@[simp]
theorem checkFit_fails (ty : Ty) (value : Value) : FailsWith OfInstruction (checkFit ty value) := by
  unfold checkFit
  split <;> simp [OfInstruction]

@[simp]
theorem checkField_fails (field : MemberRef) (value : Value) :
    FailsWith OfInstruction (checkField field value) := by
  unfold checkField
  split <;> simp [OfInstruction]

theorem placeArgs_fails (slot : Nat) (types : List Ty) (values : List Value) :
    FailsWith OfInstruction (f.placeArgs slot types values) := by
  induction types generalizing f slot values with
  | nil => simp [placeArgs]
  | cons ty types ih =>
      cases values with
      | nil => simp [placeArgs]
      | cons value values =>
          simp only [placeArgs, FailsWith.bind_iff, checkFit_fails, store_fails, true_and]
          exact fun _ _ g _ => ih g (slot + ty.slots) values

theorem enter_fails (method : LoadedMethod) (receiver : Option Value) (args : List Value) :
    FailsWith OfInstruction (Frame.enter method receiver args) := by
  unfold enter
  split
  · simp [OfInstruction]
  · refine FailsWith.bind_iff.2 ⟨?_, fun placed _ => placeArgs_fails _ _ _ _⟩
    unfold placeReceiver
    split <;> simp [OfInstruction]

end Frame

/-! ## One instruction -/

namespace Frame

variable (f : Frame) (h : Heap)

@[simp]
theorem loadSlot_fails (slot : Slot) (index : Nat) :
    FailsWith OfInstruction (f.loadSlot slot index) := by
  cases slot <;> simp [loadSlot, OfInstruction]

@[simp]
theorem popSlot_fails (slot : Slot) : FailsWith OfInstruction (f.popSlot slot) := by
  cases slot <;> simp [popSlot]

@[simp]
theorem increment_fails (index : Nat) (delta : Int32) :
    FailsWith OfInstruction (f.increment index delta) := by
  refine FailsWith.bind_iff.2 ⟨f.load_fails index, fun found _ => ?_⟩
  cases found <;> simp [OfInstruction]

@[simp]
theorem arrayLoad_fails (cell : Cell) : FailsWith OfInstruction (f.arrayLoad h cell) := by
  cases cell <;> simp [arrayLoad, popElement]

@[simp]
theorem arrayStore_fails (cell : Cell) : FailsWith OfInstruction (f.arrayStore h cell) := by
  cases cell <;> simp [arrayStore, popElement]

@[simp]
theorem takeCall_fails (mode : CallMode) (target : MemberRef) :
    FailsWith OfInstruction (f.takeCall mode target) := by
  have parsed : FailsWith OfInstruction
      ((Descriptor.parse target.descriptor).mapError .badDescriptor) :=
    .mapError fun cause => by simp [OfInstruction]
  simp [takeCall, parsed]

end Frame

open ClassMachine.Frame in
/-- **No instruction finds that there is none, or that the budget is spent.** -/
theorem Instruction.execute_fails (insn : Instruction) (h : Heap) (f : Frame) :
    FailsWith OfInstruction (insn.execute h f) := by
  cases op : insn.opcode <;> simp only [execute, op]
  case invokeDynamic | multiAnewArray | athrow | instanceOf | other =>
    simp [OfInstruction]
  case pop2 | dupX1 | dupX2 | dup2 | swap | binary | unary =>
    simp [Frame.pop2, Frame.dupX1, Frame.dupX2, Frame.dup2, Frame.swap, Frame.binary, Frame.unary]
  case getField | putField => simp [Frame.getField, Frame.putField]
  case ifZero | ifInt | ifRef | ifNull | goto | gotoW => simp [branch]
  all_goals simp

end ClassMachine
