import ClassMachine.Proofs.Stack

/-!
# What an instruction comes to

One instruction works on the operand stack and the local variables of its
frame. The method, the place in it, the receiver and the number of local
variables stay: the frames before and behind it are `Frame.Alike`.

`Instruction.execute_effects` is the inversion of `Instruction.execute`. It says
for each effect what the opcode and the operands of the instruction must be:
only control transfers jump, and only to their own operand; only a static field
access or `NEW` uses a class, and only the class of its operand; only a call
instruction calls, and only the method of its operand.
-/

namespace ClassMachine

/-! ## Frames at one instruction -/

/-- One call at one instruction, perhaps with other operands and variables. -/
structure Frame.Alike (f g : Frame) : Prop where
  method : g.method = f.method
  ip : g.ip = f.ip
  receiver : g.receiver = f.receiver
  size : g.locals.size = f.locals.size

namespace Frame

variable {f g k : Frame} {h : Heap}

theorem Alike.refl (f : Frame) : f.Alike f :=
  ⟨rfl, rfl, rfl, rfl⟩

theorem Alike.trans (left : f.Alike g) (right : g.Alike k) : f.Alike k :=
  ⟨right.method.trans left.method, right.ip.trans left.ip,
    right.receiver.trans left.receiver, right.size.trans left.size⟩

theorem alike_push (f : Frame) (value : Value) : f.Alike (f.push value) :=
  ⟨rfl, rfl, rfl, rfl⟩

theorem Trades.alike {taken given : Nat} (trades : f.Trades taken given g) : f.Alike g := by
  obtain ⟨_, _, _, _, rfl, _⟩ := trades
  exact ⟨rfl, rfl, rfl, rfl⟩

/-! ## Local variables -/

theorem store_eq_ok {index : Nat} {value : Value} :
    f.store index value = .ok g ↔ index < f.locals.size ∧
      g = { f with locals := f.locals.setIfInBounds index (some value) } := by
  unfold store
  split
  · rename_i inside
    simp [inside, eq_comm]
  · rename_i outside
    simp [outside]

theorem alike_of_store {index : Nat} {value : Value} (stored : f.store index value = .ok g) :
    f.Alike g := by
  obtain ⟨_, rfl⟩ := store_eq_ok.1 stored
  exact ⟨rfl, rfl, rfl, Array.size_setIfInBounds⟩

theorem checkFit_eq_ok {ty : Ty} {value : Value} {checked : Unit} :
    checkFit ty value = .ok checked ↔ value.fits ty = true := by
  unfold checkFit
  split
  · rename_i fits
    simp [fits]
  · rename_i misfit
    simp [misfit]

theorem store_of_increment {index : Nat} {delta : Int32}
    (done : f.increment index delta = .ok g) : ∃ value, f.store index value = .ok g := by
  obtain ⟨found, _, done⟩ := bind_eq_ok.1 done
  cases found with
  | int current => exact ⟨_, done⟩
  | ref index => cases done
  | null => cases done

/-! ## Jumps and calls -/

/-- A jump needs its target whether it is taken or not. -/
theorem branch_cases {insn : Instruction} {effect : Effect}
    (done : f.branch insn = .ok effect) :
    ∃ g target, f.Alike g ∧ insn.targetOperand = .ok target ∧
      (effect = .jump g target ∨ effect = .next g) := by
  simp only [branch, bind_eq_ok, Prod.exists] at done
  obtain ⟨taken, g, tested, target, operand, done⟩ := done
  obtain ⟨_, trades, _⟩ := trades_test tested
  refine ⟨g, target, trades.alike, operand, ?_⟩
  cases taken with
  | true =>
      cases done
      exact Or.inl rfl
  | false =>
      cases done
      exact Or.inr rfl

theorem takeCall_call {mode : CallMode} {target : MemberRef} {effect : Effect}
    (done : f.takeCall mode target = .ok effect) :
    ∃ g c, effect = .call g c ∧ f.Alike g ∧ c.mode = mode ∧
      c.key = .of target.owner target.name target.descriptor := by
  obtain ⟨g, c, rfl, _, mode, key, _, _, _, same⟩ := takeCall_eq_ok done
  refine ⟨g, c, rfl, ?_, mode, key⟩
  rw [same]
  exact ⟨rfl, rfl, rfl, rfl⟩

end Frame

/-! ## The operands behind an effect -/

namespace Instruction

/-- The class that an instruction makes ready for use, as it is spelled there. A
static call spells it in canonical form. -/
def touched? (insn : Instruction) : Option String :=
  match insn.opcode, insn.operand? 0 with
  | .getStatic, some (.field ref) => some ref.owner
  | .putStatic, some (.field ref) => some ref.owner
  | .new, some (.classRef name) => some name
  | .invoke .static, some (.method ref) => some (canonicalName ref.owner)
  | _, _ => none

/-- The loaded method that a static or special call names. -/
def called? (insn : Instruction) : Option MethodKey :=
  match insn.opcode, insn.operand? 0 with
  | .invoke .static, some (.method ref) => some (.of ref.owner ref.name ref.descriptor)
  | .invoke .special, some (.method ref) => some (.of ref.owner ref.name ref.descriptor)
  | _, _ => none

/-- The instruction returns with that result: with a value if its opcode takes one. -/
def Returns (insn : Instruction) (result : Option Value) : Prop :=
  insn.opcode = .returnVoid ∧ result = none ∨
    ∃ slot value, insn.opcode = .returnValue slot ∧ result = some value

/-- What an instruction can come to in a frame. -/
inductive Effects (insn : Instruction) (f : Frame) : Effect → Prop
  | next {g : Frame} : f.Alike g → Effects insn f (.next g)
  | allocate {g : Frame} {object : HeapObject} : f.Alike g → Effects insn f (.allocate g object)
  | constant {g : Frame} {value : Constant} : f.Alike g → Effects insn f (.constant g value)
  | write {g : Frame} {object : Nat} {w : Write} : f.Alike g → Effects insn f (.write g object w)
  | jump {g : Frame} {target : Nat} :
    f.Alike g → insn.opcode.family = .controlTransfer → insn.targetOperand = .ok target →
    Effects insn f (.jump g target)
  | leave {result : Option Value} : insn.Returns result → Effects insn f (.leave result)
  | touch {g : Frame} {name : String} {use : ClassUse} :
    f.Alike g → insn.touched? = some name → Effects insn f (.touch g name use)
  | call {g : Frame} {c : Call} {ref : MemberRef} :
    f.Alike g → insn.opcode = .invoke c.mode → insn.operand? 0 = some (.method ref) →
    c.key = .of ref.owner ref.name ref.descriptor → Effects insn f (.call g c)

theorem fieldOperand_eq_ok {insn : Instruction} {ref : MemberRef}
    (found : insn.fieldOperand = .ok ref) : insn.operand? 0 = some (.field ref) := by
  unfold fieldOperand at found
  split at found
  · cases found
    assumption
  · cases found

theorem methodOperand_eq_ok {insn : Instruction} {ref : MemberRef}
    (found : insn.methodOperand = .ok ref) : insn.operand? 0 = some (.method ref) := by
  unfold methodOperand at found
  split at found
  · cases found
    assumption
  · cases found

theorem slotOperand_eq_ok {insn : Instruction} {index : Nat}
    (found : insn.slotOperand = .ok index) :
    ∃ slot : UInt16, insn.operand? 0 = some (.slot slot) ∧ index = slot.toNat := by
  unfold slotOperand at found
  split at found
  · rename_i slot operand
    cases found
    exact ⟨slot, operand, rfl⟩
  · cases found

theorem classOperand_eq_ok {insn : Instruction} {name : String}
    (found : insn.classOperand = .ok name) : insn.operand? 0 = some (.classRef name) := by
  unfold classOperand at found
  split at found
  · cases found
    assumption
  · cases found

section Inversion

open ClassMachine.Frame

variable {insn : Instruction} {h : Heap} {f : Frame} {effect : Effect}

/-- An instruction whose work is all on its frame. -/
theorem effects_of_next {work : Except Fault Frame} (alike : ∀ {g}, work = .ok g → f.Alike g)
    (done : (do return Effect.next (← work)) = .ok effect) : insn.Effects f effect := by
  obtain ⟨g, worked, done⟩ := bind_eq_ok.1 done
  cases done
  exact .next (alike worked)

theorem effects_of_trades {work : Except Fault Frame} {taken given : Nat}
    (trades : ∀ {g}, work = .ok g → f.Trades taken given g)
    (done : (do return Effect.next (← work)) = .ok effect) : insn.Effects f effect :=
  effects_of_next (fun worked => (trades worked).alike) done

/-- An instruction that pushes a number of its own as an object. -/
theorem effects_of_allocate {number : Except Fault Int32} {object : Int32 → HeapObject}
    (done : (do return Effect.allocate f (object (← number))) = .ok effect) :
    insn.Effects f effect := by
  obtain ⟨value, _, done⟩ := bind_eq_ok.1 done
  cases done
  exact .allocate (.refl f)

theorem effects_of_push {number : Except Fault Int32}
    (done : (do return Effect.next (f.push (.int (← number)))) = .ok effect) :
    insn.Effects f effect := by
  obtain ⟨value, _, done⟩ := bind_eq_ok.1 done
  cases done
  exact .next (alike_push f _)

theorem effects_of_branch (family : insn.opcode.family = .controlTransfer)
    (done : f.branch insn = .ok effect) : insn.Effects f effect := by
  obtain ⟨g, target, alike, operand, rfl | rfl⟩ := branch_cases done
  · exact .jump alike family operand
  · exact .next alike

/-- An instruction that is carried out has one of the effects of its opcode. -/
theorem execute_effects (done : insn.execute h f = .ok effect) : insn.Effects f effect := by
  -- What an operand is plays no part, so it is dropped where it is read.
  cases op : insn.opcode <;> simp only [execute, op] at done
  case nop =>
    cases done
    exact .next (.refl f)
  case aconstNull =>
    cases done
    exact .next (alike_push f .null)
  case iconst | bipush | sipush => exact effects_of_push done
  case lconst | fconst | dconst => exact effects_of_allocate done
  case ldc | ldcW | ldc2W =>
    obtain ⟨value, _, done⟩ := bind_eq_ok.1 done
    cases done
    exact .constant (.refl f)
  case load slot =>
    obtain ⟨index, _, done⟩ := bind_eq_ok.1 done
    exact effects_of_trades trades_loadSlot done
  case store slot =>
    obtain ⟨⟨value, g⟩, popped, done⟩ := bind_eq_ok.1 done
    obtain ⟨index, _, done⟩ := bind_eq_ok.1 done
    have alike := (trades_pop (pop_of_popSlot popped)).alike
    exact effects_of_next (fun stored => alike.trans (alike_of_store stored)) done
  case iinc =>
    obtain ⟨index, _, done⟩ := bind_eq_ok.1 done
    obtain ⟨delta, _, done⟩ := bind_eq_ok.1 done
    refine effects_of_next (fun stored => ?_) done
    obtain ⟨value, stored⟩ := store_of_increment stored
    exact alike_of_store stored
  case arrayLoad cell => exact effects_of_trades trades_arrayLoad done
  case arrayStore cell =>
    obtain ⟨g, array, w, rfl, trades⟩ := trades_arrayStore done
    exact .write trades.alike
  case arrayLength =>
    obtain ⟨⟨reference, g⟩, popped, done⟩ := bind_eq_ok.1 done
    obtain ⟨array, _, done⟩ := bind_eq_ok.1 done
    obtain ⟨length, _, done⟩ := bind_eq_ok.1 done
    cases done
    exact .next ((trades_popRef popped).push _).alike
  case pop =>
    obtain ⟨⟨value, g⟩, popped, done⟩ := bind_eq_ok.1 done
    cases done
    exact .next (trades_pop popped).alike
  case pop2 => exact effects_of_trades trades_pop2 done
  case dup =>
    obtain ⟨value, _, done⟩ := bind_eq_ok.1 done
    cases done
    exact .next (alike_push f value)
  case dupX1 => exact effects_of_trades trades_dupX1 done
  case dupX2 => exact effects_of_trades trades_dupX2 done
  case dup2 => exact effects_of_trades trades_dup2 done
  case swap => exact effects_of_trades trades_swap done
  case binary b => exact effects_of_trades trades_binary done
  case unary u => exact effects_of_trades trades_unary done
  case ifZero | ifInt | ifRef | ifNull | goto | gotoW =>
    exact effects_of_branch (by rw [op]; rfl) done
  case returnValue slot =>
    obtain ⟨⟨value, g⟩, _, done⟩ := bind_eq_ok.1 done
    cases done
    exact .leave (Or.inr ⟨slot, value, op, rfl⟩)
  case returnVoid =>
    cases done
    exact .leave (Or.inl ⟨op, rfl⟩)
  case getStatic =>
    obtain ⟨field, operand, done⟩ := bind_eq_ok.1 done
    cases done
    refine .touch (.refl f) ?_
    rw [touched?, op, fieldOperand_eq_ok operand]
  case putStatic =>
    obtain ⟨field, operand, done⟩ := bind_eq_ok.1 done
    obtain ⟨⟨value, g⟩, popped, done⟩ := bind_eq_ok.1 done
    obtain ⟨_, _, done⟩ := bind_eq_ok.1 done
    cases done
    refine .touch (trades_pop popped).alike ?_
    rw [touched?, op, fieldOperand_eq_ok operand]
  case getField =>
    obtain ⟨field, _, done⟩ := bind_eq_ok.1 done
    exact effects_of_trades trades_getField done
  case putField =>
    obtain ⟨field, _, done⟩ := bind_eq_ok.1 done
    obtain ⟨g, object, w, rfl, trades⟩ := trades_putField done
    exact .write trades.alike
  case invoke mode =>
    obtain ⟨ref, operand, done⟩ := bind_eq_ok.1 done
    obtain ⟨g, c, rfl, alike, rfl, key⟩ := takeCall_call done
    exact .call alike op (methodOperand_eq_ok operand) key
  case new =>
    obtain ⟨name, operand, done⟩ := bind_eq_ok.1 done
    cases done
    refine .touch (.refl f) ?_
    rw [touched?, op, classOperand_eq_ok operand]
  case newArray | anewArray =>
    obtain ⟨component, _, done⟩ := bind_eq_ok.1 done
    obtain ⟨⟨count, g⟩, popped, done⟩ := bind_eq_ok.1 done
    obtain ⟨length, _, done⟩ := bind_eq_ok.1 done
    cases done
    exact .allocate (trades_popInt popped).alike
  case checkCast =>
    obtain ⟨_, _, done⟩ := bind_eq_ok.1 done
    cases done
    exact .next (.refl f)
  case monitorEnter | monitorExit =>
    obtain ⟨⟨reference, g⟩, popped, done⟩ := bind_eq_ok.1 done
    obtain ⟨_, _, done⟩ := bind_eq_ok.1 done
    cases done
    exact .next (trades_popRef popped).alike
  case invokeDynamic | multiAnewArray | athrow | instanceOf | other => cases done

/-! ## Control transfers -/

/-- The opcodes that jump are those of the control-transfer family. -/
theorem execute_eq_branch (family : insn.opcode.family = .controlTransfer) :
    insn.execute h f = f.branch insn := by
  cases op : insn.opcode
  case ifZero | ifInt | ifRef | ifNull | goto | gotoW => simp only [execute, op]
  all_goals
    rw [op] at family
    cases family

/-! ## Calls -/

/-- A call instruction takes the operands of the method that it names. -/
theorem takeCall_of_execute {mode : CallMode} (opcode : insn.opcode = .invoke mode)
    (done : insn.execute h f = .ok effect) :
    ∃ ref, insn.operand? 0 = some (.method ref) ∧ f.takeCall mode ref = .ok effect := by
  simp only [execute, opcode] at done
  obtain ⟨ref, operand, done⟩ := bind_eq_ok.1 done
  exact ⟨ref, methodOperand_eq_ok operand, done⟩

end Inversion

end Instruction

end ClassMachine
