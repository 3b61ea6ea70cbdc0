import ClassMachine.Proofs.Execute

/-!
# What instructions do to their operands

An instruction takes as many values off the operand stack and puts as many on it as its
opcode says. What is below on the stack stays, and so do all local variables but the one
that a store or an increment names: `Frame.Obeys`. `Instruction.execute_within` says so of
every effect.
-/

namespace ClassMachine

variable {f g k : Frame} {h : Heap} {value : Value} {insn : Instruction} {effect : Effect}
  {taken given : Nat} {d : Descriptor} {use : StackUse} {assigned : Option Nat}

/-! ## Keeping to the use of the stack -/

namespace Instruction

/-- The descriptor of the method that a call names. -/
def signature (insn : Instruction) : Descriptor :=
  match insn.operand? 0 with
  | some (.method ref) => (Descriptor.parse ref.descriptor).toOption.getD ⟨[], .void⟩
  | _ => ⟨[], .void⟩

/-- The local variable that an instruction writes to. -/
def assigned? (insn : Instruction) : Option Nat :=
  match insn.opcode, insn.operand? 0 with
  | .store _, some (.slot index) => some index.toNat
  | .iinc, some (.slot index) => some index.toNat
  | _, _ => none

/-- What an instruction does to the operand stack of a frame. -/
def stackUse (insn : Instruction) (h : Heap) (f : Frame) : StackUse :=
  insn.opcode.stackUse (f.looksWide h insn.opcode) insn.signature

end Instruction

namespace Frame

/-- A frame keeps to the use of its stack: what is below stays, and so do its method, its
receiver and all local variables but the given one. -/
structure Obeys (f : Frame) (use : StackUse) (assigned : Option Nat) (g : Frame) : Prop where
  stack : ∃ base consumed produced, f.stack = consumed ++ base ∧ g.stack = produced ++ base ∧
    consumed.length = use.taken ∧ produced.length = use.given
  method : g.method = f.method
  receiver : g.receiver = f.receiver
  size : g.locals.size = f.locals.size
  locals : ∀ i, assigned ≠ some i → g.locals[i]? = f.locals[i]?

theorem Trades.obeys (trades : f.Trades taken given g) : f.Obeys ⟨taken, given⟩ assigned g := by
  obtain ⟨base, consumed, produced, stack, rfl, taken, given⟩ := trades
  exact ⟨⟨base, consumed, produced, stack, rfl, taken, given⟩, rfl, rfl, rfl, fun _ _ => rfl⟩

/-- Where the frame stands plays no part. -/
theorem Obeys.at (obeys : f.Obeys use assigned g) (ip : Nat) :
    f.Obeys use assigned { g with ip } :=
  ⟨obeys.stack, obeys.method, obeys.receiver, obeys.size, obeys.locals⟩

/-- What is written into a local variable changes no other one. -/
theorem Obeys.store {index : Nat} (trades : f.Trades taken given g)
    (stored : g.store index value = .ok k) : f.Obeys ⟨taken, given⟩ (some index) k := by
  obtain ⟨base, consumed, produced, stack, rfl, taken, given⟩ := trades
  obtain ⟨_, rfl⟩ := store_eq_ok.1 stored
  refine ⟨⟨base, consumed, produced, stack, rfl, taken, given⟩, rfl, rfl,
    Array.size_setIfInBounds, fun i other => ?_⟩
  have apart : index ≠ i := fun same => other (congrArg some same)
  exact Array.getElem?_setIfInBounds_ne apart

end Frame

/-! ## Whole instructions -/

/-- The effect leaves a frame that keeps to the use of its stack, as soon as the machine has
pushed the value that the instruction asks for. A return takes what it gives back. -/
def Effect.Within (f : Frame) (use : StackUse) (assigned : Option Nat) : Effect → Prop
  | .next g | .write g _ _ | .jump g _ | .touch g _ (.putStatic _ _) => f.Obeys use assigned g
  | .allocate g _ | .constant g _ | .touch g _ (.getStatic _) | .touch g _ (.new _) =>
    ∀ value, f.Obeys use assigned (g.push value)
  | .leave value => use = ⟨value.toList.length, 0⟩ ∧ ∃ base, f.stack = value.toList ++ base
  | .call g c => ∀ result : List Value, result.length = c.descriptor.returnsValue.toNat →
    f.Obeys use assigned (g.pushAll result)

namespace Instruction

open ClassMachine.Frame

variable {wide : Bool}

theorem within_of_next {work : Except Fault Frame}
    (trades : ∀ {g}, work = .ok g → f.Trades use.taken use.given g)
    (done : (do return Effect.next (← work)) = .ok effect) : effect.Within f use assigned := by
  obtain ⟨g, worked, done⟩ := bind_eq_ok.1 done
  cases done
  exact (trades worked).obeys

theorem within_of_branch (family : insn.opcode.family = .controlTransfer)
    (done : f.branch insn = .ok effect) :
    effect.Within f (insn.opcode.stackUse wide d) assigned := by
  simp only [branch, bind_eq_ok, Prod.exists] at done
  obtain ⟨jumps, g, tested, target, _, done⟩ := done
  obtain ⟨taken, trades, use⟩ := trades_test tested
  rw [use family]
  cases jumps <;> cases done <;> exact trades.obeys

theorem signature_eq {ref : MemberRef} (operand : insn.operand? 0 = some (.method ref))
    (parsed : Descriptor.parse ref.descriptor = .ok d) : insn.signature = d := by
  simp only [signature, operand, parsed]
  rfl

theorem assigned_of_slot {index : Nat}
    (opcode : (∃ slot, insn.opcode = .store slot) ∨ insn.opcode = .iinc)
    (operand : insn.slotOperand = .ok index) : insn.assigned? = some index := by
  obtain ⟨slot, there, rfl⟩ := slotOperand_eq_ok operand
  rcases opcode with ⟨kind, opcode⟩ | opcode <;> simp only [assigned?, opcode, there]

theorem within_of_takeCall {mode : CallMode} {ref : MemberRef}
    (operand : insn.operand? 0 = some (.method ref))
    (done : f.takeCall mode ref = .ok effect) :
    effect.Within f ((Opcode.invoke mode).stackUse wide insn.signature) assigned := by
  obtain ⟨g, c, rfl, parsed, _, _, count, nullary, stack, same⟩ := takeCall_eq_ok done
  rw [signature_eq operand parsed]
  intro result length
  have receiver : (c.receiver.map Value.ofReference).toList.length =
      if mode = .static then 0 else 1 := by
    by_cases static : mode = .static
    · rw [if_pos static, nullary.2 static]
      rfl
    · obtain ⟨reference, given⟩ := Option.ne_none_iff_exists'.1 (mt nullary.1 static)
      rw [if_neg static, given]
      rfl
  have results : c.descriptor.returnsValue.toNat =
      if c.descriptor.result = .void then 0 else 1 := by
    by_cases void : c.descriptor.result = .void <;> simp [Descriptor.returnsValue, void]
  have trades : f.Trades (c.descriptor.params.length + if mode = .static then 0 else 1) 0 g := by
    refine ⟨g.stack, c.args.reverse ++ (c.receiver.map Value.ofReference).toList, [], ?_, same,
      ?_, rfl⟩
    · rw [stack, List.append_assoc]
    · rw [List.length_append, List.length_reverse, count, receiver]
      rfl
  have pushed := trades.pushAll result
  rw [length, results] at pushed
  exact pushed.obeys

/-- **An instruction that is carried out keeps to the use of its stack.** -/
theorem execute_within (done : insn.execute h f = .ok effect) :
    effect.Within f (insn.stackUse h f) insn.assigned? := by
  unfold stackUse
  cases op : insn.opcode <;> simp only [execute, op] at done
  case nop =>
    cases done
    exact (Trades.refl f).obeys
  case aconstNull =>
    cases done
    exact ((Trades.refl f).push .null).obeys
  case iconst | bipush | sipush =>
    obtain ⟨number, _, done⟩ := bind_eq_ok.1 done
    cases done
    exact ((Trades.refl f).push _).obeys
  case lconst | fconst | dconst =>
    obtain ⟨number, _, done⟩ := bind_eq_ok.1 done
    cases done
    exact fun value => ((Trades.refl f).push value).obeys
  case ldc | ldcW | ldc2W =>
    obtain ⟨constant, _, done⟩ := bind_eq_ok.1 done
    cases done
    exact fun value => ((Trades.refl f).push value).obeys
  case load slot =>
    obtain ⟨index, _, done⟩ := bind_eq_ok.1 done
    exact within_of_next trades_loadSlot done
  case store slot =>
    obtain ⟨⟨value, g⟩, popped, done⟩ := bind_eq_ok.1 done
    obtain ⟨index, operand, done⟩ := bind_eq_ok.1 done
    obtain ⟨k, stored, done⟩ := bind_eq_ok.1 done
    cases done
    rw [assigned_of_slot (Or.inl ⟨slot, op⟩) operand]
    exact Obeys.store (trades_pop (pop_of_popSlot popped)) stored
  case iinc =>
    obtain ⟨index, operand, done⟩ := bind_eq_ok.1 done
    obtain ⟨delta, _, done⟩ := bind_eq_ok.1 done
    obtain ⟨g, stored, done⟩ := bind_eq_ok.1 done
    cases done
    rw [assigned_of_slot (Or.inr op) operand]
    obtain ⟨value, stored⟩ := store_of_increment stored
    exact Obeys.store (Trades.refl f) stored
  case arrayLoad cell => exact within_of_next trades_arrayLoad done
  case arrayStore cell =>
    obtain ⟨g, array, w, rfl, trades⟩ := trades_arrayStore done
    exact trades.obeys
  case arrayLength =>
    obtain ⟨⟨reference, g⟩, popped, done⟩ := bind_eq_ok.1 done
    obtain ⟨array, _, done⟩ := bind_eq_ok.1 done
    obtain ⟨length, _, done⟩ := bind_eq_ok.1 done
    cases done
    exact ((trades_popRef popped).push _).obeys
  case pop =>
    obtain ⟨⟨value, g⟩, popped, done⟩ := bind_eq_ok.1 done
    cases done
    exact (trades_pop popped).obeys
  case pop2 => exact within_of_next trades_pop2 done
  case dup =>
    obtain ⟨value, peeked, done⟩ := bind_eq_ok.1 done
    cases done
    exact ((trades_peek peeked).push value).obeys
  case dupX1 => exact within_of_next trades_dupX1 done
  case dupX2 => exact within_of_next trades_dupX2 done
  case dup2 => exact within_of_next trades_dup2 done
  case swap => exact within_of_next trades_swap done
  case binary b => exact within_of_next trades_binary done
  case unary u => exact within_of_next trades_unary done
  case ifZero | ifInt | ifRef | ifNull | goto | gotoW =>
    rw [← op]
    exact within_of_branch (by rw [op]; rfl) done
  case returnValue slot =>
    obtain ⟨⟨value, g⟩, popped, done⟩ := bind_eq_ok.1 done
    cases done
    obtain ⟨rest, stack, _⟩ := pop_eq_ok_iff.1 (pop_of_popSlot popped)
    exact ⟨rfl, rest, stack⟩
  case returnVoid =>
    cases done
    exact ⟨rfl, f.stack, rfl⟩
  case getStatic =>
    obtain ⟨field, _, done⟩ := bind_eq_ok.1 done
    cases done
    exact fun value => ((Trades.refl f).push value).obeys
  case putStatic =>
    obtain ⟨field, _, done⟩ := bind_eq_ok.1 done
    obtain ⟨⟨value, g⟩, popped, done⟩ := bind_eq_ok.1 done
    obtain ⟨_, _, done⟩ := bind_eq_ok.1 done
    cases done
    exact (trades_pop popped).obeys
  case getField =>
    obtain ⟨field, _, done⟩ := bind_eq_ok.1 done
    exact within_of_next trades_getField done
  case putField =>
    obtain ⟨field, _, done⟩ := bind_eq_ok.1 done
    obtain ⟨g, object, w, rfl, trades⟩ := trades_putField done
    exact trades.obeys
  case invoke mode =>
    obtain ⟨ref, operand, done⟩ := bind_eq_ok.1 done
    exact within_of_takeCall (methodOperand_eq_ok operand) done
  case new =>
    obtain ⟨name, _, done⟩ := bind_eq_ok.1 done
    cases done
    exact fun value => ((Trades.refl f).push value).obeys
  case newArray | anewArray =>
    obtain ⟨component, _, done⟩ := bind_eq_ok.1 done
    obtain ⟨⟨count, g⟩, popped, done⟩ := bind_eq_ok.1 done
    obtain ⟨length, _, done⟩ := bind_eq_ok.1 done
    cases done
    exact fun value => ((trades_popInt popped).push value).obeys
  case checkCast =>
    obtain ⟨value, peeked, done⟩ := bind_eq_ok.1 done
    cases done
    exact (trades_peek peeked).obeys
  case monitorEnter | monitorExit =>
    obtain ⟨⟨reference, g⟩, popped, done⟩ := bind_eq_ok.1 done
    obtain ⟨object, _, done⟩ := bind_eq_ok.1 done
    cases done
    exact (trades_popRef popped).obeys
  case invokeDynamic | multiAnewArray | athrow | instanceOf | other => cases done

end Instruction

end ClassMachine
