import ClassMachine.Machine.Effect
import ClassMachine.Proofs.Outcome

/-!
# Values on the operand stack

The stack operations of a frame take values from the top of its stack and put others there;
`Frame.Trades` says how many. Nothing else of the frame changes. `Opcode.stackUse` has the
numbers of each opcode, which for calls are in the descriptor, and for three opcodes depend
on whether the value that is looked at stands for two stack slots.
-/

namespace ClassMachine

variable {f g k : Frame} {h : Heap} {value : Value} {effect : Effect}
  {taken given taken' given' : Nat} {d : Descriptor}

/-! ## Taking values -/

namespace Frame

theorem pop_eq_ok_iff :
    f.pop = .ok (value, g) ↔ ∃ rest, f.stack = value :: rest ∧ g = { f with stack := rest } := by
  unfold pop
  cases f.stack with
  | nil => simp
  | cons top rest => simp [eq_comm]

theorem popInt_eq_ok_iff {word : Int32} :
    f.popInt = .ok (word, g) ↔ f.pop = .ok (.int word, g) := by
  rw [popInt, bind_eq_ok]
  constructor
  · rintro ⟨⟨found, rest⟩, popped, done⟩
    cases found <;> cases done
    exact popped
  · intro popped
    exact ⟨_, popped, rfl⟩

theorem popRef_eq_ok_iff {reference : Option Nat} :
    f.popRef = .ok (reference, g) ↔ f.pop = .ok (.ofReference reference, g) := by
  rw [popRef, bind_eq_ok]
  constructor
  · rintro ⟨⟨found, rest⟩, popped, done⟩
    cases found <;> cases done <;> exact popped
  · intro popped
    refine ⟨_, popped, ?_⟩
    cases reference <;> rfl

theorem pop_of_popSlot {slot : Slot} (popped : f.popSlot slot = .ok (value, g)) :
    f.pop = .ok (value, g) := by
  cases slot with
  | int =>
      obtain ⟨⟨word, rest⟩, first, done⟩ := bind_eq_ok.1 popped
      cases done
      exact popInt_eq_ok_iff.1 first
  | ref =>
      obtain ⟨⟨reference, rest⟩, first, done⟩ := bind_eq_ok.1 popped
      cases done
      exact popRef_eq_ok_iff.1 first
  | long | float | double => exact popped

/-- Arguments are taken in the order in which they were pushed. -/
theorem popArgs_eq_ok_iff {count : Nat} {args : List Value} :
    f.popArgs count = .ok (args, g) ↔
      ∃ rest, f.stack = args.reverse ++ rest ∧ args.length = count ∧
        g = { f with stack := rest } := by
  unfold popArgs
  split
  · rename_i few
    refine ⟨nofun, ?_⟩
    rintro ⟨rest, stack, count, _⟩
    have length := congrArg List.length stack
    simp only [List.length_append, List.length_reverse] at length
    omega
  · rename_i enough
    constructor
    · intro popped
      cases popped
      refine ⟨f.stack.drop count, ?_, ?_, rfl⟩
      · rw [List.reverse_reverse, List.take_append_drop]
      · rw [List.length_reverse, List.length_take]
        omega
    · rintro ⟨rest, stack, rfl, rfl⟩
      have length : args.length = args.reverse.length := List.length_reverse.symm
      rw [stack, length, List.take_left, List.drop_left, List.reverse_reverse]

/-- A call finds its arguments on top, the last one first, and below them the receiver
unless it is static. -/
theorem takeCall_eq_ok {mode : CallMode} {target : MemberRef}
    (done : f.takeCall mode target = .ok effect) :
    ∃ g c, effect = .call g c ∧ Descriptor.parse target.descriptor = .ok c.descriptor ∧
      c.mode = mode ∧ c.key = .of target.owner target.name target.descriptor ∧
      c.args.length = c.descriptor.argCount ∧ (c.receiver = none ↔ mode = .static) ∧
      f.stack = c.args.reverse ++ ((c.receiver.map Value.ofReference).toList ++ g.stack) ∧
      g = { f with stack := g.stack } := by
  obtain ⟨descriptor, parsed, done⟩ := bind_eq_ok.1 done
  obtain ⟨⟨args, f₁⟩, popped, done⟩ := bind_eq_ok.1 done
  have parsed : Descriptor.parse target.descriptor = .ok descriptor := by
    cases found : Descriptor.parse target.descriptor with
    | error flaw =>
        rw [found] at parsed
        cases parsed
    | ok d =>
        rw [found] at parsed
        cases parsed
        rfl
  obtain ⟨rest, stack, count, rfl⟩ := popArgs_eq_ok_iff.1 popped
  dsimp only at done
  split at done
  · rename_i static
    cases done
    exact ⟨_, _, rfl, parsed, rfl, rfl, count, by simp [static], stack, rfl⟩
  · rename_i object
    obtain ⟨⟨receiver, f₂⟩, received, done⟩ := bind_eq_ok.1 done
    obtain ⟨rest', below, rfl⟩ := pop_eq_ok_iff.1 (popRef_eq_ok_iff.1 received)
    cases done
    dsimp only at below
    exact ⟨_, _, rfl, parsed, rfl, rfl, count, by simp [object], by rw [stack, below]; rfl, rfl⟩

end Frame

/-! ## Trading values -/

namespace Frame

/-- The frame with values on its stack in the place of others: so many are taken from the
top and so many put there. -/
def Trades (f : Frame) (taken given : Nat) (g : Frame) : Prop :=
  ∃ base consumed produced, f.stack = consumed ++ base ∧
    g = { f with stack := produced ++ base } ∧
    consumed.length = taken ∧ produced.length = given

theorem Trades.refl (f : Frame) : f.Trades 0 0 f :=
  ⟨f.stack, [], [], rfl, rfl, rfl, rfl⟩

theorem Trades.push (trades : f.Trades taken given g) (value : Value) :
    f.Trades taken (given + 1) (g.push value) := by
  obtain ⟨base, consumed, produced, stack, rfl, rfl, rfl⟩ := trades
  exact ⟨base, consumed, value :: produced, stack, rfl, rfl, rfl⟩

theorem Trades.pushAll (trades : f.Trades taken 0 g) (values : List Value) :
    f.Trades taken values.length (g.pushAll values) := by
  obtain ⟨base, consumed, produced, stack, rfl, rfl, none⟩ := trades
  obtain rfl := List.eq_nil_of_length_eq_zero none
  exact ⟨base, consumed, values.reverse, stack, rfl, rfl, List.length_reverse⟩

/-- First values are taken, then others in their place. -/
theorem Trades.trans (first : f.Trades taken 0 g) (second : g.Trades taken' given k) :
    f.Trades (taken + taken') given k := by
  obtain ⟨base, consumed, produced, stack, rfl, rfl, none⟩ := first
  obtain rfl := List.eq_nil_of_length_eq_zero none
  obtain ⟨base', consumed', produced', stack', rfl, rfl, rfl⟩ := second
  dsimp only [List.nil_append] at stack'
  refine ⟨base', consumed ++ consumed', produced', ?_, rfl, List.length_append, rfl⟩
  rw [stack, stack', List.append_assoc]

theorem trades_pop (popped : f.pop = .ok (value, g)) : f.Trades 1 0 g := by
  obtain ⟨rest, stack, rfl⟩ := pop_eq_ok_iff.1 popped
  exact ⟨rest, [value], [], stack, rfl, rfl, rfl⟩

theorem trades_popInt {word : Int32} (popped : f.popInt = .ok (word, g)) : f.Trades 1 0 g :=
  trades_pop (popInt_eq_ok_iff.1 popped)

theorem trades_popRef {reference : Option Nat} (popped : f.popRef = .ok (reference, g)) :
    f.Trades 1 0 g :=
  trades_pop (popRef_eq_ok_iff.1 popped)

/-- A value that is only looked at counts as taken and put back. -/
theorem trades_peek (peeked : f.peek = .ok value) : f.Trades 1 1 f := by
  unfold peek at peeked
  split at peeked
  · rename_i top rest stack
    refine ⟨rest, [top], [top], stack, ?_, rfl, rfl⟩
    rw [List.singleton_append, ← stack]
  · cases peeked

theorem trades_popElement {array : Nat} {index : Int32}
    (popped : f.popElement = .ok (array, index, g)) : f.Trades 2 0 g := by
  simp only [popElement, bind_eq_ok, Prod.exists] at popped
  obtain ⟨_, f₁, first, _, f₂, second, _, _, popped⟩ := popped
  cases popped
  exact (trades_popInt first).trans (trades_popRef second)

theorem trades_loadSlot {slot : Slot} {index : Nat} (loaded : f.loadSlot slot index = .ok g) :
    f.Trades 0 1 g := by
  simp only [loadSlot, bind_eq_ok] at loaded
  obtain ⟨value, _, loaded⟩ := loaded
  have pushed : g = f.push value := by
    cases slot <;> cases value <;> cases loaded <;> rfl
  rw [pushed]
  exact (Trades.refl f).push value

theorem trades_arrayLoad {cell : Cell} (loaded : f.arrayLoad h cell = .ok g) :
    f.Trades 2 1 g := by
  unfold arrayLoad at loaded
  split at loaded
  all_goals
    simp only [bind_eq_ok, Prod.exists] at loaded
    obtain ⟨_, _, f₁, popped, _, _, _, _, _, loaded⟩ := loaded
    cases loaded
    exact (trades_popElement popped).push _

theorem trades_arrayStore {cell : Cell} (stored : f.arrayStore h cell = .ok effect) :
    ∃ g array w, effect = .write g array w ∧ f.Trades 3 0 g := by
  unfold arrayStore at stored
  split at stored
  · simp only [bind_eq_ok, Prod.exists] at stored
    obtain ⟨_, f₁, first, _, _, f₂, second, _, _, _, _, _, stored⟩ := stored
    cases stored
    exact ⟨_, _, _, rfl, (trades_popRef first).trans (trades_popElement second)⟩
  · simp only [bind_eq_ok, Prod.exists] at stored
    obtain ⟨_, f₁, first, _, _, f₂, second, _, _, _, _, _, stored⟩ := stored
    cases stored
    exact ⟨_, _, _, rfl, (trades_popInt first).trans (trades_popElement second)⟩

theorem trades_dupX1 (done : f.dupX1 = .ok g) : f.Trades 2 3 g := by
  simp only [dupX1, bind_eq_ok, Prod.exists] at done
  obtain ⟨v₁, f₁, first, v₂, f₂, second, done⟩ := done
  cases done
  exact ((trades_pop first).trans (trades_pop second)).pushAll [v₁, v₂, v₁]

theorem trades_swap (done : f.swap = .ok g) : f.Trades 2 2 g := by
  simp only [swap, bind_eq_ok, Prod.exists] at done
  obtain ⟨v₁, f₁, first, v₂, f₂, second, done⟩ := done
  cases done
  exact ((trades_pop first).trans (trades_pop second)).pushAll [v₁, v₂]

theorem trades_binary {op : BinaryOp} (done : f.binary op = .ok g) : f.Trades 2 1 g := by
  simp only [binary, bind_eq_ok, Prod.exists] at done
  obtain ⟨b, f₁, first, a, f₂, second, result, _, done⟩ := done
  cases done
  exact ((trades_popInt first).trans (trades_popInt second)).push _

theorem trades_unary {op : UnaryOp} (done : f.unary op = .ok g) : f.Trades 1 1 g := by
  simp only [unary, bind_eq_ok, Prod.exists] at done
  obtain ⟨a, f₁, first, done⟩ := done
  cases done
  exact (trades_popInt first).push _

theorem trades_getField {field : MemberRef} (done : f.getField h field = .ok g) :
    f.Trades 1 1 g := by
  simp only [getField, bind_eq_ok, Prod.exists] at done
  obtain ⟨_, f₁, popped, _, _, _, _, _, done⟩ := done
  cases done
  exact (trades_popRef popped).push _

theorem trades_putField {field : MemberRef} (done : f.putField h field = .ok effect) :
    ∃ g object w, effect = .write g object w ∧ f.Trades 2 0 g := by
  simp only [putField, bind_eq_ok, Prod.exists] at done
  obtain ⟨_, f₁, first, _, _, _, f₂, second, _, _, _, _, _, done⟩ := done
  cases done
  exact ⟨_, _, _, rfl, (trades_pop first).trans (trades_popRef second)⟩

end Frame

/-! ## Numbers of values -/

/-- How many values are taken off the operand stack, and how many are put on it. -/
structure StackUse where
  taken : Nat
  given : Nat
deriving DecidableEq

/-- What an opcode does to the operand stack. For the opcodes that look at a value before
they go on, `wide` says whether it stands for two slots; calls go by the descriptor of
the method. -/
def Opcode.stackUse (op : Opcode) (wide : Bool) (signature : Descriptor) : StackUse :=
  match op with
  | .nop | .iinc | .goto | .gotoW | .returnVoid => ⟨0, 0⟩
  | .aconstNull | .iconst | .lconst | .fconst | .dconst | .bipush | .sipush | .ldc | .ldcW
  | .ldc2W | .load _ | .getStatic | .new => ⟨0, 1⟩
  | .store _ | .pop | .ifZero _ | .ifNull _ | .returnValue _ | .putStatic | .monitorEnter
  | .monitorExit => ⟨1, 0⟩
  | .unary _ | .arrayLength | .getField | .newArray | .anewArray | .checkCast => ⟨1, 1⟩
  | .dup => ⟨1, 2⟩
  | .ifInt _ | .ifRef _ | .putField => ⟨2, 0⟩
  | .binary _ | .arrayLoad _ => ⟨2, 1⟩
  | .swap => ⟨2, 2⟩
  | .dupX1 => ⟨2, 3⟩
  | .arrayStore _ => ⟨3, 0⟩
  | .pop2 => ⟨if wide then 1 else 2, 0⟩
  | .dup2 => ⟨if wide then 1 else 2, if wide then 2 else 4⟩
  | .dupX2 => ⟨if wide then 2 else 3, if wide then 3 else 4⟩
  | .invoke mode =>
    ⟨signature.params.length + (if mode = .static then 0 else 1),
      if signature.result = .void then 0 else 1⟩
  -- These are not supported, and come to nothing.
  | .invokeDynamic | .multiAnewArray | .athrow | .instanceOf | .other _ => ⟨0, 0⟩

/-- The value that an opcode looks at to find out how many values it works on. -/
def Frame.inspected? (f : Frame) : Opcode → Option Value
  | .pop2 | .dup2 => f.stack[0]?
  | .dupX2 => f.stack[1]?
  | _ => none

/-- Whether the value that an opcode looks at stands for two stack slots. -/
def Frame.looksWide (f : Frame) (h : Heap) (op : Opcode) : Bool :=
  (f.inspected? op).any h.isWide

/-! ## Opcodes that look first -/

namespace Frame

/-- A test takes what the conditional jump asks for. -/
theorem trades_test {op : Opcode} {jumps : Bool} (tested : f.test op = .ok (jumps, g)) :
    ∃ taken, f.Trades taken 0 g ∧
      (op.family = .controlTransfer → ∀ wide d, op.stackUse wide d = ⟨taken, 0⟩) := by
  unfold test at tested
  split at tested
  · obtain ⟨⟨a, f₁⟩, first, tested⟩ := bind_eq_ok.1 tested
    cases tested
    exact ⟨1, trades_popInt first, fun _ _ _ => rfl⟩
  · obtain ⟨⟨b, f₁⟩, first, tested⟩ := bind_eq_ok.1 tested
    obtain ⟨⟨a, f₂⟩, second, tested⟩ := bind_eq_ok.1 tested
    cases tested
    exact ⟨2, (trades_popInt first).trans (trades_popInt second), fun _ _ _ => rfl⟩
  · obtain ⟨⟨b, f₁⟩, first, tested⟩ := bind_eq_ok.1 tested
    obtain ⟨⟨a, f₂⟩, second, tested⟩ := bind_eq_ok.1 tested
    cases tested
    exact ⟨2, (trades_popRef first).trans (trades_popRef second), fun _ _ _ => rfl⟩
  · obtain ⟨⟨a, f₁⟩, first, tested⟩ := bind_eq_ok.1 tested
    cases tested
    exact ⟨1, trades_popRef first, fun _ _ _ => rfl⟩
  · rename_i noZero noInt noRef noNull
    cases tested
    refine ⟨0, .refl f, fun family _ _ => ?_⟩
    cases op with
    | ifZero test => exact (noZero test rfl).elim
    | ifInt test => exact (noInt test rfl).elim
    | ifRef equal => exact (noRef equal rfl).elim
    | ifNull null => exact (noNull null rfl).elim
    | goto | gotoW => rfl
    | _ => cases family

theorem trades_pop2 (done : f.pop2 h = .ok g) :
    f.Trades (if f.looksWide h .pop2 then 1 else 2) 0 g := by
  simp only [pop2, bind_eq_ok, Prod.exists] at done
  obtain ⟨top, f₁, first, done⟩ := done
  obtain ⟨rest, stack, _⟩ := pop_eq_ok_iff.1 first
  have wide : f.looksWide h .pop2 = h.isWide top := by
    rw [looksWide, inspected?, stack]
    rfl
  rw [wide]
  split at done
  · rename_i wide
    cases done
    rw [if_pos wide]
    exact trades_pop first
  · rename_i narrow
    simp only [bind_eq_ok, Prod.exists] at done
    obtain ⟨_, f₂, second, done⟩ := done
    cases done
    rw [if_neg narrow]
    exact (trades_pop first).trans (trades_pop second)

theorem trades_dup2 (done : f.dup2 h = .ok g) :
    f.Trades (if f.looksWide h .dup2 then 1 else 2) (if f.looksWide h .dup2 then 2 else 4) g := by
  simp only [dup2, bind_eq_ok, Prod.exists] at done
  obtain ⟨v₁, f₁, first, done⟩ := done
  obtain ⟨rest, stack, _⟩ := pop_eq_ok_iff.1 first
  have wide : f.looksWide h .dup2 = h.isWide v₁ := by
    rw [looksWide, inspected?, stack]
    rfl
  rw [wide]
  split at done
  · rename_i wide
    cases done
    rw [if_pos wide, if_pos wide]
    exact (trades_pop first).pushAll [v₁, v₁]
  · rename_i narrow
    simp only [bind_eq_ok, Prod.exists] at done
    obtain ⟨v₂, f₂, second, done⟩ := done
    cases done
    rw [if_neg narrow, if_neg narrow]
    exact ((trades_pop first).trans (trades_pop second)).pushAll [v₂, v₁, v₂, v₁]

theorem trades_dupX2 (done : f.dupX2 h = .ok g) :
    f.Trades (if f.looksWide h .dupX2 then 2 else 3) (if f.looksWide h .dupX2 then 3 else 4)
      g := by
  simp only [dupX2, bind_eq_ok, Prod.exists] at done
  obtain ⟨v₁, f₁, first, v₂, f₂, second, done⟩ := done
  obtain ⟨rest, stack, rfl⟩ := pop_eq_ok_iff.1 first
  obtain ⟨rest', below, _⟩ := pop_eq_ok_iff.1 second
  dsimp only at below
  have wide : f.looksWide h .dupX2 = h.isWide v₂ := by
    rw [looksWide, inspected?, stack, below]
    rfl
  rw [wide]
  have trades := (trades_pop first).trans (trades_pop second)
  split at done
  · rename_i wide
    cases done
    rw [if_pos wide, if_pos wide]
    exact trades.pushAll [v₁, v₂, v₁]
  · rename_i narrow
    simp only [bind_eq_ok, Prod.exists] at done
    obtain ⟨v₃, f₃, third, done⟩ := done
    cases done
    rw [if_neg narrow, if_neg narrow]
    exact (trades.trans (trades_pop third)).pushAll [v₁, v₃, v₂, v₁]

end Frame

end ClassMachine
