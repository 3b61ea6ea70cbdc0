import ClassMachine.Proofs.Settle

/-!
# Values and slots

On the operand stack every value takes one place, a long or double one as a reference to
the object that holds it. The opcodes that rearrange the stack are defined on a stack of
slots, where such a value takes two, and they move slots whatever is in them.

* `Heap.expand`: the stack of slots that a stack of values stands for.
* `Shuffle.onSlots`: the opcodes on slots. They cut the stack at fixed places, and
  `Shuffle.Unsplit` says that no value is cut in two.
* `Shuffle.Form`: what a stack of values then has on top (`Shuffle.form_of_unsplit`).
* `Machine.perform_expands`: on a stack of values each opcode does what it does on slots.
-/

namespace ClassMachine

variable {ω : Type} {h : Heap} {stack : List Value}

/-! ## Slots -/

/-- A slot holds a value, or one half of a long or double value. -/
inductive StackSlot where
  | whole (value : Value)
  | upper (value : Value)
  | lower (value : Value)
deriving DecidableEq

namespace Heap

/-- The slots of a value, the topmost first: two for a reference to a long or double
object, otherwise one. -/
def slots (h : Heap) (value : Value) : List StackSlot :=
  match h.deref? value with
  | some (.long _) | some (.double _) => [.upper value, .lower value]
  | _ => [.whole value]

/-- The slots of all values of a stack. -/
def expand (h : Heap) (stack : List Value) : List StackSlot :=
  stack.flatMap h.slots

theorem expand_cons (h : Heap) (value : Value) (stack : List Value) :
    h.expand (value :: stack) = h.slots value ++ h.expand stack :=
  List.flatMap_cons

/-- The machine tells the values of two slots from the others. -/
theorem slots_eq (h : Heap) (value : Value) :
    h.slots value = if h.isWide value then [.upper value, .lower value] else [.whole value] := by
  unfold slots isWide
  cases h.deref? value with
  | none => rfl
  | some object => cases object <;> rfl

theorem expand_wide {value : Value} (wide : h.isWide value = true) (stack : List Value) :
    h.expand (value :: stack) = .upper value :: .lower value :: h.expand stack := by
  rw [expand_cons, slots_eq, if_pos wide]
  rfl

theorem expand_narrow {value : Value} (narrow : h.isWide value = false) (stack : List Value) :
    h.expand (value :: stack) = .whole value :: h.expand stack := by
  rw [expand_cons, slots_eq, narrow]
  rfl

end Heap

/-! ## Opcodes on slots -/

/-- The opcodes that rearrange the operand stack. -/
inductive Shuffle where
  | pop
  | pop2
  | dup
  | dupX1
  | dupX2
  | dup2
  | swap
deriving DecidableEq

namespace Shuffle

def opcode : Shuffle → Opcode
  | .pop => .pop
  | .pop2 => .pop2
  | .dup => .dup
  | .dupX1 => .dupX1
  | .dupX2 => .dupX2
  | .dup2 => .dup2
  | .swap => .swap

/-- The stack after an opcode, if it is high enough. The top comes first. -/
def onSlots {α : Type} : Shuffle → List α → Option (List α)
  | .pop, _ :: rest => some rest
  | .pop2, _ :: _ :: rest => some rest
  | .dup, a :: rest => some (a :: a :: rest)
  | .dupX1, a :: b :: rest => some (a :: b :: a :: rest)
  | .dupX2, a :: b :: c :: rest => some (a :: b :: c :: a :: rest)
  | .dup2, a :: b :: rest => some (a :: b :: a :: b :: rest)
  | .swap, a :: b :: rest => some (b :: a :: rest)
  | _, _ => none

/-- Where an opcode cuts the stack: the numbers of slots above each cut. What stands
between two cuts is moved, copied or dropped in one piece. -/
def cuts : Shuffle → List Nat
  | .pop | .dup => [1]
  | .pop2 | .dup2 => [2]
  | .dupX1 | .swap => [1, 2]
  | .dupX2 => [1, 3]

/-- No cut of an opcode runs between the two halves of a value. -/
def Unsplit (op : Shuffle) (slots : List StackSlot) : Prop :=
  ∀ k ∈ op.cuts, ∀ value, slots[k]? ≠ some (.lower value)

/-- The forms of the opcodes: what is on top of a stack of values, one of whose values is
cut by none of them. -/
inductive Form (h : Heap) : Shuffle → List Value → Prop
  | pop {a : Value} {rest : List Value} : h.isWide a = false → Form h .pop (a :: rest)
  | pop2 {a b : Value} {rest : List Value} :
    h.isWide a = false → h.isWide b = false → Form h .pop2 (a :: b :: rest)
  | pop2Wide {a : Value} {rest : List Value} : h.isWide a = true → Form h .pop2 (a :: rest)
  | dup {a : Value} {rest : List Value} : h.isWide a = false → Form h .dup (a :: rest)
  | dupX1 {a b : Value} {rest : List Value} :
    h.isWide a = false → h.isWide b = false → Form h .dupX1 (a :: b :: rest)
  | dupX2 {a b c : Value} {rest : List Value} :
    h.isWide a = false → h.isWide b = false → h.isWide c = false →
    Form h .dupX2 (a :: b :: c :: rest)
  | dupX2Wide {a b : Value} {rest : List Value} :
    h.isWide a = false → h.isWide b = true → Form h .dupX2 (a :: b :: rest)
  | dup2 {a b : Value} {rest : List Value} :
    h.isWide a = false → h.isWide b = false → Form h .dup2 (a :: b :: rest)
  | dup2Wide {a : Value} {rest : List Value} : h.isWide a = true → Form h .dup2 (a :: rest)
  | swap {a b : Value} {rest : List Value} :
    h.isWide a = false → h.isWide b = false → Form h .swap (a :: b :: rest)

end Shuffle

/-! ## Cuts -/

/-- The stack of slots reaches down to a cut, which runs through no value. -/
def CutAt (k : Nat) (slots : List StackSlot) : Prop :=
  k ≤ slots.length ∧ ∀ value, slots[k]? ≠ some (.lower value)

namespace CutAt

variable {k : Nat} {value : Value}

/-- Below a value of one slot a cut is higher by one. -/
theorem of_narrow (narrow : h.isWide value = false)
    (cut : CutAt (k + 1) (h.expand (value :: stack))) : CutAt k (h.expand stack) := by
  rw [Heap.expand_narrow narrow] at cut
  exact ⟨Nat.le_of_succ_le_succ cut.1, cut.2⟩

/-- Above a cut under one slot stands a value of one slot. -/
theorem one (cut : CutAt 1 (h.expand stack)) :
    ∃ a rest, stack = a :: rest ∧ h.isWide a = false := by
  cases stack with
  | nil => exact (Nat.not_succ_le_zero 0 cut.1).elim
  | cons a rest =>
      refine ⟨a, rest, rfl, ?_⟩
      cases wide : h.isWide a with
      | false => rfl
      | true =>
          rw [Heap.expand_wide wide] at cut
          exact (cut.2 a rfl).elim

/-- Above a cut under two slots stand one value of two slots or two values of one. -/
theorem two (cut : CutAt 2 (h.expand stack)) :
    (∃ a rest, stack = a :: rest ∧ h.isWide a = true) ∨
      ∃ a b rest, stack = a :: b :: rest ∧ h.isWide a = false ∧ h.isWide b = false := by
  cases stack with
  | nil => exact (Nat.not_succ_le_zero 1 cut.1).elim
  | cons a rest =>
      cases wide : h.isWide a with
      | true => exact Or.inl ⟨a, rest, rfl, wide⟩
      | false =>
          obtain ⟨b, rest, rfl, narrow⟩ := (cut.of_narrow wide).one
          exact Or.inr ⟨a, b, rest, rfl, wide, narrow⟩

end CutAt

namespace Shuffle

variable {op : Shuffle} {slots slots' : List StackSlot}

/-- An opcode that applies reaches down to all its cuts. -/
theorem le_of_onSlots (applies : op.onSlots slots = some slots') :
    ∀ k ∈ op.cuts, k ≤ slots.length := by
  unfold onSlots at applies
  split at applies
  case h_8 => cases applies
  all_goals simp [cuts]

/-- **An opcode that splits no value finds one of its forms.** -/
theorem form_of_unsplit (applies : op.onSlots (h.expand stack) = some slots')
    (unsplit : op.Unsplit (h.expand stack)) : op.Form h stack := by
  have cut : ∀ k ∈ op.cuts, CutAt k (h.expand stack) := fun k member =>
    ⟨le_of_onSlots applies k member, unsplit k member⟩
  -- A cut between values tells how wide those above it are.
  cases op with
  | pop =>
      obtain ⟨a, rest, rfl, narrow⟩ := (cut 1 (by decide)).one
      exact .pop narrow
  | pop2 =>
      rcases (cut 2 (by decide)).two with
        ⟨a, rest, rfl, wide⟩ | ⟨a, b, rest, rfl, first, second⟩
      · exact .pop2Wide wide
      · exact .pop2 first second
  | dup =>
      obtain ⟨a, rest, rfl, narrow⟩ := (cut 1 (by decide)).one
      exact .dup narrow
  | dupX1 =>
      obtain ⟨a, rest, rfl, first⟩ := (cut 1 (by decide)).one
      obtain ⟨b, rest, rfl, second⟩ := ((cut 2 (by decide)).of_narrow first).one
      exact .dupX1 first second
  | dupX2 =>
      obtain ⟨a, rest, rfl, first⟩ := (cut 1 (by decide)).one
      rcases ((cut 3 (by decide)).of_narrow first).two with
        ⟨b, rest, rfl, wide⟩ | ⟨b, c, rest, rfl, second, third⟩
      · exact .dupX2Wide first wide
      · exact .dupX2 first second third
  | dup2 =>
      rcases (cut 2 (by decide)).two with
        ⟨a, rest, rfl, wide⟩ | ⟨a, b, rest, rfl, first, second⟩
      · exact .dup2Wide wide
      · exact .dup2 first second
  | swap =>
      obtain ⟨a, rest, rfl, first⟩ := (cut 1 (by decide)).one
      obtain ⟨b, rest, rfl, second⟩ := ((cut 2 (by decide)).of_narrow first).one
      exact .swap first second

end Shuffle

/-! ## Opcodes on values -/

namespace Shuffle

variable {op : Shuffle} {f : Frame} {insn : Instruction}

/-- In each of its forms an opcode does on values what it does on slots. -/
theorem Form.execute (form : op.Form h f.stack) (opcode : insn.opcode = op.opcode) :
    ∃ stack, insn.execute h f = .ok (.next { f with stack }) ∧
      op.onSlots (h.expand f.stack) = some (h.expand stack) := by
  obtain ⟨locals, stack, ip, method, receiver⟩ := f
  dsimp only at form ⊢
  unfold Instruction.execute
  rw [opcode]
  cases form with
  | @pop a rest narrow =>
      refine ⟨rest, rfl, ?_⟩
      rw [Heap.expand_narrow narrow]
      rfl
  | @pop2 a b rest first second =>
      refine ⟨rest, ?_, ?_⟩
      · simp [Shuffle.opcode, Frame.pop2, Frame.pop, first, bind, Except.bind, pure, Except.pure]
      · rw [Heap.expand_narrow first, Heap.expand_narrow second]
        rfl
  | @pop2Wide a rest wide =>
      refine ⟨rest, ?_, ?_⟩
      · simp [Shuffle.opcode, Frame.pop2, Frame.pop, wide, bind, Except.bind, pure, Except.pure]
      · rw [Heap.expand_wide wide]
        rfl
  | @dup a rest narrow =>
      refine ⟨a :: a :: rest, rfl, ?_⟩
      rw [Heap.expand_narrow narrow, Heap.expand_narrow narrow, Heap.expand_narrow narrow]
      rfl
  | @dupX1 a b rest first second =>
      refine ⟨a :: b :: a :: rest, rfl, ?_⟩
      simp only [Heap.expand_narrow first, Heap.expand_narrow second]
      rfl
  | @dupX2 a b c rest first second third =>
      refine ⟨a :: b :: c :: a :: rest, ?_, ?_⟩
      · simp [Shuffle.opcode, Frame.dupX2, Frame.pop, Frame.pushAll, second, bind, Except.bind,
          pure, Except.pure]
      · simp only [Heap.expand_narrow first, Heap.expand_narrow second, Heap.expand_narrow third]
        rfl
  | @dupX2Wide a b rest first wide =>
      refine ⟨a :: b :: a :: rest, ?_, ?_⟩
      · simp [Shuffle.opcode, Frame.dupX2, Frame.pop, Frame.pushAll, wide, bind, Except.bind,
          pure, Except.pure]
      · simp only [Heap.expand_narrow first, Heap.expand_wide wide]
        rfl
  | @dup2 a b rest first second =>
      refine ⟨a :: b :: a :: b :: rest, ?_, ?_⟩
      · simp [Shuffle.opcode, Frame.dup2, Frame.pop, Frame.pushAll, first, bind, Except.bind,
          pure, Except.pure]
      · simp only [Heap.expand_narrow first, Heap.expand_narrow second]
        rfl
  | @dup2Wide a rest wide =>
      refine ⟨a :: a :: rest, ?_, ?_⟩
      · simp [Shuffle.opcode, Frame.dup2, Frame.pop, Frame.pushAll, wide, bind, Except.bind,
          pure, Except.pure]
      · simp only [Heap.expand_wide wide]
        rfl
  | @swap a b rest first second =>
      refine ⟨b :: a :: rest, rfl, ?_⟩
      simp only [Heap.expand_narrow first, Heap.expand_narrow second]
      rfl

end Shuffle

/-! ## The machine -/

namespace Machine

/-- **The stack of values stands for the stack of slots.** If an opcode applies to the
expanded stack and splits no value there, the machine carries it out: the frame goes on to
the next instruction, nothing but its stack has changed, and the expansion of that is what
the opcode makes of the slots. -/
theorem perform_expands (m : Machine ω) (f : Frame) (link : Link) (insn : Instruction)
    (method : LoadedMethod) (index : Nat) {op : Shuffle} {slots : List StackSlot}
    (opcode : insn.opcode = op.opcode)
    (applies : op.onSlots (m.heap.expand f.stack) = some slots)
    (unsplit : op.Unsplit (m.heap.expand f.stack)) :
    ∃ stack, m.perform f link insn method index
        = .running m { f with stack, ip := f.ip + 1 } link ∧
      m.heap.expand stack = slots := by
  have form : op.Form m.heap f.stack := Shuffle.form_of_unsplit applies unsplit
  obtain ⟨stack, done, result⟩ := form.execute opcode
  refine ⟨stack, ?_, ?_⟩
  · rw [perform, done]
    rfl
  · rw [applies] at result
    exact (Option.some.inj result).symm

end Machine

/-- A method that puts a word below a long value. -/
def tuckCode : MethodCode where
  name := "tuck"
  descriptor := "()V"
  flags := .ofList [.accStatic]
  maxStack := 5
  maxLocals := 0
  argsSize := 0
  instructions :=
    [⟨0, .ldc2W, [.constant (.long 5)], none⟩, ⟨3, .bipush, [.int 7], none⟩,
      ⟨5, .dupX2, [], none⟩, ⟨6, .returnVoid, [], none⟩]

/-- Both halves of the long value stay together above the copy of the word. -/
theorem tucked_expands :
    ∃ (table : ClassTable) (m : Machine Unit) (f : Frame) (insn : Instruction) (long : Value),
      ClassTable.load [⟨"Tuck", rootClass, [tuckCode]⟩] = .ok table ∧
      ((Machine.create table {} ()).start "Tuck" "tuck" "()V" []).run 2 = .running m f .host ∧
      f.insn? = some insn ∧ insn.opcode = .dupX2 ∧
      m.heap.expand f.stack = [.whole (.int 7), .upper long, .lower long] ∧
      Shuffle.dupX2.Unsplit (m.heap.expand f.stack) ∧
      ∃ stack, m.perform f .host insn f.method f.ip
          = .running m { f with stack, ip := f.ip + 1 } .host ∧
        m.heap.expand stack
          = [.whole (.int 7), .upper long, .lower long, .whole (.int 7)] := by
  obtain ⟨table, m, f, loaded, there, current, slots⟩ :
      ∃ table m f, ClassTable.load [⟨"Tuck", rootClass, [tuckCode]⟩] = .ok table ∧
        ((Machine.create table {} ()).start "Tuck" "tuck" "()V" []).run 2 = .running m f .host ∧
        f.insn? = some ⟨5, .dupX2, [], none⟩ ∧
        m.heap.expand f.stack = [.whole (.int 7), .upper (.ref 0), .lower (.ref 0)] :=
    ⟨_, _, _, rfl, rfl, rfl, rfl⟩
  have unsplit : Shuffle.dupX2.Unsplit (m.heap.expand f.stack) := by
    rw [slots]
    intro k cut value
    rcases List.mem_pair.1 cut with rfl | rfl <;> exact nofun
  have applies : Shuffle.dupX2.onSlots (m.heap.expand f.stack)
      = some [.whole (.int 7), .upper (.ref 0), .lower (.ref 0), .whole (.int 7)] := by
    rw [slots]
    rfl
  exact ⟨table, m, f, _, .ref 0, loaded, there, current, rfl, slots, unsplit,
    m.perform_expands f .host ⟨5, .dupX2, [], none⟩ f.method f.ip rfl applies unsplit⟩

end ClassMachine
