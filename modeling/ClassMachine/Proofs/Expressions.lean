import ClassMachine.Proofs.ExactArithmetic
import ClassMachine.Proofs.Operands
import ClassMachine.Proofs.Readiness

/-!
# Integer expressions

The code of an expression over integers is that of its parts in postorder. It computes the
value that the expression has by exact arithmetic on integers, each operator reduced to 32
bits, and leaves it on the stack; nothing else changes. Where a divisor comes to zero, the
program ends at the first such operator.

* `IntExpr.value` is the value, `IntExpr.postorder` the order of evaluation, and
  `StandAt` says where the code stands.
* `Progress.run_expression`: the run of an expression without a zero divisor, by induction
  on the expression.
* `Progress.ends_expression`: the end of a run at the first zero divisor.
-/

namespace ClassMachine

variable {ω : Type} {m m' : Machine ω} {f g : Frame} {link : Link} {insn : Instruction}
  {h : Heap} {k : Nat}

/-! ## Expressions -/

/-- The instructions that push a number of their own. -/
inductive Immediate where
  | iconst
  | bipush
  | sipush

def Immediate.opcode : Immediate → Opcode
  | .iconst => .iconst
  | .bipush => .bipush
  | .sipush => .sipush

/-- An expression over integers. -/
inductive IntExpr where
  | literal (form : Immediate) (value : Int32)
  | var (slot : UInt16)
  | unary (op : UnaryOp) (operand : IntExpr)
  | binary (op : BinaryOp) (left right : IntExpr)

namespace IntExpr

/-- The opcode of the instruction that completes an expression. -/
def opcode : IntExpr → Opcode
  | .literal form _ => form.opcode
  | .var _ => .load .int
  | .unary op _ => .unary op
  | .binary op _ _ => .binary op

/-- The operand of the instruction that completes an expression, if it needs one. -/
def operand? : IntExpr → Option Operand
  | .literal _ value => some (.int value)
  | .var slot => some (.slot slot)
  | .unary _ _ | .binary _ _ _ => none

/-- The expression and its parts, in the order in which they are completed. -/
def postorder : IntExpr → List IntExpr
  | .literal form value => [.literal form value]
  | .var slot => [.var slot]
  | .unary op operand => operand.postorder ++ [.unary op operand]
  | .binary op left right => left.postorder ++ (right.postorder ++ [.binary op left right])

/-- The value of an expression by exact arithmetic, with each operator reduced to 32 bits. -/
def value (env : Nat → Int) : IntExpr → Int
  | .literal _ value => value.toInt
  | .var slot => env slot.toNat
  | .unary op operand => op.exact (operand.value env)
  | .binary op left right => wrap (op.exact (left.value env) (right.value env))

/-- The expression is a division whose divisor comes to zero. -/
def DividesByZero (env : Nat → Int) : IntExpr → Prop
  | .binary op _ right => op.divides = true ∧ right.value env = 0
  | _ => False

end IntExpr

/-- The instructions that complete the expressions stand one behind the other from an index
on. -/
def StandAt (insns : List Instruction) (index : Nat) (nodes : List IntExpr) : Prop :=
  ∀ k node, nodes[k]? = some node → ∃ insn, insns[index + k]? = some insn ∧
    insn.opcode = node.opcode ∧ ∀ operand ∈ node.operand?, insn.operand? 0 = some operand

/-- At a position stands the first division by zero. -/
def FirstZeroDivision (env : Nat → Int) (nodes : List IntExpr) (k : Nat) : Prop :=
  (∃ node, nodes[k]? = some node ∧ node.DividesByZero env) ∧
    ∀ j < k, ∀ node, nodes[j]? = some node → ¬ node.DividesByZero env

/-- The word in a local variable, as an integer. -/
def Frame.wordAt (f : Frame) (slot : Nat) : Int :=
  match f.locals[slot]? with
  | some (some (.int word)) => word.toInt
  | _ => 0

/-- The variables of the expressions hold words. -/
def Frame.HoldsWords (f : Frame) (nodes : List IntExpr) : Prop :=
  ∀ slot, .var slot ∈ nodes → ∃ word, f.locals[slot.toNat]? = some (some (.int word))

/-- The frame behind the code of an expression, whose value is on the stack. -/
def Frame.computed (f : Frame) (length : Nat) (word : Int32) : Frame :=
  { f with ip := f.ip + length, stack := .int word :: f.stack }

namespace Machine

/-- The machine with so many more instructions counted. -/
def ahead (m : Machine ω) (count : Nat) : Machine ω :=
  { m with profile := { m.profile with executed := m.profile.executed + count } }

/-- The budget allows so many more instructions. -/
def Affords (m : Machine ω) (count : Nat) : Prop :=
  ∀ limit, m.limits.budget = some limit → m.profile.executed + count ≤ limit

/-- The frame is where the code of the expressions starts, it holds what they need, and there
is budget for all of it. -/
structure Ready (m : Machine ω) (f : Frame) (nodes : List IntExpr) : Prop where
  stands : StandAt f.method.code.instructions f.ip nodes
  words : f.HoldsWords nodes
  affords : m.Affords nodes.length

theorem Affords.ahead {n k : Nat} (affords : m.Affords (n + k)) : (m.ahead n).Affords k := by
  intro limit limited
  have enough := affords limit limited
  rw [← Nat.add_assoc] at enough
  exact enough

theorem Affords.le {n k : Nat} (affords : m.Affords n) (le : k ≤ n) : m.Affords k := by
  intro limit limited
  have enough := affords limit limited
  omega

theorem Affords.not_spent (affords : m.Affords 1) : ¬ m.Spent := by
  rintro ⟨limit, limited, reached⟩
  have enough := affords limit limited
  omega

end Machine

/-! ## Code in parts -/

section Parts

variable {insns : List Instruction} {index : Nat} {first rest nodes : List IntExpr}
  {env : Nat → Int}

theorem StandAt.left (stands : StandAt insns index (first ++ rest)) :
    StandAt insns index first := by
  intro k node there
  obtain ⟨inside, _⟩ := List.getElem?_eq_some_iff.1 there
  exact stands k node (by rw [List.getElem?_append_left inside, there])

theorem StandAt.right (stands : StandAt insns index (first ++ rest)) :
    StandAt insns (index + first.length) rest := by
  intro k node there
  rw [Nat.add_assoc]
  refine stands (first.length + k) node ?_
  rw [List.getElem?_append_right (Nat.le_add_right _ _), Nat.add_sub_cancel_left, there]

theorem Machine.Ready.left (ready : m.Ready f (first ++ rest)) : m.Ready f first := by
  refine ⟨ready.stands.left, fun slot member => ready.words slot ?_, ready.affords.le ?_⟩
  · exact List.mem_append_left _ member
  · rw [List.length_append]
    exact Nat.le_add_right _ _

/-- Behind the first part everything is there for the rest. -/
theorem Machine.Ready.right (ready : m.Ready f (first ++ rest)) (word : Int32) :
    (m.ahead first.length).Ready (f.computed first.length word) rest := by
  refine ⟨ready.stands.right, fun slot member => ready.words slot ?_, ?_⟩
  · exact List.mem_append_right _ member
  · have affords := ready.affords
    rw [List.length_append] at affords
    exact affords.ahead

/-- The first division by zero is in the first part, or the first part is without one. -/
theorem FirstZeroDivision.cases (zero : FirstZeroDivision env (first ++ rest) k) :
    FirstZeroDivision env first k ∨
      (∀ node ∈ first, ¬ node.DividesByZero env) ∧
        ∃ j, k = first.length + j ∧ FirstZeroDivision env rest j := by
  obtain ⟨⟨node, there, divides⟩, earlier⟩ := zero
  by_cases inside : k < first.length
  · refine Or.inl ⟨⟨node, ?_, divides⟩, fun j before other found => ?_⟩
    · rwa [List.getElem?_append_left inside] at there
    · exact earlier j before other (by rw [List.getElem?_append_left (by omega), found])
  · refine Or.inr ⟨fun other member => ?_, k - first.length, by omega, ⟨node, ?_, divides⟩,
      fun j before other found => ?_⟩
    · obtain ⟨j, bound, rfl⟩ := List.mem_iff_getElem.1 member
      refine earlier j (by omega) _ ?_
      rw [List.getElem?_append_left bound, List.getElem?_eq_getElem bound]
    · rwa [List.getElem?_append_right (by omega)] at there
    · refine earlier (first.length + j) (by omega) other ?_
      rw [List.getElem?_append_right (by omega), Nat.add_sub_cancel_left, found]

theorem FirstZeroDivision.singleton {node : IntExpr} (zero : FirstZeroDivision env [node] k) :
    k = 0 ∧ node.DividesByZero env := by
  obtain ⟨⟨found, there, divides⟩, _⟩ := zero
  obtain ⟨inside, rfl⟩ := List.getElem?_eq_some_iff.1 there
  obtain rfl : k = 0 := Nat.lt_one_iff.1 inside
  exact ⟨rfl, divides⟩

theorem exists_firstZeroDivision (zero : ∃ node ∈ nodes, node.DividesByZero env) :
    ∃ k, FirstZeroDivision env nodes k := by
  induction nodes with
  | nil =>
      obtain ⟨_, member, _⟩ := zero
      cases member
  | cons head tail ih =>
      by_cases here : head.DividesByZero env
      · exact ⟨0, ⟨head, rfl, here⟩, fun _ before => (Nat.not_lt_zero _ before).elim⟩
      · obtain ⟨node, member, divides⟩ := zero
        have later : ∃ node ∈ tail, node.DividesByZero env := by
          rcases List.mem_cons.1 member with rfl | member
          · exact (here divides).elim
          · exact ⟨node, member, divides⟩
        obtain ⟨k, there, earlier⟩ := ih later
        refine ⟨k + 1, there, fun j before node found => ?_⟩
        cases j with
        | zero =>
            cases found
            exact here
        | succ j => exact earlier j (Nat.lt_of_succ_lt_succ before) node found

end Parts

/-! ## Single instructions -/

namespace Instruction

theorem execute_immediate {form : Immediate} {value : Int32} (opcode : insn.opcode = form.opcode)
    (operand : insn.operand? 0 = some (.int value)) :
    insn.execute h f = .ok (.next (f.push (.int value))) := by
  have number : insn.intOperand 0 = .ok value := by
    rw [intOperand, operand]
  cases form <;> rw [execute, opcode, Immediate.opcode, number] <;> rfl

theorem execute_load {slot : UInt16} {word : Int32} (opcode : insn.opcode = .load .int)
    (operand : insn.operand? 0 = some (.slot slot))
    (there : f.locals[slot.toNat]? = some (some (.int word))) :
    insn.execute h f = .ok (.next (f.push (.int word))) := by
  have index : insn.slotOperand = .ok slot.toNat := by
    rw [slotOperand, operand]
  have loaded : f.load slot.toNat = .ok (.int word) := by
    rw [Frame.load, there]
  rw [execute, opcode, index]
  show (do return Effect.next (← f.loadSlot .int slot.toNat)) = _
  rw [Frame.loadSlot, loaded]
  rfl

theorem execute_unary {op : UnaryOp} (a : Int32) (below : List Value)
    (opcode : insn.opcode = .unary op) (stack : f.stack = .int a :: below) :
    insn.execute h f = .ok (.next { f with stack := .int (op.apply a) :: below }) := by
  have popped : f.popInt = .ok (a, { f with stack := below }) :=
    Frame.popInt_eq_ok_iff.2 (Frame.pop_eq_ok_iff.2 ⟨below, stack, rfl⟩)
  have worked : f.unary op = .ok { f with stack := .int (op.apply a) :: below } := by
    unfold Frame.unary
    rw [popped]
    rfl
  rw [execute, opcode]
  show (do return Effect.next (← f.unary op)) = _
  rw [worked]
  rfl

/-- The right operand is on top. -/
theorem execute_binary {op : BinaryOp} (a b : Int32) (below : List Value)
    (opcode : insn.opcode = .binary op) (stack : f.stack = .int b :: .int a :: below) :
    insn.execute h f =
      (op.apply a b).map fun word => .next { f with stack := .int word :: below } := by
  have right : f.popInt = .ok (b, { f with stack := .int a :: below }) :=
    Frame.popInt_eq_ok_iff.2 (Frame.pop_eq_ok_iff.2 ⟨_, stack, rfl⟩)
  have worked : f.binary op =
      (op.apply a b).map fun word => { f with stack := .int word :: below } := by
    unfold Frame.binary
    rw [right]
    show (do return { f with stack := .int (← op.apply a b) :: below }) = _
    cases op.apply a b <;> rfl
  rw [execute, opcode]
  show (do return Effect.next (← f.binary op)) = _
  rw [worked]
  cases op.apply a b <;> rfl

end Instruction

/-! ## Runs -/

theorem Frame.wordAt_eq {slot : Nat} {word : Int32}
    (there : f.locals[slot]? = some (some (.int word))) : f.wordAt slot = word.toInt := by
  rw [wordAt, there]

namespace Progress

/-- The step that completes an expression whose parts have been completed. -/
theorem run_last {n : Nat} {p : Progress ω} {node : IntExpr} (run : p.run n = .running m g link)
    (ready : m.Ready g [node]) :
    ∃ insn : Instruction, insn.opcode = node.opcode ∧
      (∀ operand ∈ node.operand?, insn.operand? 0 = some operand) ∧
      p.run (n + 1) = m.counted.perform g link insn g.method g.ip := by
  obtain ⟨insn, current, opcode, operand⟩ := ready.stands 0 node rfl
  refine ⟨insn, opcode, operand, ?_⟩
  rw [run_succ_last, run]
  exact Machine.step_of_not_spent current ready.affords.not_spent

/-- **Code computes the value of its expression**, if no divisor comes to zero. -/
theorem run_expression (e : IntExpr) {m : Machine ω} {f : Frame} (link : Link)
    (ready : m.Ready f e.postorder)
    (defined : ∀ node ∈ e.postorder, ¬ node.DividesByZero f.wordAt) :
    ∃ word : Int32, word.toInt = e.value f.wordAt ∧
      (running m f link).run e.postorder.length =
        .running (m.ahead e.postorder.length) (f.computed e.postorder.length word) link := by
  -- The right operand runs in the frame and on the machine behind the left one.
  induction e generalizing m f with
  | literal form value =>
      obtain ⟨insn, opcode, operand, step⟩ := run_last (p := running m f link) (n := 0) rfl ready
      refine ⟨value, rfl, step.trans ?_⟩
      rw [Machine.perform, Instruction.execute_immediate opcode (operand _ rfl)]
      rfl
  | var slot =>
      obtain ⟨insn, opcode, operand, step⟩ := run_last (p := running m f link) (n := 0) rfl ready
      obtain ⟨word, there⟩ := ready.words slot (List.mem_singleton.2 rfl)
      refine ⟨word, (Frame.wordAt_eq there).symm, step.trans ?_⟩
      rw [Machine.perform, Instruction.execute_load opcode (operand _ rfl) there]
      rfl
  | unary op operand ih =>
      rw [IntExpr.postorder] at ready defined ⊢
      obtain ⟨a, value, run⟩ := ih ready.left
        fun node member => defined node (List.mem_append_left _ member)
      obtain ⟨insn, opcode, _, step⟩ := run_last run (ready.right a)
      refine ⟨op.apply a, ?_, ?_⟩
      · rw [op.apply_exact, value]
        rfl
      · rw [List.length_append, List.length_singleton, step, Machine.perform,
          Instruction.execute_unary a f.stack opcode rfl]
        rfl
  | binary op left right ihLeft ihRight =>
      rw [IntExpr.postorder] at ready defined ⊢
      obtain ⟨definedLeft, definedRest⟩ := List.forall_mem_append.1 defined
      obtain ⟨definedRight, definedLast⟩ := List.forall_mem_append.1 definedRest
      obtain ⟨a, valueA, runA⟩ := ihLeft ready.left definedLeft
      obtain ⟨b, valueB, runB⟩ := ihRight (ready.right a).left definedRight
      rw [← runA, ← run_add] at runB
      obtain ⟨insn, opcode, _, step⟩ := run_last runB ((ready.right a).right b)
      have nonzero : op.divides = true → b.toInt ≠ 0 := by
        intro divides zero
        refine definedLast _ (List.mem_singleton.2 rfl) ⟨divides, ?_⟩
        exact valueB.symm.trans zero
      obtain ⟨word, applied, value⟩ := BinaryOp.apply_exact (a := a) nonzero
      rw [valueA, valueB] at value
      refine ⟨word, value, ?_⟩
      rw [List.length_append, List.length_append, List.length_singleton, ← Nat.add_assoc, step,
        Machine.perform, Instruction.execute_binary a b f.stack opcode rfl, applied]
      show Progress.running _ _ link = _
      simp only [Machine.counted, Machine.ahead, Frame.computed, Frame.advance, Nat.add_assoc]

/-- The program ends in a division by zero, at that instruction of the method. -/
def EndsInDivision (p : Progress ω) (method : LoadedMethod) (index : Nat) : Prop :=
  ∃ m e, p.Ends m (.error e) ∧ e.fault.kind = .arithmetic ∧
    e.location = some (Location.of method index)

theorem EndsInDivision.of_run {p q : Progress ω} {n index : Nat} {method : LoadedMethod}
    (run : p.run n = q) (ends : q.EndsInDivision method index) :
    p.EndsInDivision method index := by
  obtain ⟨m, e, ⟨n', ended⟩, kind, location⟩ := ends
  refine ⟨m, e, ⟨n + n', ?_⟩, kind, location⟩
  rw [run_add, run, ended]

/-- **Code ends the program at the first division by zero of its expression.** -/
theorem ends_expression (e : IntExpr) {m : Machine ω} {f : Frame} {k : Nat} (link : Link)
    (ready : m.Ready f e.postorder) (zero : FirstZeroDivision f.wordAt e.postorder k) :
    (running m f link).EndsInDivision f.method (f.ip + k) := by
  induction e generalizing m f k with
  | literal form value => exact zero.singleton.2.elim
  | var slot => exact zero.singleton.2.elim
  | unary op operand ih =>
      rcases zero.cases with inside | ⟨_, _, _, last⟩
      · exact ih ready.left inside
      · exact last.singleton.2.elim
  | binary op left right ihLeft ihRight =>
      rw [IntExpr.postorder] at ready zero
      rcases zero.cases with inLeft | ⟨definedLeft, j, rfl, rest⟩
      · exact ihLeft ready.left inLeft
      obtain ⟨a, _, runA⟩ := run_expression left link ready.left definedLeft
      rcases rest.cases with inRight | ⟨definedRight, i, rfl, last⟩
      · have ends := ihRight (ready.right a).left inRight
        rw [← Nat.add_assoc]
        exact ends.of_run runA
      · obtain ⟨rfl, divides, divisor⟩ := last.singleton
        obtain ⟨b, valueB, runB⟩ := run_expression right link (ready.right a).left definedRight
        rw [← runA, ← run_add] at runB
        obtain ⟨insn, opcode, _, step⟩ := run_last runB ((ready.right a).right b)
        have fault := BinaryOp.apply_zero (a := a) divides (valueB.trans divisor)
        rw [Machine.perform, Instruction.execute_binary a b f.stack opcode rfl, fault] at step
        obtain ⟨m', ends, _⟩ := Machine.failAt_eq _ _ _ link .divisionByZero
        refine ⟨m', _, ⟨_, step.trans ends⟩, rfl, ?_⟩
        rw [Nat.add_zero, ← Nat.add_assoc]
        rfl

/-- **Integer code computes exact arithmetic on 32 bits.** The code of an expression
stands where a frame is, the variables of the expression hold words, and the budget allows
to run it. If no divisor comes to zero, the run comes to the end of the code with the value
of the expression on the stack, and nothing else has changed; otherwise the program ends in
a division by zero, at the first operator in postorder whose divisor comes to zero. -/
theorem computes_expression (e : IntExpr) {m : Machine ω} {f : Frame} (link : Link)
    (ready : m.Ready f e.postorder) :
    ((∀ node ∈ e.postorder, ¬ node.DividesByZero f.wordAt) →
      ∃ word : Int32, word.toInt = e.value f.wordAt ∧
        (running m f link).run e.postorder.length =
          .running (m.ahead e.postorder.length) (f.computed e.postorder.length word) link) ∧
    ((∃ node ∈ e.postorder, node.DividesByZero f.wordAt) →
      ∃ k, FirstZeroDivision f.wordAt e.postorder k ∧
        (running m f link).EndsInDivision f.method (f.ip + k)) := by
  refine ⟨run_expression e link ready, fun zero => ?_⟩
  obtain ⟨k, first⟩ := exists_firstZeroDivision zero
  exact ⟨k, first, ends_expression e link ready first⟩

end Progress

/-! ## A quotient -/

/-- The quotient of 100 less a variable by another variable. -/
def quotientExpr : IntExpr :=
  .binary .div (.binary .sub (.literal .bipush 100) (.var 0)) (.var 1)

/-- The code of the quotient, and a return of its value. -/
def quotientCode : MethodCode where
  name := "run"
  descriptor := "(II)I"
  flags := .ofList [.accStatic]
  maxStack := 2
  maxLocals := 2
  argsSize := 2
  instructions :=
    [⟨0, .bipush, [.int 100], none⟩, ⟨2, .load .int, [.slot 0], none⟩,
      ⟨3, .binary .sub, [], none⟩, ⟨4, .load .int, [.slot 1], none⟩,
      ⟨5, .binary .div, [], none⟩, ⟨6, .returnValue .int, [], none⟩]

/-- A call of the method is ready to run the quotient of its arguments. -/
theorem quotient_ready (a b : Int32) :
    ∃ (table : ClassTable) (m : Machine Unit) (f : Frame),
      ClassTable.load [⟨"Quotient", rootClass, [quotientCode]⟩] = .ok table ∧
      (Machine.create table {} ()).start "Quotient" "run" "(II)I" [.int a, .int b] =
        .running m f .host ∧
      m.Ready f quotientExpr.postorder ∧ f.wordAt 0 = a.toInt ∧ f.wordAt 1 = b.toInt := by
  obtain ⟨table, m, f, loaded, started, code, ip, locals, unlimited⟩ :
      ∃ (table : ClassTable) (m : Machine Unit) (f : Frame),
        ClassTable.load [⟨"Quotient", rootClass, [quotientCode]⟩] = .ok table ∧
        (Machine.create table {} ()).start "Quotient" "run" "(II)I" [.int a, .int b] =
          .running m f .host ∧
        f.method.code = quotientCode ∧ f.ip = 0 ∧
        f.locals = #[some (.int a), some (.int b)] ∧ m.limits.budget = none :=
    ⟨_, _, _, rfl, rfl, rfl, rfl, rfl, rfl⟩
  refine ⟨table, m, f, loaded, started, ⟨?_, ?_, ?_⟩, ?_, ?_⟩
  · intro k node there
    rw [code, ip]
    rcases k with _ | _ | _ | _ | _ | k <;> cases there <;>
      refine ⟨_, rfl, rfl, fun operand needed => ?_⟩ <;> cases needed <;> rfl
  · intro slot member
    have which : slot = 0 ∨ slot = 1 := by
      simpa [quotientExpr, IntExpr.postorder] using member
    rw [locals]
    rcases which with rfl | rfl
    · exact ⟨a, rfl⟩
    · exact ⟨b, rfl⟩
  · intro limit limited
    rw [unlimited] at limited
    cases limited
  · rw [Frame.wordAt, locals]
    rfl
  · rw [Frame.wordAt, locals]
    rfl

/-- Only the last instruction of the quotient divides. -/
theorem quotient_division {env : Nat → Int} {node : IntExpr} {k : Nat}
    (there : quotientExpr.postorder[k]? = some node) (zero : node.DividesByZero env) :
    k = 4 ∧ env 1 = 0 := by
  rcases k with _ | _ | _ | _ | _ | k <;> cases there
  · exact zero.elim
  · exact zero.elim
  · cases zero.1
  · exact zero.elim
  · exact ⟨rfl, zero.2⟩

/-- A negative quotient is cut toward zero, and a divisor of zero ends the program at the
fifth instruction. -/
theorem quotient_computes :
    (∃ (table : ClassTable) (m : Machine Unit) (f : Frame),
      ClassTable.load [⟨"Quotient", rootClass, [quotientCode]⟩] = .ok table ∧
      (Machine.create table {} ()).start "Quotient" "run" "(II)I" [.int 107, .int 2] =
        .running m f .host ∧
      (Progress.running m f .host).run 5 = .running (m.ahead 5) (f.computed 5 (-3)) .host) ∧
    ∃ (table : ClassTable) (m : Machine Unit) (f : Frame),
      ClassTable.load [⟨"Quotient", rootClass, [quotientCode]⟩] = .ok table ∧
      (Machine.create table {} ()).start "Quotient" "run" "(II)I" [.int 107, .int 0] =
        .running m f .host ∧
      (Progress.running m f .host).EndsInDivision f.method (f.ip + 4) := by
  constructor
  · obtain ⟨table, m, f, loaded, started, ready, first, second⟩ := quotient_ready 107 2
    have defined : ∀ node ∈ quotientExpr.postorder, ¬ node.DividesByZero f.wordAt := by
      intro node member zero
      obtain ⟨k, there⟩ := List.mem_iff_getElem?.1 member
      have divisor := (quotient_division there zero).2
      rw [second] at divisor
      cases divisor
    obtain ⟨word, equal, run⟩ :=
      (Progress.computes_expression quotientExpr .host ready).1 defined
    have value : quotientExpr.value f.wordAt = (-3 : Int32).toInt := by
      show wrap (Int.tdiv (wrap (100 - f.wordAt 0)) (f.wordAt 1)) = _
      rw [first, second]
      decide
    rw [value] at equal
    obtain rfl := Int32.toInt_inj.1 equal
    exact ⟨table, m, f, loaded, started, run⟩
  · obtain ⟨table, m, f, loaded, started, ready, first, second⟩ := quotient_ready 107 0
    have zero : ∃ node ∈ quotientExpr.postorder, node.DividesByZero f.wordAt :=
      ⟨quotientExpr, by simp [quotientExpr, IntExpr.postorder], rfl, second⟩
    obtain ⟨k, ⟨⟨node, there, divides⟩, _⟩, ends⟩ :=
      (Progress.computes_expression quotientExpr .host ready).2 zero
    obtain rfl : k = 4 := (quotient_division there divides).1
    exact ⟨table, m, f, loaded, started, ends⟩

end ClassMachine
