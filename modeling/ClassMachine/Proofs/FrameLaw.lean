import ClassMachine.Proofs.Operands
import ClassMachine.Proofs.Suspension

/-!
# The law of frames

An instruction that is done, whatever ran above its frame in the meantime, has taken its
operands off the stack of the frame, put its results there and left everything below. The
frame stands at the next instruction or at the target of the jump.

* `Effect.Asks`: which opcodes ask for which effects.
* `Machine.withClass_completes` and `Machine.call_completes`: what an instruction comes to
  that uses a class or calls, when the frames above have returned.
* `Machine.perform_obeys`: the law, for every machine, frame and instruction.
-/

namespace ClassMachine

variable {ω : Type} {m m' : Machine ω} {f g k : Frame} {link : Link} {p : Progress ω}
  {insn : Instruction} {effect : Effect} {h : Heap}

/-! ## Opcodes and effects -/

/-- Opcodes that allocate objects or write into them. -/
def Opcode.worksOnHeap : Opcode → Bool
  | .lconst | .fconst | .dconst | .ldc | .ldcW | .ldc2W | .arrayStore _ | .putField | .new
  | .newArray | .anewArray => true
  | _ => false

/-- Opcodes that may let a method or the initializer of a class run first. -/
def Opcode.runsCode : Opcode → Bool
  | .invoke _ | .getStatic | .putStatic | .new => true
  | _ => false

/-- The opcode is one that asks for such an effect. -/
def Effect.Asks (op : Opcode) : Effect → Prop
  | .next _ | .leave _ => True
  | .jump _ _ => op.family = .controlTransfer
  | .allocate _ _ | .constant _ _ | .write _ _ _ => op.worksOnHeap
  | .touch _ _ (.getStatic _) => op = .getStatic
  | .touch _ _ (.putStatic _ _) => op = .putStatic
  | .touch _ _ (.new _) => op = .new
  | .call _ c => op = .invoke c.mode

theorem Instruction.execute_asks (done : insn.execute h f = .ok effect) :
    effect.Asks insn.opcode := by
  cases op : insn.opcode <;> simp only [execute, op] at done
  case ifZero | ifInt | ifRef | ifNull | goto | gotoW =>
    obtain ⟨_, _, _, _, rfl | rfl⟩ := Frame.branch_cases done
    · rfl
    · trivial
  case invoke =>
    obtain ⟨ref, _, done⟩ := bind_eq_ok.1 done
    obtain ⟨_, _, rfl, _, rfl, _⟩ := Frame.takeCall_call done
    rfl
  case arrayStore =>
    obtain ⟨_, _, _, rfl, _⟩ := Frame.trades_arrayStore done
    rfl
  case putField =>
    obtain ⟨ref, _, done⟩ := bind_eq_ok.1 done
    obtain ⟨_, _, _, rfl, _⟩ := Frame.trades_putField done
    rfl
  case invokeDynamic | multiAnewArray | athrow | instanceOf | other => cases done
  -- The others take their operands, and then say at once what is left to do.
  all_goals
    simp only [bind_eq_ok, pure, Except.pure, Except.ok.injEq, Prod.exists] at done
    grind [Effect.Asks, Opcode.worksOnHeap]

/-! ## Coming back -/

namespace Progress

/-- A frame has been put above the one at work, which waits for it. -/
def Suspends (link : Link) (p : Progress ω) : Prop :=
  ∃ m callee f await, p = .running m callee (.caller f await link)

/-- A run that is to come down to a link starts on it or above. -/
theorem Aloft.onLink (aloft : p.Aloft link (running m' g link)) : p.OnLink link := by
  cases aloft with
  | here => exact Or.inl rfl
  | step higher _ => exact Or.inr higher

theorem OnLink.length_le {above : Link} (on : (Progress.running m f above).OnLink link) :
    link.frames.length ≤ above.frames.length := by
  rcases on with rfl | higher
  · exact Nat.le_refl _
  · exact Nat.le_of_lt higher.length_lt

/-- A program that has ended has no frames on a link. -/
theorem not_onLink_fail (m : Machine ω) (f : Frame) (below : Link) (fault : Fault) :
    ¬ (m.fail f below fault).OnLink link := by
  obtain ⟨m', ends, _⟩ := m.failAt_eq f.method f.ip below fault
  rw [Machine.fail, ends]
  exact id

end Progress

/-- A frame that returns has left the link. -/
theorem Link.resume_not_onLink (m : Machine ω) (value : Option Value) (link : Link) :
    ¬ (link.resume m value).OnLink link := by
  -- Where the caller goes on, the link is shorter by its frame.
  have below {m : Machine ω} {f g : Frame} {await : Await} {link : Link} :
      ¬ (Progress.running m f link).OnLink (.caller g await link) := by
    intro on
    have length := Progress.OnLink.length_le on
    rw [Link.frames_caller, List.length_cons] at length
    omega
  cases link with
  | host => exact id
  | hostInitializer name target args =>
      rw [resume]
      split
      · intro on
        rcases on with same | higher
        · cases same
        · exact higher
      · exact id
  | caller g await link =>
      cases await with
      | call key wantsValue =>
          rw [resume]
          unfold Machine.deliver
          split
          · split
            · exact below
            · exact Progress.not_onLink_fail m g link _
          · exact below
      | initializer name resume =>
          cases resume with
          | use use => exact below
          | enter method args wantsValue =>
              rw [Link.resume, Machine.proceed, Machine.enterFrom]
              split
              · rintro (same | higher)
                · cases same
                · have length := higher.length_lt
                  rw [Link.frames_caller, Link.frames_caller] at length
                  exact Nat.lt_irrefl _ length
              · exact Progress.not_onLink_fail m g link _

namespace Machine

/-! ## Uses and calls -/

theorem not_aloft_fail {fault : Fault} :
    ¬ (m.fail f link fault).Aloft link (.running m' g link) :=
  fun aloft => Progress.not_onLink_fail m f link fault aloft.onLink

/-- The use of a class is carried out in the end, at once or when the initializer has
returned. -/
theorem withClass_completes {name : String} {use : ClassUse}
    (aloft : (m.withClass f link name (.use use)).Aloft link (.running m' g link)) :
    ∃ ready : Machine ω,
      (m.SameStore ready ∨ (m.withClass f link name (.use use)).Suspends link) ∧
        m' = (ready.use f use).1 ∧ g = (ready.use f use).2.advance := by
  have used {ready : Machine ω}
      (aloft : (ready.proceed f link (.use use)).Aloft link (.running m' g link)) :
      m' = (ready.use f use).1 ∧ g = (ready.use f use).2.advance := by
    cases aloft.eq_of_running
    exact ⟨rfl, rfl⟩
  rcases m.withClass_cases f link name (.use use) with ⟨m₁, e, _, ends⟩ |
    ⟨m₁, callee, _, waits⟩ | ⟨ready, same, proceeds⟩
  · rw [ends] at aloft
    cases aloft.eq_of_finished
  · rw [waits] at aloft
    obtain ⟨ready, value, back⟩ := aloft.returned (Or.inl rfl)
    exact ⟨ready, Or.inr ⟨m₁, callee, f, _, waits⟩, used back⟩
  · rw [proceeds] at aloft
    exact ⟨ready, Or.inl same, used aloft⟩

/-- The result of a call is delivered to a frame that goes on. -/
theorem deliver_completes {key : MethodKey} {wantsValue : Bool} {value : Option Value}
    (aloft : (m.deliver f link key wantsValue value).Aloft link (.running m' g link)) :
    m' = m ∧ ∃ result : List Value, result.length = wantsValue.toNat ∧
      g = (f.pushAll result).advance := by
  have next : m.deliver f link key wantsValue value = .running m' g link := by
    generalize goal : m.deliver f link key wantsValue value = p at aloft
    unfold deliver at goal
    split at goal
    · split at goal <;> subst goal
      · exact aloft.eq_of_running.symm
      · exact (not_aloft_fail aloft).elim
    · subst goal
      exact aloft.eq_of_running.symm
  obtain ⟨result, machine, _, frame, length⟩ := deliver_eq_running next
  exact ⟨machine, result, length, frame⟩

/-- The method of a static call is entered when the initializer has returned, and returns in
its turn. -/
theorem enterFrom_completes {method : LoadedMethod} {receiver : Option Value}
    {args : List Value} {key : MethodKey} {wantsValue : Bool}
    (aloft : (m.enterFrom f link method receiver args key wantsValue).Aloft link
      (.running m' g link)) :
    ∃ result : List Value, result.length = wantsValue.toNat ∧
      g = (f.pushAll result).advance := by
  unfold enterFrom at aloft
  split at aloft
  · obtain ⟨_, value, back⟩ := aloft.returned (Or.inl rfl)
    exact (deliver_completes back).2
  · exact (not_aloft_fail aloft).elim

/-- A call has left its result, and has not touched the static fields itself. -/
theorem call_completes {c : Call} (aloft : (m.call f link c).Aloft link (.running m' g link)) :
    (∃ result : List Value, result.length = c.descriptor.returnsValue.toNat ∧
      g = (f.pushAll result).advance) ∧
      (m'.statics = m.statics ∨ (m.call f link c).Suspends link) := by
  have calling := m.call_calling f link c
  generalize m.call f link c = p at aloft calling
  cases calling with
  | fails => cases aloft.eq_of_finished
  | @answered m₁ bridge value _ answered =>
      obtain ⟨rfl, result⟩ := deliver_completes aloft
      have store := (m.callBridge_store bridge c.key c.descriptor
        (c.receiver.map .ofReference) c.args).1
      rw [answered] at store
      exact ⟨result, Or.inl store⟩
  | entered =>
      obtain ⟨_, value, back⟩ := aloft.returned (Or.inl rfl)
      exact ⟨(deliver_completes back).2, Or.inr ⟨_, _, _, _, rfl⟩⟩
  | delayed =>
      obtain ⟨_, value, back⟩ := aloft.returned (Or.inl rfl)
      exact ⟨enterFrom_completes back, Or.inr ⟨_, _, _, _, rfl⟩⟩

/-! ## Instructions -/

/-- What an instruction may have done to the store when it is done. -/
structure Spares (m : Machine ω) (insn : Instruction) (suspends : Prop) (m' : Machine ω) :
    Prop where
  statics : m'.statics = m.statics ∨ insn.opcode = .putStatic ∨
    insn.opcode.runsCode ∧ suspends
  heap : m'.heap = m.heap ∨ insn.opcode.worksOnHeap ∨ (∃ mode, insn.opcode = .invoke mode) ∨
    insn.opcode.runsCode ∧ suspends

theorem apply_obeys {use : StackUse} {assigned : Option Nat} (within : effect.Within f use assigned)
    (effects : insn.Effects f effect) (asks : effect.Asks insn.opcode)
    (aloft : (m.apply link effect).Aloft link (.running m' g link)) :
    f.Obeys use assigned g ∧
      (g.ip = f.ip + 1 ∨
        insn.opcode.family = .controlTransfer ∧ insn.targetOperand = .ok g.ip) ∧
      m.Spares insn ((m.apply link effect).Suspends link) m' := by
  cases effects with
  | next alike =>
      cases aloft.eq_of_running
      exact ⟨within.at _, Or.inl (congrArg (· + 1) alike.ip), Or.inl rfl, Or.inl rfl⟩
  | allocate alike =>
      cases aloft.eq_of_running
      exact ⟨(within _).at _, Or.inl (congrArg (· + 1) alike.ip), Or.inl rfl,
        Or.inr (Or.inl asks)⟩
  | constant alike =>
      cases aloft.eq_of_running
      exact ⟨(within _).at _, Or.inl (congrArg (· + 1) alike.ip), Or.inl rfl,
        Or.inr (Or.inl asks)⟩
  | write alike =>
      cases aloft.eq_of_running
      exact ⟨within.at _, Or.inl (congrArg (· + 1) alike.ip), Or.inl rfl, Or.inr (Or.inl asks)⟩
  | jump _ _ target =>
      cases aloft.eq_of_running
      exact ⟨within.at _, Or.inr ⟨asks, target⟩, Or.inl rfl, Or.inl rfl⟩
  | @leave result => exact (link.resume_not_onLink m.leave result aloft.onLink).elim
  | @touch k name use alike _ =>
      rw [apply] at aloft ⊢
      -- An initializer may have run in between, and then nothing is known of the store.
      obtain ⟨ready, kept, rfl, rfl⟩ := withClass_completes aloft
      have ip : k.ip + 1 = f.ip + 1 := congrArg (· + 1) alike.ip
      cases use with
      | getStatic field =>
          have opcode : insn.opcode = .getStatic := asks
          have runs : insn.opcode.runsCode = true := by rw [opcode]; rfl
          refine ⟨(within _).at _, Or.inl ip, ?_, ?_⟩
          · exact kept.imp SameStore.statics fun waits => Or.inr ⟨runs, waits⟩
          · exact kept.imp SameStore.heap fun waits => Or.inr (Or.inr ⟨runs, waits⟩)
      | putStatic field value =>
          have opcode : insn.opcode = .putStatic := asks
          have runs : insn.opcode.runsCode = true := by rw [opcode]; rfl
          refine ⟨within.at _, Or.inl ip, Or.inr (Or.inl opcode), ?_⟩
          exact kept.imp (fun same => same.heap) fun waits => Or.inr (Or.inr ⟨runs, waits⟩)
      | new name =>
          have opcode : insn.opcode = .new := asks
          have runs : insn.opcode.runsCode = true := by rw [opcode]; rfl
          refine ⟨(within _).at _, Or.inl ip, ?_, Or.inr (Or.inl (by rw [opcode]; rfl))⟩
          exact kept.imp (fun same => same.statics) fun waits => Or.inr ⟨runs, waits⟩
  | @call k c ref alike =>
      rw [apply] at aloft ⊢
      obtain ⟨⟨result, length, rfl⟩, kept⟩ := call_completes aloft
      have opcode : insn.opcode = .invoke c.mode := asks
      refine ⟨(within result length).at _, Or.inl (congrArg (· + 1) alike.ip), ?_,
        Or.inr (Or.inr (Or.inl ⟨_, opcode⟩))⟩
      exact kept.imp_right fun waits => Or.inr ⟨by rw [opcode]; rfl, waits⟩

/-- **The law of frames.** When the instruction of a frame is done, so that the frame is at
work again for the first time, as many values have been taken off its stack and put there
as the opcode says, a call going by the descriptor it names; what was below, the method, the
receiver and the local variables are the same, but for the variable that a store or an
increment names. The static fields and the heap have changed only under the instructions
that work on them, or while other code ran above the frame. An instruction that returns
takes the value that it gives back, and leaves the frame for good. -/
theorem perform_obeys (m : Machine ω) (f : Frame) (link : Link) (insn : Instruction) :
    (∀ m' g, (m.perform f link insn f.method f.ip).Aloft link (.running m' g link) →
      f.Obeys (insn.stackUse m.heap f) insn.assigned? g ∧
      (g.ip = f.ip + 1 ∨
        insn.opcode.family = .controlTransfer ∧ insn.targetOperand = .ok g.ip) ∧
      m.Spares insn ((m.perform f link insn f.method f.ip).Suspends link) m') ∧
    ∀ value, insn.execute m.heap f = .ok (.leave value) →
      m.perform f link insn f.method f.ip = link.resume m.leave value ∧
      insn.stackUse m.heap f = ⟨value.toList.length, 0⟩ ∧
      ∃ base, f.stack = value.toList ++ base := by
  constructor
  · intro m' g aloft
    cases done : insn.execute m.heap f with
    | error fault =>
        simp only [perform, done] at aloft
        exact (not_aloft_fail aloft).elim
    | ok effect =>
        simp only [perform, done] at aloft ⊢
        exact apply_obeys (insn.execute_within done) (insn.execute_effects done)
          (insn.execute_asks done) aloft
  · intro value done
    obtain ⟨use, base, stack⟩ := Instruction.execute_within done
    simp only [perform, done]
    exact ⟨rfl, use, base, stack⟩

end Machine

/-! ## A call without a result -/

/-- A method that calls another one with the upper one of two words. -/
def dropCallCode : MethodCode where
  name := "run"
  descriptor := "()I"
  flags := .ofList [.accStatic]
  maxStack := 2
  maxLocals := 0
  argsSize := 0
  instructions :=
    [⟨0, .bipush, [.int 1], none⟩, ⟨2, .bipush, [.int 7], none⟩,
      ⟨4, .invoke .static, [.method ⟨"Drop", "drop", "(I)V"⟩], none⟩,
      ⟨7, .returnValue .int, [], none⟩]

/-- The method that is called has no result. -/
def dropCode : MethodCode where
  name := "drop"
  descriptor := "(I)V"
  flags := .ofList [.accStatic]
  maxStack := 0
  maxLocals := 1
  argsSize := 1
  instructions := [⟨0, .returnVoid, [], none⟩]

/-- The call takes the upper word, and the lower one is left. -/
theorem drop_call_obeys :
    ∃ (table : ClassTable) (m m' : Machine Unit) (f g : Frame) (insn : Instruction),
      ClassTable.load [⟨"Drop", rootClass, [dropCallCode, dropCode]⟩] = .ok table ∧
      ((Machine.create table {} ()).start "Drop" "run" "()I" []).run 2 = .running m f .host ∧
      f.insn? = some insn ∧ f.stack = [.int 7, .int 1] ∧
      (m.perform f .host insn f.method f.ip).Aloft .host (.running m' g .host) ∧
      g.stack = [.int 1] ∧ g.ip = f.ip + 1 := by
  obtain ⟨table, m, m₁, m', f, g, callee, link, loaded, there, current, stack, next, back⟩ :
      ∃ table m m₁ m' f g callee link,
        ClassTable.load [⟨"Drop", rootClass, [dropCallCode, dropCode]⟩] = .ok table ∧
        ((Machine.create table {} ()).start "Drop" "run" "()I" []).run 2 =
          .running m f .host ∧
        f.insn? = some ⟨4, .invoke .static, [.method ⟨"Drop", "drop", "(I)V"⟩], none⟩ ∧
        f.stack = [.int 7, .int 1] ∧
        m.perform f .host ⟨4, .invoke .static, [.method ⟨"Drop", "drop", "(I)V"⟩], none⟩
          f.method f.ip = .running m₁ callee (.caller link (.call ⟨"Drop", "drop", "(I)V"⟩ false)
            .host) ∧
        m₁.step callee (.caller link (.call ⟨"Drop", "drop", "(I)V"⟩ false) .host) =
          .running m' g .host :=
    ⟨_, _, _, _, _, _, _, _, rfl, rfl, rfl, rfl, rfl, rfl⟩
  have aloft : (m.perform f .host
      ⟨4, .invoke .static, [.method ⟨"Drop", "drop", "(I)V"⟩], none⟩ f.method f.ip).Aloft .host
        (.running m' g .host) := by
    rw [next]
    refine .step (Link.isAbove_caller _ _ _) ?_
    rw [back]
    exact .here _
  obtain ⟨obeys, ip, _⟩ := (m.perform_obeys f .host _).1 m' g aloft
  obtain ⟨base, consumed, produced, before, after, taken, given⟩ := obeys.stack
  obtain ⟨word, rfl⟩ := List.length_eq_one_iff.1 taken
  obtain rfl := List.eq_nil_of_length_eq_zero given
  rw [stack] at before
  cases before
  refine ⟨table, m, m', f, g, _, loaded, there, current, stack, aloft, after, ?_⟩
  rcases ip with ahead | ⟨jump, _⟩
  · exact ahead
  · cases jump

end ClassMachine
