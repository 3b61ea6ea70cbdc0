import ClassMachine.Proofs.Lifetime

/-!
# What a move does to the heap and the static fields

The heap and the static fields are the store of a machine. One move changes it at
one place at most.

* `Instruction.Stores`: what an instruction may put into the store.
* `Machine.Leaves`: the store stays, and no use of a class comes to wait for an
  initializer but some that are given.
* `Machine.Edits`: what a step does to the store. It is the work of the current
  instruction, the reply of a bridge, or the use that waited for an initializer.
-/

namespace ClassMachine

variable {ω : Type} {m m' m'' : Machine ω} {f g : Frame} {link : Link} {p : Progress ω}
  {insn : Instruction} {effect : Effect} {held : List ClassUse} {h : Heap}

/-! ## The heap -/

namespace Heap

theorem get?_alloc (h : Heap) (object : HeapObject) (index : Nat) :
    (h.alloc object).2.get? index = if index = h.size then some object else h.get? index :=
  Array.getElem?_push

theorem get?_write (h : Heap) (target : Nat) (w : Write) (index : Nat) :
    (h.write target w).get? index =
      if target = index then (h.get? index).map (HeapObject.write w) else h.get? index :=
  Array.getElem?_modify

end Heap

/-! ## Instructions -/

namespace Instruction

/-- What an instruction may put into the store: no new instance that has fields, and
no value into a field unless it fits the descriptor in the operand. -/
def Stores (insn : Instruction) : Effect → Prop
  | .allocate _ object => ∀ className fields, object ≠ .object className fields
  | .write _ _ (.field name value) =>
    insn.opcode = .putField ∧ ∃ ref, insn.operand? 0 = some (.field ref) ∧ ref.name = name ∧
      Frame.checkField ref value = .ok ()
  | .touch _ _ (.putStatic ref value) =>
    insn.opcode = .putStatic ∧ insn.operand? 0 = some (.field ref) ∧
      Frame.checkField ref value = .ok ()
  | _ => True

theorem execute_stores (done : insn.execute h f = .ok effect) : insn.Stores effect := by
  cases op : insn.opcode <;> simp only [execute, op] at done
  case ifZero | ifInt | ifRef | ifNull | goto | gotoW =>
    obtain ⟨_, _, _, _, rfl | rfl⟩ := Frame.branch_cases done <;> trivial
  case invoke =>
    obtain ⟨ref, _, done⟩ := bind_eq_ok.1 done
    obtain ⟨_, _, rfl, _⟩ := Frame.takeCall_call done
    trivial
  case arrayStore cell =>
    unfold Frame.arrayStore at done
    split at done
    all_goals
      simp only [bind_eq_ok, Prod.exists] at done
      obtain ⟨_, _, _, _, _, _, _, _, _, _, _, _, done⟩ := done
      cases done
      trivial
  case putField =>
    obtain ⟨ref, operand, done⟩ := bind_eq_ok.1 done
    simp only [Frame.putField, bind_eq_ok, Prod.exists] at done
    obtain ⟨_, _, _, _, checked, _, _, _, _, _, _, _, _, done⟩ := done
    cases done
    exact ⟨op, ref, fieldOperand_eq_ok operand, rfl, checked⟩
  case putStatic =>
    obtain ⟨ref, operand, done⟩ := bind_eq_ok.1 done
    obtain ⟨⟨value, g⟩, _, done⟩ := bind_eq_ok.1 done
    obtain ⟨_, checked, done⟩ := bind_eq_ok.1 done
    cases done
    exact ⟨op, fieldOperand_eq_ok operand, checked⟩
  case invokeDynamic | multiAnewArray | athrow | instanceOf | other => cases done
  -- The others go on, allocate numbers or arrays, or leave the store to the machine.
  all_goals
    simp only [bind_eq_ok, pure, Except.pure, Except.ok.injEq, Prod.exists] at done
    grind [Stores]

end Instruction

/-! ## The store of a machine -/

/-- The use of a class that is left of an instruction. -/
def Resume.uses : Resume → List ClassUse
  | .use what => [what]
  | .enter _ _ _ => []

/-- The uses of classes that wait for an initializer, innermost first. -/
def Link.delayed : Link → List ClassUse
  | .host | .hostInitializer _ _ _ => []
  | .caller _ (.call _ _) link => link.delayed
  | .caller _ (.initializer _ resume) link => resume.uses ++ link.delayed

def Progress.delayed : Progress ω → List ClassUse
  | .running _ _ link => link.delayed
  | .finished _ _ => []

namespace Machine

/-- The store is the same. -/
structure SameStore (m m' : Machine ω) : Prop where
  heap : m'.heap = m.heap
  statics : m'.statics = m.statics

theorem SameStore.refl (m : Machine ω) : m.SameStore m :=
  ⟨rfl, rfl⟩

theorem SameStore.trans (left : m.SameStore m') (right : m'.SameStore m'') : m.SameStore m'' :=
  ⟨right.heap.trans left.heap, right.statics.trans left.statics⟩

/-- The program has the store of the machine, and no use waits but the given ones. -/
structure Leaves (m : Machine ω) (held : List ClassUse) (p : Progress ω) : Prop where
  same : m.SameStore p.machine
  waits : p.delayed ⊆ held

theorem Leaves.of_same (same : m.SameStore m') (leaves : m'.Leaves held p) : m.Leaves held p :=
  ⟨same.trans leaves.same, leaves.waits⟩

/-- The machine after the work of an effect on its store. -/
def worked (m : Machine ω) : Effect → Machine ω
  | .allocate _ object => (m.alloc object).1
  | .constant _ value => (m.constant value).1
  | .write _ object w => { m with heap := m.heap.write object w }
  | .touch f _ use => (m.use f use).1
  | _ => m

end Machine

theorem Link.unwind_leaves (link : Link) (m : Machine ω) (e : RuntimeError) :
    m.Leaves held (link.unwind m e) := by
  induction link generalizing m e with
  | host => exact ⟨⟨rfl, rfl⟩, List.nil_subset _⟩
  | hostInitializer name target args => exact ⟨⟨rfl, rfl⟩, List.nil_subset _⟩
  | caller f await link ih =>
      cases await with
      | call key wantsValue =>
          have same : m.SameStore m.leave := ⟨rfl, rfl⟩
          exact (ih m.leave _).of_same same
      | initializer name resume =>
          have same : m.SameStore (m.leave.poison name) := ⟨rfl, rfl⟩
          exact (ih (m.leave.poison name) _).of_same same

namespace Machine

theorem failAt_leaves (m : Machine ω) (method : LoadedMethod) (index : Nat) (link : Link)
    (fault : Fault) : m.Leaves held (m.failAt method index link fault) :=
  link.unwind_leaves m _

theorem deliver_leaves (m : Machine ω) (f : Frame) (link : Link) (key : MethodKey)
    (wantsValue : Bool) (value : Option Value) :
    m.Leaves link.delayed (m.deliver f link key wantsValue value) := by
  unfold deliver
  split
  · split
    · exact ⟨.refl m, List.Subset.refl _⟩
    · exact m.failAt_leaves f.method f.ip link _
  · exact ⟨.refl m, List.Subset.refl _⟩

theorem enterFrom_leaves (m : Machine ω) (f : Frame) (link : Link) (method : LoadedMethod)
    (receiver : Option Value) (args : List Value) (key : MethodKey) (wantsValue : Bool) :
    m.Leaves link.delayed (m.enterFrom f link method receiver args key wantsValue) := by
  unfold enterFrom
  split
  · rename_i m' callee entered
    obtain ⟨rfl, _⟩ := enter_eq_ok entered
    exact ⟨⟨rfl, rfl⟩, List.Subset.refl _⟩
  · exact m.failAt_leaves f.method f.ip link _

theorem sameStore_of_touch {name : String} {initializer : Option LoadedMethod}
    (touch : m.touch name = .ok (m', initializer)) : m.SameStore m' := by
  cases touched_of_touch touch with
  | ready => exact .refl m
  | noted => exact ⟨rfl, rfl⟩

/-- A class is used in the store as it is, as soon as the class is ready. -/
theorem use_of_sameStore (same : m.SameStore m') (f : Frame) (use : ClassUse) :
    (m.use f use).1.SameStore (m'.use f use).1 := by
  obtain ⟨heap, statics⟩ := same
  cases use with
  | getStatic field => exact ⟨heap, statics⟩
  | putStatic field value =>
      exact ⟨heap, congrArg (Table.insert · (field.owner, field.name) value) statics⟩
  | new name => exact ⟨congrArg (fun h : Heap => (h.alloc (.object name .empty)).2) heap, statics⟩

/-- Making a class ready fails, or delays what asked for it, or lets it go on at once;
the store stays. -/
theorem withClass_cases (m : Machine ω) (f : Frame) (link : Link) (name : String)
    (resume : Resume) :
    (∃ m' e, m.SameStore m' ∧ m.withClass f link name resume = .finished m' (.error e)) ∨
      (∃ m' callee, m.SameStore m' ∧ m.withClass f link name resume =
        .running m' callee (.caller f (.initializer name resume) link)) ∨
      ∃ m', m.SameStore m' ∧ m.withClass f link name resume = m'.proceed f link resume := by
  -- A failure takes frames down, and the store stays.
  have fails (m' : Machine ω) (fault : Fault) (same : m.SameStore m') :
      ∃ m'' e, m.SameStore m'' ∧ m'.fail f link fault = .finished m'' (.error e) := by
    obtain ⟨m'', ends, _⟩ := m'.failAt_eq f.method f.ip link fault
    have leaves : m'.Leaves [] (m'.fail f link fault) := m'.failAt_leaves f.method f.ip link fault
    rw [fail, ends] at leaves
    exact ⟨m'', _, same.trans leaves.same, ends⟩
  have asked := m.withClass_asked f link name resume
  generalize m.withClass f link name resume = p at asked ⊢
  cases asked with
  | failed => exact Or.inl (fails m _ (.refl m))
  | ready touch => exact Or.inr (Or.inr ⟨_, sameStore_of_touch touch, rfl⟩)
  | @waits m₁ _ _ callee touch entered =>
      have same := sameStore_of_touch touch
      obtain ⟨rfl, _⟩ := enter_eq_ok entered
      exact Or.inr (Or.inl ⟨m₁.atDepth (m₁.depth + 1), callee, ⟨same.heap, same.statics⟩, rfl⟩)
  | refused touch =>
      have same := sameStore_of_touch touch
      exact Or.inl (fails _ _ ⟨same.heap, same.statics⟩)

/-- What asks for a class is taken up in the store as it is, or the store stays. -/
theorem withClass_leaves (m : Machine ω) (f : Frame) (link : Link) (name : String)
    (resume : Resume) :
    m.Leaves (resume.uses ++ link.delayed) (m.withClass f link name resume) ∨
      ∃ m', m.SameStore m' ∧ m.withClass f link name resume = m'.proceed f link resume := by
  rcases m.withClass_cases f link name resume with ⟨m', e, same, ends⟩ |
    ⟨m', callee, same, waits⟩ | proceeds
  · rw [ends]
    exact Or.inl ⟨same, List.nil_subset _⟩
  · rw [waits]
    exact Or.inl ⟨same, List.Subset.refl _⟩
  · exact Or.inr proceeds

theorem proceed_use_leaves (m : Machine ω) (f : Frame) (link : Link) (use : ClassUse) :
    (m.use f use).1.Leaves link.delayed (m.proceed f link (.use use)) :=
  ⟨.refl _, List.Subset.refl _⟩

/-- A bridge replies with a heap of its own. -/
theorem callBridge_store (m : Machine ω) (bridge : Bridge ω) (key : MethodKey)
    (descriptor : Descriptor) (receiver : Option Value) (args : List Value) :
    (m.callBridge bridge key descriptor receiver args).1.statics = m.statics ∧
      ((m.callBridge bridge key descriptor receiver args).1.heap = m.heap ∨
        (m.callBridge bridge key descriptor receiver args).1.heap =
          (bridge m.world m.heap receiver args).heap) := by
  have consulted := m.callBridge_consulted bridge key descriptor receiver args
  generalize m.callBridge bridge key descriptor receiver args = result at consulted ⊢
  cases consulted with
  | miscounted => exact ⟨rfl, Or.inl rfl⟩
  | failed => exact ⟨rfl, Or.inr rfl⟩
  | answered => exact ⟨rfl, Or.inr rfl⟩

theorem sameStore_callBridge_counted (m : Machine ω) (bridge : Bridge ω) (key : MethodKey)
    (descriptor : Descriptor) (receiver : Option Value) (args : List Value) :
    (m.callBridge bridge key descriptor receiver args).1.SameStore
      (m.counted.callBridge bridge key descriptor receiver args).1 := by
  unfold callBridge
  by_cases count : args.length ≠ descriptor.argCount
  · simp only [if_pos count]
    exact ⟨rfl, rfl⟩
  · simp only [if_neg count, counted]
    cases (bridge m.world m.heap receiver args).outcome <;> exact ⟨rfl, rfl⟩

/-- Only a bridge works on the store during a call. -/
theorem call_leaves (m : Machine ω) (f : Frame) (link : Link) (c : Call) :
    m.Leaves link.delayed (m.call f link c) ∨
      ∃ bridge, m.bridges.find? c.key = some bridge ∧
        (m.callBridge bridge c.key c.descriptor (c.receiver.map .ofReference) c.args).1.Leaves
          link.delayed (m.call f link c) := by
  have called := m.call_called f link c
  generalize m.call f link c = p at called ⊢
  cases called with
  | @answered bridge m₁ value bridged answered =>
      refine Or.inr ⟨bridge, bridged, ?_⟩
      rw [answered]
      exact m₁.deliver_leaves f link c.key _ value
  | @failed bridge m₁ fault bridged failed =>
      refine Or.inr ⟨bridge, bridged, ?_⟩
      rw [failed]
      exact m₁.failAt_leaves f.method f.ip link fault
  | @static method =>
      refine Or.inl ?_
      rcases m.withClass_leaves f link c.key.owner
        (.enter method c.args c.descriptor.returnsValue) with leaves | ⟨m', same, proceeds⟩
      · exact leaves
      · rw [proceeds]
        exact (m'.enterFrom_leaves f link method none c.args method.key _).of_same same
  | special => exact Or.inl (m.enterFrom_leaves f link _ _ _ _ _)
  | refused => exact Or.inl (m.failAt_leaves f.method f.ip link _)

/-- A frame that returns may let a delayed use be carried out. -/
theorem resume_leaves (m : Machine ω) (link : Link) (value : Option Value) :
    m.Leaves link.delayed (link.resume m value) ∨
      ∃ g name use below, link = .caller g (.initializer name (.use use)) below ∧
        (m.use g use).1.Leaves below.delayed (link.resume m value) := by
  cases link with
  | host => exact Or.inl ⟨.refl m, List.Subset.refl _⟩
  | hostInitializer name target args =>
      refine Or.inl ?_
      rw [Link.resume]
      split
      · rename_i m' callee entered
        obtain ⟨rfl, _⟩ := enter_eq_ok entered
        exact ⟨⟨rfl, rfl⟩, List.Subset.refl _⟩
      · exact ⟨.refl m, List.Subset.refl _⟩
  | caller g await below =>
      cases await with
      | call key wantsValue => exact Or.inl (m.deliver_leaves g below key wantsValue value)
      | initializer name resume =>
          cases resume with
          | use use => exact Or.inr ⟨g, name, use, below, rfl, m.proceed_use_leaves g below use⟩
          | enter method args wantsValue =>
              exact Or.inl (m.enterFrom_leaves g below method none args method.key wantsValue)

theorem startMethod_leaves (m : Machine ω) (owner : String) (target : LoadedMethod)
    (args : List Value) : m.Leaves [] (m.startMethod owner target args) := by
  have asked := m.startMethod_asked owner target args
  generalize m.startMethod owner target args = p at asked ⊢
  cases asked with
  | failed => exact ⟨.refl m, List.nil_subset _⟩
  | @ready m₁ touch =>
      refine Leaves.of_same (sameStore_of_touch touch) ?_
      rcases m₁.resume_leaves (.hostInitializer owner target args) none with leaves |
        ⟨_, _, _, _, same, _⟩
      · exact leaves
      · cases same
  | waits touch entered =>
      refine Leaves.of_same (sameStore_of_touch touch) ?_
      obtain ⟨rfl, _⟩ := enter_eq_ok entered
      exact ⟨⟨rfl, rfl⟩, List.Subset.refl _⟩
  | refused touch =>
      refine Leaves.of_same (sameStore_of_touch touch) ?_
      exact ⟨⟨rfl, rfl⟩, List.nil_subset _⟩

end Machine

/-! ## Steps -/

/-- Everything that a step can do to the store. -/
inductive Machine.Edits (m : Machine ω) (f : Frame) (link : Link) (p : Progress ω) : Prop
  /-- The store stays. -/
  | leaves : m.Leaves link.delayed p → Edits m f link p
  /-- The current instruction does its work. -/
  | works {insn : Instruction} {effect : Effect} :
    f.insn? = some insn → insn.execute m.heap f = .ok effect →
    (m.worked effect).Leaves link.delayed p → Edits m f link p
  /-- The use of a class by the current instruction is delayed. -/
  | delays {insn : Instruction} {g : Frame} {name : String} {use : ClassUse} :
    f.insn? = some insn → insn.execute m.heap f = .ok (.touch g name use) →
    m.Leaves (use :: link.delayed) p → Edits m f link p
  /-- A bridge replies to the current instruction. -/
  | replies {insn : Instruction} {g : Frame} {c : Call} {bridge : Bridge ω} :
    f.insn? = some insn → insn.execute m.heap f = .ok (.call g c) →
    m.bridges.find? c.key = some bridge →
    (m.callBridge bridge c.key c.descriptor (c.receiver.map .ofReference) c.args).1.Leaves
      link.delayed p →
    Edits m f link p
  /-- The delayed use of a class is carried out. -/
  | resumes {g : Frame} {name : String} {use : ClassUse} {below : Link} :
    link = .caller g (.initializer name (.use use)) below →
    (m.use g use).1.Leaves below.delayed p → Edits m f link p

namespace Machine

/-- The effects of an instruction. -/
theorem apply_edits (current : f.insn? = some insn) (done : insn.execute m.heap f = .ok effect) :
    m.Edits f link (m.counted.apply link effect) := by
  have counted : m.SameStore m.counted := ⟨rfl, rfl⟩
  cases effect with
  | next g => exact .leaves ⟨⟨rfl, rfl⟩, List.Subset.refl _⟩
  | allocate g object => exact .works current done ⟨⟨rfl, rfl⟩, List.Subset.refl _⟩
  | constant g value => exact .works current done ⟨⟨rfl, rfl⟩, List.Subset.refl _⟩
  | write g object w => exact .works current done ⟨⟨rfl, rfl⟩, List.Subset.refl _⟩
  | jump g target => exact .leaves ⟨⟨rfl, rfl⟩, List.Subset.refl _⟩
  | leave value =>
      have left : m.SameStore m.counted.leave := ⟨rfl, rfl⟩
      rcases m.counted.leave.resume_leaves link value with leaves |
        ⟨g, name, use, below, same, leaves⟩
      · exact .leaves (leaves.of_same left)
      · exact .resumes same (leaves.of_same (use_of_sameStore left g use))
  | touch g name use =>
      rcases m.counted.withClass_leaves g link name (.use use) with leaves | ⟨m', same, proceeds⟩
      · exact .delays current done (leaves.of_same counted)
      · have used := use_of_sameStore (counted.trans same) g use
        refine .works current done (Leaves.of_same used ?_)
        rw [apply, proceeds]
        exact m'.proceed_use_leaves g link use
  | call g c =>
      -- Of all calls only one of a bridge can reach the store.
      rcases m.counted.call_leaves g link c with leaves | ⟨bridge, bridged, leaves⟩
      · exact .leaves (leaves.of_same counted)
      · exact .replies current done bridged
          (leaves.of_same (m.sameStore_callBridge_counted bridge _ _ _ _))

/-- **A step edits the store in no other way.** -/
theorem step_edits (m : Machine ω) (f : Frame) (link : Link) : m.Edits f link (m.step f link) := by
  cases current : f.insn? with
  | none =>
      rw [step_of_insn?_none current]
      exact .leaves (m.failAt_leaves f.method _ link _)
  | some insn =>
      by_cases spent : m.Spent
      · obtain ⟨budget, limited, reached⟩ := spent
        rw [step_of_spent current limited reached]
        exact .leaves (m.failAt_leaves f.method f.ip link _)
      · rw [step_of_not_spent current spent, perform]
        cases done : insn.execute m.counted.heap f with
        | error fault =>
            have counted : m.SameStore m.counted := ⟨rfl, rfl⟩
            exact .leaves ((m.counted.failAt_leaves f.method f.ip link fault).of_same counted)
        | ok effect => exact apply_edits current done

/-! ## Calls of the host -/

/-- Only a bridge works on the store when the host starts a call. -/
theorem start_leaves (m : Machine ω) (className method descriptor : String) (args : List Value) :
    m.Leaves [] (m.start className method descriptor args) ∨
      ∃ bridge parsed, m.bridges.find? (.of className method descriptor) = some bridge ∧
        (m.callBridge bridge (.of className method descriptor) parsed none args).1.Leaves []
          (m.start className method descriptor args) := by
  have called := m.start_called className method descriptor args
  generalize m.start className method descriptor args = p at called ⊢
  cases called with
  | malformed => exact Or.inl ⟨.refl m, List.nil_subset _⟩
  | @answered parsed bridge m₁ value _ bridged answered =>
      refine Or.inr ⟨bridge, parsed, bridged, ?_⟩
      rw [answered]
      exact ⟨.refl m₁, List.nil_subset _⟩
  | @failed parsed bridge m₁ fault _ bridged failed =>
      refine Or.inr ⟨bridge, parsed, bridged, ?_⟩
      rw [failed]
      exact ⟨.refl m₁, List.nil_subset _⟩
  | static => exact Or.inl (m.startMethod_leaves _ _ args)
  | refused => exact Or.inl ⟨.refl m, List.nil_subset _⟩

end Machine

end ClassMachine
