import ClassMachine.Proofs.ControlFlow
import ClassMachine.Proofs.LiveReferences

/-!
# Closed machines

A machine is closed if all references in its heap and its static fields are live. A
program that runs is closed if those in its frames are live as well, with what waits for
an initializer (`Progress.Closed`).

The heap never shrinks, so a reference that is live stays live. Every step leaves a
closed program (`Machine.closed_step`), if the bridges do their part (`LiveBridge`), and
so does every action of a host that hands over live references only. No reference ever
dangles (`Progress.Lives.nothing_dangles`).
-/

namespace ClassMachine

variable {ω : Type} {m m' : Machine ω} {f g : Frame} {link : Link} {p q : Progress ω}
  {n n' : Nat} {value : Option Value} {args : List Value}

/-! ## Closed programs -/

/-- What is left of an instruction is done with live references. -/
def Resume.Live (n : Nat) : Resume → Prop
  | .use what => what.Live n
  | .enter _ args _ => ∀ value ∈ args, value.Live n

def Await.Live (n : Nat) : Await → Prop
  | .call _ _ => True
  | .initializer _ resume => resume.Live n

/-- Every reference in the waiting frames, and in what they wait to do, is live. -/
def Link.Live (n : Nat) : Link → Prop
  | .host => True
  | .hostInitializer _ _ args => ∀ value ∈ args, value.Live n
  | .caller f await link => f.Live n ∧ await.Live n ∧ link.Live n

/-- Every reference in the heap and the static fields is live. -/
structure Machine.Closed (m : Machine ω) : Prop where
  heap : m.heap.Closed
  statics : ∀ field value, m.statics.find? field = some value → value.Live m.heap.size

/-- Every reference is live, and the program has not failed for one that is not. -/
def Progress.Closed : Progress ω → Prop
  | .running m f link => m.Closed ∧ f.Live m.heap.size ∧ link.Live m.heap.size
  | .finished m outcome =>
    m.Closed ∧ (∀ value, outcome = .ok value → LiveOption m.heap.size value) ∧
      ∀ e, outcome = .error e → e.fault.Grounded

theorem ClassUse.Live.mono {use : ClassUse} (live : use.Live n) (grows : n ≤ n') :
    use.Live n' := by
  cases use with
  | putStatic field value => exact Value.Live.mono live grows
  | _ => trivial

theorem Await.Live.mono {await : Await} (live : await.Live n) (grows : n ≤ n') :
    await.Live n' := by
  cases await with
  | call => trivial
  | initializer name resume =>
      cases resume with
      | use use => exact ClassUse.Live.mono live grows
      | enter method args wantsValue => exact fun value member => (live value member).mono grows

theorem Link.Live.mono (live : link.Live n) (grows : n ≤ n') : link.Live n' := by
  induction link with
  | host => trivial
  | hostInitializer name target args => exact fun value member => (live value member).mono grows
  | caller f await link ih =>
      obtain ⟨frame, waits, below⟩ := live
      exact ⟨frame.mono grows, waits.mono grows, ih below⟩

theorem Progress.closed_ok (closed : m.Closed) (live : LiveOption m.heap.size value) :
    (Progress.finished m (.ok value)).Closed := by
  refine ⟨closed, ?_, fun _ failed => nomatch failed⟩
  rintro _ ⟨⟩
  exact live

theorem Progress.closed_error {e : RuntimeError} (closed : m.Closed)
    (grounded : e.fault.Grounded) : (Progress.finished m (.error e)).Closed := by
  refine ⟨closed, (fun _ answered => nomatch answered), ?_⟩
  rintro _ ⟨⟩
  exact grounded

/-- Every frame that waits has live references. -/
theorem Link.Live.frames (live : link.Live n) : ∀ f ∈ link.frames, f.Live n := by
  induction link with
  | host => nofun
  | hostInitializer name target args => nofun
  | caller f await link ih =>
      obtain ⟨frame, _, below⟩ := live
      exact List.forall_mem_cons.2 ⟨frame, ih below⟩

namespace Machine

theorem Closed.of_same (closed : m.Closed) (same : m.SameStore m') : m'.Closed := by
  obtain ⟨heap, statics⟩ := closed
  rw [← same.heap] at heap statics
  rw [← same.statics] at statics
  exact ⟨heap, statics⟩

/-- A heap that has grown takes the place of the heap. -/
theorem Closed.withHeap {heap : Heap} (closed : m.Closed) (closed' : heap.Closed)
    (grows : m.heap.size ≤ heap.size) : Closed { m with heap } :=
  ⟨closed', fun field value found => (closed.statics field value found).mono grows⟩

theorem Closed.insert {owner name : String} {value : Value} (closed : m.Closed)
    (live : value.Live m.heap.size) :
    Closed { m with statics := m.statics.insert (owner, name) value } := by
  refine ⟨closed.heap, fun field found there => ?_⟩
  rcases Table.find?_insert_eq_some there with ⟨_, rfl⟩ | ⟨_, there⟩
  · exact live
  · exact closed.statics field found there

/-! ## Failing and entering -/

theorem Closed.failAt (closed : m.Closed) (method : LoadedMethod) (index : Nat) (link : Link)
    {fault : Fault} (grounded : fault.Grounded) : (m.failAt method index link fault).Closed := by
  obtain ⟨m', ends, _⟩ := m.failAt_eq method index link fault
  have leaves : m.Leaves [] (m.failAt method index link fault) :=
    m.failAt_leaves method index link fault
  rw [ends] at leaves ⊢
  exact Progress.closed_error (closed.of_same leaves.same) grounded

theorem Closed.fail (closed : m.Closed) (f : Frame) (link : Link) {fault : Fault}
    (grounded : fault.Grounded) : (m.fail f link fault).Closed :=
  closed.failAt f.method f.ip link grounded

/-- A method that is given live references is entered with live references. -/
theorem enter_yields (m : Machine ω) (method : LoadedMethod) {receiver : Option Value}
    (given : LiveOption m.heap.size receiver) (live : ∀ value ∈ args, value.Live m.heap.size) :
    Yields (fun entered => m.SameStore entered.1 ∧ entered.2.Live entered.1.heap.size)
      (m.enter method receiver args) := by
  unfold Machine.enter
  split
  · nofun
  · exact (Frame.enter_yields method given live).bind fun f frame => ⟨⟨rfl, rfl⟩, frame⟩

theorem grounded_of_touch {name : String} {fault : Fault} (touch : m.touch name = .error fault) :
    fault.Grounded := by
  cases touched_of_touch touch with
  | refused => nofun

theorem grounded_of_refusal {key : MethodKey} {fault : Fault} (refusal : fault ∈ key.refusals) :
    fault.Grounded := by
  simp only [MethodKey.refusals, List.mem_cons, List.not_mem_nil, or_false] at refusal
  rcases refusal with rfl | rfl | rfl | rfl | rfl <;> simp [Fault.Grounded]

theorem Closed.deliver (closed : m.Closed) (frame : f.Live m.heap.size)
    (below : link.Live m.heap.size) (live : LiveOption m.heap.size value) (key : MethodKey)
    (wantsValue : Bool) : (m.deliver f link key wantsValue value).Closed := by
  unfold Machine.deliver
  split
  · split
    · exact ⟨closed, (frame.push (live _ rfl)).advance, below⟩
    · exact closed.fail f link nofun
  · exact ⟨closed, frame.advance, below⟩

theorem Closed.enterFrom {receiver : Option Value} (closed : m.Closed)
    (frame : f.Live m.heap.size) (below : link.Live m.heap.size)
    (given : LiveOption m.heap.size receiver)
    (live : ∀ value ∈ args, value.Live m.heap.size) (method : LoadedMethod) (key : MethodKey)
    (wantsValue : Bool) : (m.enterFrom f link method receiver args key wantsValue).Closed := by
  have yields := m.enter_yields method given live
  unfold Machine.enterFrom
  split
  · rename_i m' callee entered
    obtain ⟨same, called⟩ := yields.of_ok entered
    rw [← same.heap] at frame below
    exact ⟨closed.of_same same, called, frame, trivial, below⟩
  · rename_i fault refused
    exact closed.fail f link (yields.of_error refused)

/-! ## Classes -/

/-- A class is used with live references, and leaves some. -/
theorem Closed.use {use : ClassUse} (closed : m.Closed) (frame : f.Live m.heap.size)
    (live : use.Live m.heap.size) :
    (m.use f use).1.Closed ∧ m.heap.size ≤ (m.use f use).1.heap.size ∧
      (m.use f use).2.Live (m.use f use).1.heap.size := by
  cases use with
  | getStatic field =>
      refine ⟨closed, Nat.le_refl _, frame.push ?_⟩
      cases found : m.statics.find? (field.owner, field.name) with
      | some value => exact closed.statics _ value found
      | none => exact Value.live_defaultFor field.descriptor
  | putStatic field value => exact ⟨closed.insert live, Nat.le_refl _, frame⟩
  | new name =>
      have grows := (m.heap.keeps_alloc (.object name .empty)).size
      have fresh := m.heap.lt_size_alloc (.object name .empty)
      refine ⟨closed.withHeap (closed.heap.alloc nofun) grows, grows, ?_⟩
      exact (frame.mono grows).push (Value.live_ref fresh)

theorem Closed.proceed {resume : Resume} (closed : m.Closed) (frame : f.Live m.heap.size)
    (below : link.Live m.heap.size) (live : resume.Live m.heap.size) :
    (m.proceed f link resume).Closed := by
  cases resume with
  | use use =>
      obtain ⟨closed', grows, frame'⟩ := closed.use frame live
      exact ⟨closed', frame'.advance, below.mono grows⟩
  | enter method args wantsValue => exact closed.enterFrom frame below liveOption_none live method _ _

theorem Closed.withClass {resume : Resume} (closed : m.Closed) (frame : f.Live m.heap.size)
    (below : link.Live m.heap.size) (live : resume.Live m.heap.size) (name : String) :
    (m.withClass f link name resume).Closed := by
  have asked := m.withClass_asked f link name resume
  generalize m.withClass f link name resume = p at asked ⊢
  cases asked with
  | failed touch => exact closed.fail f link (grounded_of_touch touch)
  | ready touch =>
      have same := sameStore_of_touch touch
      rw [← same.heap] at frame below live
      exact (closed.of_same same).proceed frame below live
  | @waits m₁ _ initializer callee touch entered =>
      have same := sameStore_of_touch touch
      have entering := m₁.enter_yields initializer liveOption_none (List.forall_mem_nil _)
      obtain ⟨same', called⟩ := entering.of_ok entered
      rw [← same.heap, ← same'.heap] at frame below live
      exact ⟨(closed.of_same same).of_same same', called, frame, live, below⟩
  | @refused m₁ initializer fault touch refused =>
      have same := sameStore_of_touch touch
      have entering := m₁.enter_yields initializer liveOption_none (List.forall_mem_nil _)
      have poisoned : m₁.SameStore (m₁.poison name) := ⟨rfl, rfl⟩
      exact ((closed.of_same same).of_same poisoned).fail f link (entering.of_error refused)

end Machine

/-! ## Bridges -/

/-- A bridge that is given a closed heap and live references replies with a closed heap
that is not smaller and with a live result, if it has one. -/
def LiveBridge (bridge : Bridge ω) : Prop :=
  ∀ (world : ω) (h : Heap) (receiver : Option Value) (args : List Value), h.Closed →
    LiveOption h.size receiver → (∀ value ∈ args, value.Live h.size) →
    (bridge world h receiver args).heap.Closed ∧
      h.size ≤ (bridge world h receiver args).heap.size ∧
      ∀ value, (bridge world h receiver args).outcome = .ok value →
        value.Live (bridge world h receiver args).heap.size

namespace Machine

/-- What is known after the call of a bridge. -/
structure Replies (m m' : Machine ω) (reply : Except Fault (Option Value)) : Prop where
  closed : m'.Closed
  grows : m.heap.size ≤ m'.heap.size
  result : Yields (LiveOption m'.heap.size) reply

theorem Closed.callBridge {bridge : Bridge ω} {receiver : Option Value} (closed : m.Closed)
    (replies : LiveBridge bridge) (given : LiveOption m.heap.size receiver)
    (live : ∀ value ∈ args, value.Live m.heap.size) (key : MethodKey) (descriptor : Descriptor) :
    m.Replies (m.callBridge bridge key descriptor receiver args).1
      (m.callBridge bridge key descriptor receiver args).2 := by
  obtain ⟨heap, grows, result⟩ := replies m.world m.heap receiver args closed.heap given live
  have closed' := closed.withHeap heap grows
  have replied : Closed { m with
      world := (bridge m.world m.heap receiver args).world
      heap := (bridge m.world m.heap receiver args).heap } :=
    closed'.of_same ⟨rfl, rfl⟩
  have consulted := m.callBridge_consulted bridge key descriptor receiver args
  generalize m.callBridge bridge key descriptor receiver args = reply at consulted ⊢
  cases consulted with
  | miscounted => exact ⟨closed, Nat.le_refl _, nofun⟩
  | failed => exact ⟨replied, grows, nofun⟩
  | @answered value answered =>
      refine ⟨replied, grows, ?_⟩
      -- The result of a void method is dropped.
      split
      · exact liveOption_some (result value answered)
      · exact liveOption_none

theorem Closed.call {c : Call} (closed : m.Closed) (bridged : m.Bridged LiveBridge)
    (frame : f.Live m.heap.size) (below : link.Live m.heap.size) (live : c.Live m.heap.size) :
    (m.call f link c).Closed := by
  have given : LiveOption m.heap.size (c.receiver.map Value.ofReference) := by
    intro value eq
    obtain ⟨reference, there, rfl⟩ := Option.map_eq_some_iff.1 eq
    exact live.receiver reference there
  have called := m.call_called f link c
  generalize m.call f link c = p at called ⊢
  cases called with
  | answered found answered =>
      have replies := closed.callBridge (bridged c.key _ found) given live.args c.key c.descriptor
      rw [answered] at replies
      exact replies.closed.deliver (frame.mono replies.grows) (below.mono replies.grows)
        replies.result c.key _
  | failed found failed =>
      have replies := closed.callBridge (bridged c.key _ found) given live.args c.key c.descriptor
      rw [failed] at replies
      exact replies.closed.fail f link replies.result
  | static =>
      refine closed.withClass frame below ?_ c.key.owner
      exact live.args
  | @special _ index _ _ object =>
      have given' := liveOption_some (live.receiver (some index) object)
      exact closed.enterFrom frame below given' live.args _ _ _
  | refused _ refusal => exact closed.fail f link (grounded_of_refusal refusal)

/-! ## Steps -/

theorem Closed.resume (closed : m.Closed) (below : link.Live m.heap.size)
    (live : LiveOption m.heap.size value) : (link.resume m value).Closed := by
  cases link with
  | host => exact Progress.closed_ok closed live
  | hostInitializer name target args =>
      have yields := m.enter_yields target liveOption_none below
      rw [Link.resume]
      split
      · rename_i m' callee entered
        obtain ⟨same, called⟩ := yields.of_ok entered
        exact ⟨closed.of_same same, called, trivial⟩
      · rename_i fault refused
        exact Progress.closed_error closed (yields.of_error refused)
  | caller g await link =>
      obtain ⟨frame, waits, below⟩ := below
      cases await with
      | call key wantsValue => exact closed.deliver frame below live key wantsValue
      | initializer name resume => exact closed.proceed frame below waits

theorem Closed.apply {effect : Effect} (closed : m.Closed) (bridged : m.Bridged LiveBridge)
    (below : link.Live m.heap.size) (live : effect.Live m.heap.size) :
    (m.apply link effect).Closed := by
  cases effect with
  | next g => exact ⟨closed, live.advance, below⟩
  | allocate g object =>
      obtain ⟨frame, fresh⟩ := live
      have grows := (m.heap.keeps_alloc object).size
      have bound := m.heap.lt_size_alloc object
      refine ⟨closed.withHeap (closed.heap.alloc fresh) grows, ?_, below.mono grows⟩
      exact ((frame.mono grows).push (Value.live_ref bound)).advance
  | constant g literal =>
      obtain ⟨heap, fresh⟩ := closed.heap.constant literal
      -- A string that is not yet interned is a new object, so the heap may grow here too.
      obtain ⟨events, does⟩ := m.heap.does_constant literal
      have grows := does.keeps.size
      refine ⟨closed.withHeap heap grows, ?_, below.mono grows⟩
      exact ((live.mono grows).push fresh).advance
  | write g index w =>
      obtain ⟨frame, fresh⟩ := live
      have grows := (m.heap.keeps_write index w).size
      refine ⟨closed.withHeap (closed.heap.write fresh index) grows, ?_, below.mono grows⟩
      exact (frame.mono grows).advance
  | jump g target =>
      exact ⟨closed.of_same ⟨rfl, rfl⟩, ⟨live.stack, live.locals, live.receiver⟩, below⟩
  | leave value =>
      have left : m.SameStore m.leave := ⟨rfl, rfl⟩
      exact (closed.of_same left).resume below live
  | touch g name use =>
      obtain ⟨frame, used⟩ := live
      refine closed.withClass frame below ?_ name
      exact used
  | call g c =>
      obtain ⟨frame, called⟩ := live
      exact closed.call bridged frame below called

/-- **A step leaves a closed program.** -/
theorem closed_step (bridged : m.Bridged LiveBridge)
    (closed : (Progress.running m f link).Closed) : (m.step f link).Closed := by
  obtain ⟨machine, frame, below⟩ := closed
  cases current : f.insn? with
  | none =>
      rw [step_of_insn?_none current]
      exact machine.failAt f.method _ link nofun
  | some insn =>
      by_cases spent : m.Spent
      · obtain ⟨budget, limited, reached⟩ := spent
        rw [step_of_spent current limited reached]
        exact machine.fail f link nofun
      · have counted : m.SameStore m.counted := ⟨rfl, rfl⟩
        have machine' := machine.of_same counted
        have yields := insn.execute_yields machine'.heap frame
        rw [step_of_not_spent current spent, perform]
        cases done : insn.execute m.counted.heap f with
        | error fault => exact machine'.fail f link (yields.of_error done)
        | ok effect => exact machine'.apply bridged below (yields.of_ok done)

/-! ## Calls of the host -/

theorem Closed.startMethod (closed : m.Closed) (live : ∀ value ∈ args, value.Live m.heap.size)
    (owner : String) (target : LoadedMethod) : (m.startMethod owner target args).Closed := by
  have asked := m.startMethod_asked owner target args
  generalize m.startMethod owner target args = p at asked ⊢
  cases asked with
  | failed touch => exact Progress.closed_error closed (grounded_of_touch touch)
  | ready touch =>
      have same := sameStore_of_touch touch
      rw [← same.heap] at live
      exact (closed.of_same same).resume live liveOption_none
  | @waits m₁ _ initializer callee touch entered =>
      have same := sameStore_of_touch touch
      have entering := m₁.enter_yields initializer liveOption_none (List.forall_mem_nil _)
      obtain ⟨same', called⟩ := entering.of_ok entered
      rw [← same.heap, ← same'.heap] at live
      exact ⟨(closed.of_same same).of_same same', called, live⟩
  | @refused m₁ initializer fault touch refused =>
      have same := sameStore_of_touch touch
      have entering := m₁.enter_yields initializer liveOption_none (List.forall_mem_nil _)
      have poisoned : m₁.SameStore (m₁.poison owner) := ⟨rfl, rfl⟩
      exact Progress.closed_error ((closed.of_same same).of_same poisoned)
        (entering.of_error refused)

theorem Closed.start (closed : m.Closed) (bridged : m.Bridged LiveBridge)
    (live : ∀ value ∈ args, value.Live m.heap.size) (className method descriptor : String) :
    (m.start className method descriptor args).Closed := by
  have called := m.start_called className method descriptor args
  generalize m.start className method descriptor args = p at called ⊢
  cases called with
  | malformed => exact Progress.closed_error closed nofun
  | @answered parsed _ _ _ _ found answered =>
      have replies := closed.callBridge (bridged _ _ found) liveOption_none live
        (.of className method descriptor) parsed
      rw [answered] at replies
      exact Progress.closed_ok replies.closed replies.result
  | @failed parsed _ _ _ _ found failed =>
      have replies := closed.callBridge (bridged _ _ found) liveOption_none live
        (.of className method descriptor) parsed
      rw [failed] at replies
      exact Progress.closed_error replies.closed replies.result
  | static => exact closed.startMethod live _ _
  | refused _ _ refusal => exact Progress.closed_error closed (grounded_of_refusal refusal)

end Machine

/-! ## Lifetimes -/

/-- A host that passes and stores live references only, leaves the heap closed and not
smaller than before, and sets bridges that do. -/
def HostAction.StaysLive (m : Machine ω) : HostAction ω → Prop
  | .setBridge _ _ _ bridge => LiveBridge bridge
  | .setStatic _ _ value => value.Live m.heap.size
  | .setHeap heap => heap.Closed ∧ m.heap.size ≤ heap.size
  | .setWorld _ => True
  | .call _ _ _ args => ∀ value ∈ args, value.Live m.heap.size

theorem HostAction.StaysLive.bridged {action : HostAction ω} (stays : action.StaysLive m) :
    action.Bridged LiveBridge := by
  cases action with
  | setBridge => exact stays
  | _ => trivial

namespace Progress

theorem closed_fresh (table : ClassTable) (limits : Limits) (world : ω) :
    (fresh table limits world).Closed :=
  closed_ok ⟨Heap.closed_empty, nofun⟩ liveOption_none

theorem Closed.machine (closed : p.Closed) : p.machine.Closed := by
  cases p <;> exact closed.1

theorem Closed.frames (closed : p.Closed) : ∀ f ∈ p.frames, f.Live p.machine.heap.size := by
  cases p with
  | running m f link => exact List.forall_mem_cons.2 ⟨closed.2.1, closed.2.2.frames⟩
  | finished m outcome => nofun

theorem Next.closed (next : p.Next HostAction.StaysLive q)
    (bridged : p.machine.Bridged LiveBridge) (closed : p.Closed) : q.Closed := by
  cases next with
  | step m f link => exact Machine.closed_step bridged closed
  | @act m action outcome allows =>
      have machine : m.Closed := closed.machine
      cases action with
      | setBridge => exact closed_ok (machine.of_same ⟨rfl, rfl⟩) liveOption_none
      | setStatic className field value => exact closed_ok (machine.insert allows) liveOption_none
      | setHeap heap => exact closed_ok (machine.withHeap allows.1 allows.2) liveOption_none
      | setWorld => exact closed_ok (machine.of_same ⟨rfl, rfl⟩) liveOption_none
      | call className method descriptor args =>
          exact machine.start bridged allows className method descriptor

/-- **No reference dangles.** The host passes and stores live references only, and its
bridges reply with live references to live references. Then in every state of every
lifetime

* every reference in the heap, in the static fields and in the frames at work is live,
  and so is the index of every interned object;
* the value that a call returns is live;
* a call that fails does not fail for a reference that leads to no object. (The failure
  of a bridge has a fault of its own, whatever the bridge says.) -/
theorem Lives.nothing_dangles {table : ClassTable} {limits : Limits} {world : ω}
    (lives : (fresh table limits world).Lives HostAction.StaysLive p) :
    p.machine.Closed ∧ (∀ f ∈ p.frames, f.Live p.machine.heap.size) ∧
    (∀ m value, p = .finished m (.ok (some value)) → value.Live m.heap.size) ∧
    ∀ m e, p = .finished m (.error e) → ∀ expected, e.fault ≠ .wrongObject expected none := by
  have root : LiveBridge (ω := ω) fun world heap _ _ => ⟨world, heap, .ok .null⟩ := by
    intro world h receiver args closed _ _
    refine ⟨closed, Nat.le_refl _, ?_⟩
    rintro _ ⟨⟩
    exact Value.live_null
  have closed : p.Closed :=
    lives.invariant (closed_fresh table limits world) fun _ _ before closed next =>
      next.closed (Lives.bridged root (fun _ _ => HostAction.StaysLive.bridged) before) closed
  refine ⟨closed.machine, closed.frames, ?_, ?_⟩
  · rintro m value rfl
    exact closed.2.1 _ rfl value rfl
  · rintro m e rfl
    exact closed.2.2 e rfl

end Progress

/-- A class with a method that stores its argument in a static field and in a new array,
which it gives. -/
def holderClass : ClassCode where
  name := "Holder"
  superName := "java/lang/Object"
  methods :=
    [{ plainMethod "hold" "(Ljava/lang/String;)[Ljava/lang/String;"
        [⟨0, .load .ref, [.slot 0], none⟩,
          ⟨1, .putStatic, [.field ⟨"Holder", "held", "Ljava/lang/String;"⟩], none⟩,
          ⟨4, .iconst, [.int 1], none⟩,
          ⟨5, .anewArray, [.classRef "java/lang/String"], none⟩,
          ⟨8, .dup, [], none⟩,
          ⟨9, .iconst, [.int 0], none⟩,
          ⟨10, .load .ref, [.slot 0], none⟩,
          ⟨11, .arrayStore .ref, [], none⟩,
          ⟨12, .returnValue .ref, [], none⟩] with maxLocals := 1 }]

/-- The table with that class alone. -/
def holderTable : ClassTable :=
  (ClassTable.load [holderClass]).toOption.getD .empty

/-- The host passes a string, and what the method gives and stores is live. -/
theorem holder_nothing_dangles :
    ∃ m : Machine Unit,
      (Progress.fresh holderTable {} ()).Lives HostAction.StaysLive
        (.finished m (.ok (some (.ref 1)))) ∧
      m.statics.find? ("Holder", "held") = some (.ref 0) ∧
      m.heap.get? 1 = some (.refs "java/lang/String" (.ofList [.ref 0])) ∧
      m.Closed ∧ (Value.ref 1).Live m.heap.size := by
  have interned := Heap.closed_empty.intern "given"
  have fresh : (Progress.fresh holderTable {} ()).Lives HostAction.StaysLive
      (.finished (.create holderTable {} ()) (.ok none)) := .refl
  have given := fresh.act (.setHeap (Heap.empty.intern "given").2) ⟨interned.1, Nat.zero_le _⟩
  let call : HostAction Unit :=
    .call "Holder" "hold" "(Ljava/lang/String;)[Ljava/lang/String;" [.ref 0]
  have called := given.act call (List.forall_mem_singleton.2 (Value.live_ref interned.2))
  obtain ⟨m, ends, static, array⟩ : ∃ m,
      Progress.Ends (call.act { Machine.create holderTable {} () with
        heap := (Heap.empty.intern "given").2 }) m (.ok (some (.ref 1))) ∧
      m.statics.find? ("Holder", "held") = some (.ref 0) ∧
      m.heap.get? 1 = some (.refs "java/lang/String" (.ofList [.ref 0])) :=
    ⟨_, ⟨9, rfl⟩, rfl, rfl⟩
  have lives : (Progress.fresh holderTable {} ()).Lives HostAction.StaysLive
      (.finished m (.ok (some (.ref 1)))) := called.trans (Progress.Reaches.lives ends)
  obtain ⟨closed, _, result, _⟩ := lives.nothing_dangles
  exact ⟨m, lives, static, array, closed, result m (.ref 1) rfl⟩

end ClassMachine
