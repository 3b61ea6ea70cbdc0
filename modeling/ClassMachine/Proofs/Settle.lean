import ClassMachine.Proofs.Dispatch
import ClassMachine.Proofs.Faults

/-!
# Instructions that stay in their frame or wait

An instruction that neither jumps nor returns leaves its frame in one of three
ways: the frame goes on to the next instruction, or it waits for a new frame
above it, or the instruction fails and the whole call of the host ends.

* `Machine.Keeps`: what the work of an instruction leaves alone in a machine.
* `Machine.failAt_eq`: what becomes of a program whose instruction fails.
* `Frame.Calls` and `Link.Linked`: every waiting frame stands at an instruction
  that leads to the method of the frame above it.
* `Settles`: the three ways, with what is known in each of them.
-/

namespace ClassMachine

variable {ω : Type} {m m' m'' : Machine ω} {f g callee : Frame} {link : Link}
  {p : Progress ω} {insn : Instruction}

/-! ## Machines -/

/-- What the work of an instruction leaves alone. -/
structure Machine.Keeps (m m' : Machine ω) : Prop where
  classes : m'.classes = m.classes
  bridges : m'.bridges = m.bridges
  limits : m'.limits = m.limits
  executed : m'.profile.executed = m.profile.executed
  depth : m'.depth = m.depth

namespace Machine

theorem Keeps.refl (m : Machine ω) : m.Keeps m :=
  ⟨rfl, rfl, rfl, rfl, rfl⟩

theorem Keeps.trans (left : m.Keeps m') (right : m'.Keeps m'') : m.Keeps m'' :=
  ⟨right.classes.trans left.classes, right.bridges.trans left.bridges,
    right.limits.trans left.limits, right.executed.trans left.executed,
    right.depth.trans left.depth⟩

/-- The machine with another number of frames at work. -/
def atDepth (m : Machine ω) (depth : Nat) : Machine ω :=
  { m with depth }

theorem Keeps.atDepth (keeps : m.Keeps m') (depth : Nat) :
    (m.atDepth depth).Keeps (m'.atDepth depth) :=
  ⟨keeps.classes, keeps.bridges, keeps.limits, keeps.executed, rfl⟩

theorem keeps_poison (m : Machine ω) (name : String) : m.Keeps (m.poison name) :=
  ⟨rfl, rfl, rfl, rfl, rfl⟩

theorem keeps_use (m : Machine ω) (f : Frame) (use : ClassUse) : m.Keeps (m.use f use).1 := by
  cases use <;> exact ⟨rfl, rfl, rfl, rfl, rfl⟩

theorem alike_use (m : Machine ω) (f : Frame) (use : ClassUse) : f.Alike (m.use f use).2 := by
  cases use <;> exact ⟨rfl, rfl, rfl, rfl⟩

theorem keeps_callBridge (m : Machine ω) (bridge : Bridge ω) (key : MethodKey)
    (descriptor : Descriptor) (receiver : Option Value) (args : List Value) :
    m.Keeps (m.callBridge bridge key descriptor receiver args).1 := by
  have consulted := m.callBridge_consulted bridge key descriptor receiver args
  generalize m.callBridge bridge key descriptor receiver args = result at consulted ⊢
  cases consulted <;> exact ⟨rfl, rfl, rfl, rfl, rfl⟩

/-- The key of the initializer of a class. -/
def initializerKey (name : String) : MethodKey :=
  .of name "<clinit>" "()V"

/-- Making a class ready records that its initializer starts. -/
theorem touch_cases {name : String} {initializer : Option LoadedMethod}
    (touched : m.touch name = .ok (m', initializer)) :
    m.Keeps m' ∧ ∀ method, initializer = some method →
      m.classes.method? (initializerKey name) = some method := by
  cases touched_of_touch touched with
  | ready => exact ⟨.refl m, nofun⟩
  | @noted c _ _ _ found recorded =>
      refine ⟨⟨rfl, rfl, rfl, rfl, rfl⟩, fun method eq => ?_⟩
      unfold ClassTable.class? at found
      simp only [ClassTable.method?, initializerKey, MethodKey.of, found]
      exact recorded.trans eq

end Machine

/-! ## New frames -/

namespace Frame

theorem alike_of_placeArgs {types : List Ty} {values : List Value} {slot : Nat}
    (placed : f.placeArgs slot types values = .ok g) : f.Alike g := by
  induction types generalizing f slot values with
  | nil =>
      cases placed
      exact .refl _
  | cons ty types ih =>
      cases values with
      | nil =>
          cases placed
          exact .refl _
      | cons value values =>
          simp only [placeArgs, bind_eq_ok] at placed
          obtain ⟨_, _, f₁, stored, placed⟩ := placed
          exact (alike_of_store stored).trans (ih placed)

theorem placeReceiver_eq_ok {receiver : Option Value} {slot : Nat}
    (placed : f.placeReceiver receiver = .ok (slot, g)) :
    g.method = f.method ∧ g.ip = f.ip := by
  unfold placeReceiver at placed
  split at placed
  · cases placed
    exact ⟨rfl, rfl⟩
  · obtain ⟨f₁, stored, placed⟩ := bind_eq_ok.1 placed
    cases placed
    have alike := alike_of_store stored
    exact ⟨alike.method, alike.ip⟩
  · cases placed

/-- A call starts at the first instruction of its method. -/
theorem enter_eq_ok {method : LoadedMethod} {receiver : Option Value} {args : List Value}
    (entered : Frame.enter method receiver args = .ok f) : f.method = method ∧ f.ip = 0 := by
  unfold Frame.enter at entered
  split at entered
  · cases entered
  · obtain ⟨⟨slot, f₁⟩, received, placed⟩ := bind_eq_ok.1 entered
    obtain ⟨method, ip⟩ := placeReceiver_eq_ok received
    have alike := alike_of_placeArgs placed
    exact ⟨alike.method.trans method, alike.ip.trans ip⟩

end Frame

/-- A method is entered if there is room for one more frame. -/
theorem Machine.enter_eq_ok {method : LoadedMethod} {receiver : Option Value}
    {args : List Value} (entered : m.enter method receiver args = .ok (m', f)) :
    m' = m.atDepth (m.depth + 1) ∧ m.depth < m.limits.maxDepth ∧ f.method = method ∧
      f.ip = 0 := by
  unfold Machine.enter at entered
  split at entered
  · cases entered
  · rename_i room
    obtain ⟨frame, entered, done⟩ := bind_eq_ok.1 entered
    cases done
    obtain ⟨method, ip⟩ := Frame.enter_eq_ok entered
    exact ⟨rfl, by omega, method, ip⟩

/-! ## Failure -/

@[simp]
theorem Link.frames_host : Link.host.frames = [] :=
  rfl

@[simp]
theorem Link.frames_hostInitializer (name : String) (target : LoadedMethod) (args : List Value) :
    (Link.hostInitializer name target args).frames = [] :=
  rfl

@[simp]
theorem Link.frames_caller (f : Frame) (await : Await) (link : Link) :
    (Link.caller f await link).frames = f :: link.frames :=
  rfl

/-- On the way out every waiting frame adds its instruction and ends. -/
theorem Link.unwind_eq (link : Link) (m : Machine ω) (fault : Fault) (location : Location)
    (callers : List Location) :
    ∃ m', link.unwind m ⟨fault, some location, callers⟩ = .finished m'
        (.error ⟨fault, some location, callers ++ link.frames.map Frame.location⟩) ∧
      (m.atDepth (m.depth - (link.frames.length + 1))).Keeps m' := by
  induction link generalizing m callers with
  | host =>
      rw [frames_host, List.map_nil, List.append_nil]
      exact ⟨m.leave, rfl, .refl _⟩
  | hostInitializer name target args =>
      rw [frames_hostInitializer, List.map_nil, List.append_nil]
      exact ⟨m.leave.poison name, rfl, m.leave.keeps_poison name⟩
  | caller f await link ih =>
      -- A failed initializer also marks its class, which no later frame sees.
      obtain ⟨m₁, left, unwound⟩ : ∃ m₁, m.leave.Keeps m₁ ∧
          (Link.caller f await link).unwind m ⟨fault, some location, callers⟩ =
            link.unwind m₁ ⟨fault, some location, callers ++ [f.location]⟩ := by
        cases await with
        | call key wantsValue => exact ⟨m.leave, .refl _, rfl⟩
        | initializer name resume => exact ⟨m.leave.poison name, m.leave.keeps_poison name, rfl⟩
      obtain ⟨m', ends, keeps⟩ := ih m₁ (callers ++ [f.location])
      refine ⟨m', ?_, ?_⟩
      · rw [unwound, ends, frames_caller, List.map_cons, List.append_assoc, List.singleton_append]
      · have depth : m₁.depth - (link.frames.length + 1) =
            m.depth - ((Link.caller f await link).frames.length + 1) := by
          have := left.depth
          simp only [Machine.leave] at this
          simp only [frames_caller, List.length_cons]
          omega
        rw [← depth]
        exact (left.atDepth _).trans keeps

namespace Machine

/-- A fault at an instruction of the method at work ends the call of the host. The
error names that instruction and those at which the other frames wait. -/
theorem failAt_eq (m : Machine ω) (method : LoadedMethod) (index : Nat) (link : Link)
    (fault : Fault) :
    ∃ m', m.failAt method index link fault = .finished m'
        (.error ⟨fault, some (.of method index), link.frames.map Frame.location⟩) ∧
      (m.atDepth (m.depth - (link.frames.length + 1))).Keeps m' :=
  link.unwind_eq m fault (.of method index) []

/-- A failure is reported at the place of the frame, whatever its operands are. -/
theorem fail_alike (alike : f.Alike g) (m : Machine ω) (link : Link) (fault : Fault) :
    m.fail g link fault = m.fail f link fault := by
  rw [fail, fail, alike.method, alike.ip]

/-! ## The faults of calls -/

open Fault (OfInstruction)

theorem enter_fails (m : Machine ω) (method : LoadedMethod) (receiver : Option Value)
    (args : List Value) : FailsWith OfInstruction (m.enter method receiver args) := by
  simp [enter, Frame.enter_fails, OfInstruction]

theorem touch_fails (m : Machine ω) (name : String) : FailsWith OfInstruction (m.touch name) := by
  intro fault touch
  cases touched_of_touch touch with
  | refused => exact ⟨nofun, nofun⟩

theorem ofInstruction_of_refusal {key : MethodKey} {fault : Fault}
    (refusal : fault ∈ key.refusals) : fault.OfInstruction := by
  simp only [MethodKey.refusals, List.mem_cons, List.not_mem_nil, or_false] at refusal
  rcases refusal with rfl | rfl | rfl | rfl | rfl <;> simp [Fault.OfInstruction]

/-- Whatever a bridge reports, the machine fails with a failure of the bridge. -/
theorem callBridge_fails {bridge : Bridge ω} {key : MethodKey} {descriptor : Descriptor}
    {receiver : Option Value} {args : List Value} {fault : Fault}
    (failed : m.callBridge bridge key descriptor receiver args = (m', .error fault)) :
    fault.OfInstruction := by
  have consulted := m.callBridge_consulted bridge key descriptor receiver args
  rw [failed] at consulted
  cases consulted <;> exact ⟨nofun, nofun⟩

end Machine

/-! ## Linked frames -/

/-- The instruction that a frame is at. -/
def Frame.insn? (f : Frame) : Option Instruction :=
  f.method.code.instructions[f.ip]?

theorem Frame.Alike.insn? (alike : f.Alike g) : g.insn? = f.insn? := by
  rw [Frame.insn?, Frame.insn?, alike.method, alike.ip]

/-- The table holds the method under some key. -/
def ClassTable.Has (t : ClassTable) (method : LoadedMethod) : Prop :=
  ∃ key, t.method? key = some method

/-- An instruction that can put a frame of the method with that key above its own:
by a call of it, or as the initializer of the class that it touches. -/
def Instruction.LeadsTo (insn : Instruction) (key : MethodKey) : Prop :=
  insn.called? = some key ∨ ∃ name, insn.touched? = some name ∧ key = Machine.initializerKey name

/-- The frame stands at an instruction that leads to the method. -/
def Frame.Calls (classes : ClassTable) (f : Frame) (method : LoadedMethod) : Prop :=
  ∃ insn key, f.insn? = some insn ∧ insn.LeadsTo key ∧ classes.method? key = some method

/-- What a waiting frame will do is what its instruction asks for: a static call
held up by an initializer enters the method that it names. -/
def Frame.Awaits (classes : ClassTable) (f : Frame) : Await → Prop
  | .initializer _ (.enter method _ _) =>
    ∃ insn key, f.insn? = some insn ∧ insn.called? = some key ∧
      classes.method? key = some method
  | _ => True

/-- Every frame of the link stands at an instruction that leads to the method of the
frame above it, the first one at one that leads to the given method. -/
def Link.Linked (classes : ClassTable) : LoadedMethod → Link → Prop
  | method, .host => classes.Has method
  | method, .hostInitializer _ target _ => classes.Has method ∧ classes.Has target
  | method, .caller f await link =>
    f.Calls classes method ∧ f.Awaits classes await ∧ link.Linked classes f.method

/-- Whatever is at work is a loaded method. -/
theorem Link.Linked.has {classes : ClassTable} {method : LoadedMethod}
    (linked : link.Linked classes method) : classes.Has method := by
  cases link with
  | host => exact linked
  | hostInitializer name target args => exact linked.1
  | caller f await link =>
      obtain ⟨insn, key, _, _, found⟩ := linked.1
      exact ⟨key, found⟩

/-- Every waiting frame stands at an instruction of a loaded method. -/
theorem Link.Linked.waiting {classes : ClassTable} {method : LoadedMethod}
    (linked : link.Linked classes method) :
    ∀ f ∈ link.frames, classes.Has f.method ∧ ∃ insn, f.insn? = some insn := by
  induction link generalizing method with
  | host => nofun
  | hostInitializer name target args => nofun
  | caller g await link ih =>
      obtain ⟨⟨insn, key, current, _⟩, _, below⟩ := linked
      rw [frames_caller, List.forall_mem_cons]
      exact ⟨⟨below.has, insn, current⟩, ih below⟩

/-- Every frame below the one at work leads to the method of the frame above it. -/
theorem Link.Linked.calls {classes : ClassTable} (linked : link.Linked classes f.method)
    {i : Nat} {above below : Frame} (upper : (f :: link.frames)[i]? = some above)
    (lower : (f :: link.frames)[i + 1]? = some below) : below.Calls classes above.method := by
  induction link generalizing f i with
  | host => cases lower
  | hostInitializer name target args => cases lower
  | caller g await link ih =>
      obtain ⟨calls, _, linked⟩ := linked
      cases i with
      | zero =>
          cases upper
          cases lower
          exact calls
      | succ i => exact ih linked upper lower

/-! ## Instructions that stay in their frame or wait -/

/-- What the current instruction of a frame comes to, unless it jumps or returns. -/
inductive Settles (m : Machine ω) (f : Frame) (link : Link) : Progress ω → Prop
  /-- The frame goes on to its next instruction. -/
  | advance {m' : Machine ω} {g : Frame} :
    m.Keeps m' → f.Alike g → Settles m f link (.running m' g.advance link)
  /-- The frame waits for a new frame above it. -/
  | enter {m' : Machine ω} {g callee : Frame} {await : Await} :
    m.Keeps m' → m.depth < m.limits.maxDepth → f.Alike g → callee.ip = 0 →
    g.Calls m.classes callee.method → g.Awaits m.classes await →
    Settles m f link (.running (m'.atDepth (m.depth + 1)) callee (.caller g await link))
  /-- The instruction fails. -/
  | fail {m' : Machine ω} {fault : Fault} :
    fault.OfInstruction → m.Keeps m' → Settles m f link (m'.fail f link fault)

namespace Settles

theorem of_keeps (keeps : m.Keeps m') (settles : Settles m' f link p) : Settles m f link p := by
  cases settles with
  | advance kept alike => exact .advance (keeps.trans kept) alike
  | @enter m'' g callee await kept room alike fresh calls awaits =>
      rw [keeps.depth, keeps.limits] at room
      rw [keeps.classes] at calls awaits
      rw [keeps.depth]
      exact .enter (keeps.trans kept) room alike fresh calls awaits
  | fail kind kept => exact .fail kind (keeps.trans kept)

theorem of_alike (alike : f.Alike g) (settles : Settles m g link p) : Settles m f link p := by
  cases settles with
  | advance kept alike' => exact .advance kept (alike.trans alike')
  | enter kept room alike' fresh calls awaits =>
      exact .enter kept room (alike.trans alike') fresh calls awaits
  | fail kind kept =>
      rw [Machine.fail_alike alike]
      exact .fail kind kept

end Settles

namespace Machine

theorem deliver_settles (m : Machine ω) (f : Frame) (link : Link) (key : MethodKey)
    (wantsValue : Bool) (value : Option Value) :
    Settles m f link (m.deliver f link key wantsValue value) := by
  unfold deliver
  split
  · split
    · exact .advance (.refl m) (f.alike_push _)
    · exact .fail ⟨nofun, nofun⟩ (.refl m)
  · exact .advance (.refl m) (.refl f)

theorem enterFrom_settles {method : LoadedMethod} (calls : f.Calls m.classes method)
    (receiver : Option Value) (args : List Value) (key : MethodKey) (wantsValue : Bool) :
    Settles m f link (m.enterFrom f link method receiver args key wantsValue) := by
  unfold enterFrom
  split
  · rename_i m' callee entered
    obtain ⟨rfl, room, rfl, fresh⟩ := enter_eq_ok entered
    exact .enter (.refl m) room (.refl f) fresh calls trivial
  · rename_i fault refused
    exact .fail (m.enter_fails method receiver args fault refused) (.refl m)

theorem proceed_settles {name : String} {resume : Resume}
    (awaits : f.Awaits m.classes (.initializer name resume)) :
    Settles m f link (m.proceed f link resume) := by
  cases resume with
  | use use => exact .advance (m.keeps_use f use) (m.alike_use f use)
  | enter method args wantsValue =>
      obtain ⟨insn, key, current, called, found⟩ := awaits
      exact enterFrom_settles ⟨insn, key, current, Or.inl called, found⟩ none args method.key
        wantsValue

theorem withClass_settles {name : String} {resume : Resume} (current : f.insn? = some insn)
    (touched : insn.touched? = some name)
    (awaits : f.Awaits m.classes (.initializer name resume)) :
    Settles m f link (m.withClass f link name resume) := by
  have asked := m.withClass_asked f link name resume
  generalize m.withClass f link name resume = p at asked ⊢
  cases asked with
  | failed touch => exact .fail (m.touch_fails name _ touch) (.refl m)
  | ready touch =>
      have keeps := (touch_cases touch).1
      rw [← keeps.classes] at awaits
      exact (proceed_settles awaits).of_keeps keeps
  | @waits m₁ _ initializer callee touch entered =>
      obtain ⟨keeps, recorded⟩ := touch_cases touch
      obtain ⟨rfl, room, rfl, fresh⟩ := enter_eq_ok entered
      have found := recorded _ rfl
      rw [← keeps.classes] at awaits found
      have calls : f.Calls m₁.classes callee.method :=
        ⟨insn, initializerKey name, current, Or.inr ⟨name, touched, rfl⟩, found⟩
      exact Settles.of_keeps keeps (.enter (.refl m₁) room (.refl f) fresh calls awaits)
  | @refused m₁ initializer fault touch refused =>
      have keeps := (touch_cases touch).1
      exact .fail (m₁.enter_fails initializer none [] fault refused)
        (keeps.trans (m₁.keeps_poison name))

theorem call_settles {c : Call} {ref : MemberRef} (current : f.insn? = some insn)
    (opcode : insn.opcode = .invoke c.mode) (operand : insn.operand? 0 = some (.method ref))
    (key : c.key = .of ref.owner ref.name ref.descriptor) :
    Settles m f link (m.call f link c) := by
  have keeps (bridge : Bridge ω) :=
    m.keeps_callBridge bridge c.key c.descriptor (c.receiver.map .ofReference) c.args
  -- A call that reaches code names the method that it enters.
  have named (reached : c.mode = .static ∨ c.mode = .special) : insn.called? = some c.key := by
    rcases reached with mode | mode <;> rw [mode] at opcode <;>
      rw [Instruction.called?, opcode, operand, key]
  have called := m.call_called f link c
  generalize m.call f link c = p at called ⊢
  cases called with
  | @answered bridge m₁ value _ answered =>
      have kept := keeps bridge
      rw [answered] at kept
      exact (deliver_settles m₁ f link c.key _ value).of_keeps kept
  | @failed bridge m₁ fault _ failed =>
      have kept := keeps bridge
      rw [failed] at kept
      exact .fail (callBridge_fails failed) kept
  | static _ static found =>
      have touched : insn.touched? = some c.key.owner := by
        rw [static] at opcode
        rw [Instruction.touched?, opcode, operand, key]
        rfl
      have loaded := method?_of_staticMethod found
      exact withClass_settles current touched
        ⟨insn, c.key, current, named (Or.inl static), loaded⟩
  | special _ special _ found =>
      have loaded := method?_of_instanceMethod found
      exact enterFrom_settles
        ⟨insn, c.key, current, Or.inl (named (Or.inr special)), loaded⟩ _ _ _ _
  | refused _ refusal => exact .fail (ofInstruction_of_refusal refusal) (.refl m)

end Machine

end ClassMachine
