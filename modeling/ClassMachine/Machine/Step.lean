import ClassMachine.Machine.State

/-!
# Steps of a program

`Machine.step` carries out one instruction of the frame at work, with all that
follows from it at once: entering and leaving frames, starting the initializer
of a class and taking up the instruction that waited for it. Every step counts
one instruction or ends the program.

A fault ends the whole call of the host. On the way out every waiting frame
adds its instruction to the error, and a class whose initializer is cut short
is marked as failed.
-/

namespace ClassMachine

variable {ω : Type}

/-! ## Failure -/

/-- Ends the frame above a link with an error, and all frames of the link. -/
def Link.unwind : Link → Machine ω → RuntimeError → Progress ω
  | .host, m, e => .finished m.leave (.error e)
  | .hostInitializer name _ _, m, e => .finished (m.leave.poison name) (.error e)
  | .caller f (.call _ _) link, m, e => link.unwind m.leave (e.locate f.location)
  | .caller f (.initializer name _) link, m, e =>
    link.unwind (m.leave.poison name) (e.locate f.location)

namespace Machine

/-- An instruction of the method at work fails. -/
def failAt (m : Machine ω) (method : LoadedMethod) (index : Nat) (link : Link) (fault : Fault) :
    Progress ω :=
  link.unwind m (RuntimeError.locate { fault } (Location.of method index))

/-- The current instruction of the frame at work fails. -/
def fail (m : Machine ω) (f : Frame) (link : Link) (fault : Fault) : Progress ω :=
  m.failAt f.method f.ip link fault

/-! ## Calls -/

/-- Hands the result of a call to the frame that made it. -/
def deliver (m : Machine ω) (f : Frame) (link : Link) (key : MethodKey) (wantsValue : Bool)
    (value : Option Value) : Progress ω :=
  if wantsValue then
    match value with
    | some value => .running m (f.push value).advance link
    | none => m.fail f link (.noResult key)
  else .running m f.advance link

/-- Enters a method from a frame, which then waits for the result. -/
def enterFrom (m : Machine ω) (f : Frame) (link : Link) (method : LoadedMethod)
    (receiver : Option Value) (args : List Value) (key : MethodKey) (wantsValue : Bool) :
    Progress ω :=
  match m.enter method receiver args with
  | .ok (m, callee) => .running m callee (.caller f (.call key wantsValue) link)
  | .error fault => m.fail f link fault

/-- Takes up an instruction whose class is ready. -/
def proceed (m : Machine ω) (f : Frame) (link : Link) : Resume → Progress ω
  | .use use =>
    let (m, f) := m.use f use
    .running m f.advance link
  | .enter method args wantsValue => m.enterFrom f link method none args method.key wantsValue

/-- Makes a class ready and takes up the instruction that asked for it, at once or
after the initializer. -/
def withClass (m : Machine ω) (f : Frame) (link : Link) (name : String) (resume : Resume) :
    Progress ω :=
  match m.touch name with
  | .error fault => m.fail f link fault
  | .ok (m, none) => m.proceed f link resume
  | .ok (m, some initializer) =>
    match m.enter initializer none [] with
    | .ok (m, callee) => .running m callee (.caller f (.initializer name resume) link)
    | .error fault => (m.poison name).fail f link fault

/-- Carries out a call. A bridge goes before a loaded method; only static and
special calls reach loaded methods. -/
def call (m : Machine ω) (f : Frame) (link : Link) (c : Call) : Progress ω :=
  let wantsValue := c.descriptor.returnsValue
  match m.bridges.find? c.key with
  | some bridge =>
    let receiver := c.receiver.map Value.ofReference
    match m.callBridge bridge c.key c.descriptor receiver c.args with
    | (m, .ok value) => m.deliver f link c.key wantsValue value
    | (m, .error fault) => m.fail f link fault
  | none =>
    match c.mode, c.receiver with
    | .static, _ =>
      match m.staticMethod c.key with
      | .error fault => m.fail f link fault
      | .ok method => m.withClass f link c.key.owner (.enter method c.args wantsValue)
    | .special, some (some index) =>
      match m.instanceMethod c.key with
      | .error fault => m.fail f link fault
      | .ok method => m.enterFrom f link method (some (.ref index)) c.args c.key wantsValue
    | .special, _ => m.fail f link .nullDereference
    | _, _ => m.fail f link (.needsBridge c.key)

end Machine

/-! ## Return -/

/-- Hands the value of a frame that has ended to whoever waits for it. -/
def Link.resume (m : Machine ω) (value : Option Value) : Link → Progress ω
  | .host => .finished m (.ok value)
  | .hostInitializer _ target args =>
    match m.enter target none args with
    | .ok (m, f) => .running m f .host
    | .error fault => .finished m (.error { fault })
  | .caller f (.call key wantsValue) link => m.deliver f link key wantsValue value
  | .caller f (.initializer _ resume) link => m.proceed f link resume

namespace Machine

/-! ## One step -/

/-- Carries out one effect of the current instruction. -/
def apply (m : Machine ω) (link : Link) : Effect → Progress ω
  | .next f => .running m f.advance link
  | .allocate f object =>
    let (m, index) := m.alloc object
    .running m (f.push (.ref index)).advance link
  | .constant f value =>
    let (m, value) := m.constant value
    .running m (f.push value).advance link
  | .write f object w => .running { m with heap := m.heap.write object w } f.advance link
  | .jump f target =>
    let profile := m.profile.jump ⟨f.method.id, f.ip⟩ ⟨f.method.id, target⟩
    .running { m with profile } { f with ip := target } link
  | .leave value => link.resume m.leave value
  | .touch f name use => m.withClass f link name (.use use)
  | .call f c => m.call f link c

/-- Carries out an instruction that has been counted. A failure is reported at the
given method and index, where the frame stands. -/
def perform (m : Machine ω) (f : Frame) (link : Link) (insn : Instruction)
    (method : LoadedMethod) (index : Nat) : Progress ω :=
  match insn.execute m.heap f with
  | .ok effect => m.apply link effect
  | .error fault => m.failAt method index link fault

/-- One step: the current instruction is counted and carried out. Past the last
instruction the program fails at the one before. -/
def step (m : Machine ω) (f : Frame) (link : Link) : Progress ω :=
  match f.method.code.instructions[f.ip]? with
  | none => m.failAt f.method (f.ip - 1) link (.fellOffEnd f.ip)
  | some insn =>
    match m.profile.count m.limits.budget with
    | .ok profile => { m with profile }.perform f link insn f.method f.ip
    | .error fault => m.fail f link fault

end Machine

/-! ## Calls of the host -/

/-- One step of a program that runs. -/
def Progress.step : Progress ω → Progress ω
  | .running m f link => m.step f link
  | p => p

/-- At most `fuel` steps. -/
def Progress.run : (fuel : Nat) → Progress ω → Progress ω
  | 0, p => p
  | fuel + 1, .running m f link => (m.step f link).run fuel
  | _ + 1, p => p

namespace Machine

/-- A call of the host fails before any frame is at work. -/
def refuse (m : Machine ω) (fault : Fault) : Progress ω :=
  .finished m (.error { fault })

/-- The host calls a static method whose class may have to be initialized. -/
def startMethod (m : Machine ω) (owner : String) (target : LoadedMethod) (args : List Value) :
    Progress ω :=
  match m.touch owner with
  | .error fault => m.refuse fault
  | .ok (m, none) => (Link.hostInitializer owner target args).resume m none
  | .ok (m, some initializer) =>
    match m.enter initializer none [] with
    | .ok (m, f) => .running m f (.hostInitializer owner target args)
    | .error fault => (m.poison owner).refuse fault

/-- The host calls a static method or a bridge. -/
def start (m : Machine ω) (className method descriptor : String) (args : List Value) :
    Progress ω :=
  let key := MethodKey.of className method descriptor
  match Descriptor.parse descriptor with
  | .error cause => m.refuse (.badDescriptor cause)
  | .ok parsed =>
    match m.bridges.find? key with
    | some bridge =>
      match m.callBridge bridge key parsed none args with
      | (m, .ok value) => .finished m (.ok value)
      | (m, .error fault) => m.refuse fault
    | none =>
      match m.staticMethod key with
      | .error fault => m.refuse fault
      | .ok target => m.startMethod key.owner target args

end Machine

end ClassMachine
