import ClassMachine.Limits
import ClassMachine.Machine.Effect
import ClassMachine.Profile

/-!
# Machines

A machine owns the loaded classes, the heap, the static fields and the record
of class initializers; nothing is global. Host functions, called bridges,
stand in for methods. A bridge sees a world of the host's own choosing, in
which it can leave traces of its calls.

A program that runs is a machine, the frame at work and a `Link`, which says
where the outcome of that frame goes.
-/

namespace ClassMachine

/-- What a bridge leaves behind. -/
structure BridgeReply (ω : Type) where
  world : ω
  heap : Heap
  outcome : Except RuntimeError Value

/-- A host function in place of a method: it is given the world, the heap, the
receiver of an instance call and the arguments. -/
abbrev Bridge (ω : Type) :=
  ω → Heap → Option Value → List Value → BridgeReply ω

/-- Everything that outlives a call. -/
structure Machine (ω : Type) where
  classes : ClassTable
  bridges : Table MethodKey (Bridge ω)
  heap : Heap
  statics : Table (String × String) Value
  /-- Classes whose initializer has started. -/
  started : List String
  /-- Classes whose initializer has failed. -/
  failed : List String
  limits : Limits
  profile : Profile
  /-- The number of frames at work. -/
  depth : Nat
  world : ω

/-! ## Frames that wait -/

/-- What is left of an instruction whose class is being initialized. -/
inductive Resume where
  | use (use : ClassUse)
  /-- Entering the method of a static call. -/
  | enter (method : LoadedMethod) (args : List Value) (wantsValue : Bool)
deriving DecidableEq

/-- Why a frame waits for the frame above it. -/
inductive Await where
  /-- For the result of a call. -/
  | call (key : MethodKey) (wantsValue : Bool)
  /-- For the initializer of a class. -/
  | initializer (name : String) (resume : Resume)
deriving DecidableEq

/-- Where the outcome of a frame goes. -/
inductive Link where
  /-- To the host, as the answer to its call. -/
  | host
  /-- To the host, whose call of `target` waits for the initializer of a class. -/
  | hostInitializer (name : String) (target : LoadedMethod) (args : List Value)
  /-- To a frame that waits for it. -/
  | caller (frame : Frame) (await : Await) (link : Link)
deriving DecidableEq

/-- The frames that wait, innermost first. -/
def Link.frames : Link → List Frame
  | .caller frame _ link => frame :: link.frames
  | _ => []

/-- A program that runs, or what has become of it. -/
inductive Progress (ω : Type) where
  | running (machine : Machine ω) (frame : Frame) (link : Link)
  | finished (machine : Machine ω) (outcome : Except RuntimeError (Option Value))

namespace Machine

variable {ω : Type}

/-! ## What the host can do between calls -/

/-- Sets a bridge, which from then on answers for the method of that key. -/
def setBridge (m : Machine ω) (className method descriptor : String) (bridge : Bridge ω) :
    Machine ω :=
  { m with bridges := m.bridges.insert (.of className method descriptor) bridge }

/-- A machine on which nothing has run. The constructor of the root class, where
every chain of constructors ends, is a bridge that does nothing. -/
def create (classes : ClassTable) (limits : Limits) (world : ω) : Machine ω :=
  setBridge
    { classes
      bridges := .empty
      heap := .empty
      statics := .empty
      started := []
      failed := []
      limits
      profile := .empty
      depth := 0
      world }
    rootClass "<init>" "()V" fun world heap _ _ => ⟨world, heap, .ok .null⟩

def setStatic (m : Machine ω) (className field : String) (value : Value) : Machine ω :=
  { m with statics := m.statics.insert (canonicalName className, field) value }

/-- The value of a static field that has been written. -/
def static? (m : Machine ω) (className field : String) : Option Value :=
  m.statics.find? (canonicalName className, field)

/-- A summary in one line. -/
def summary (m : Machine ω) : String :=
  let budget :=
    match m.limits.budget with
    | some n => "Some(" ++ toString n ++ ")"
    | none => "None"
  "Runtime \x7b classes: " ++ toString m.classes.size
    ++ ", bridges: " ++ toString m.bridges.size
    ++ ", heap_objects: " ++ toString m.heap.size
    ++ ", config: RuntimeConfig \x7b instruction_budget: " ++ budget
    ++ ", max_call_depth: " ++ toString m.limits.maxDepth
    ++ ", hot_loop_threshold: " ++ toString m.limits.hotThreshold ++ " \x7d \x7d"

/-! ## Frames and classes -/

/-- Enters a method, unless calls are nested too deeply already. -/
def enter (m : Machine ω) (method : LoadedMethod) (receiver : Option Value) (args : List Value) :
    Except Fault (Machine ω × Frame) :=
  if m.limits.maxDepth ≤ m.depth then .error (.tooDeep method.key m.limits.maxDepth)
  else do
    let frame ← Frame.enter method receiver args
    return ({ m with depth := m.depth + 1 }, frame)

/-- A frame has ended. -/
def leave (m : Machine ω) : Machine ω :=
  { m with depth := m.depth - 1 }

/-- The initializer of a class has failed, so the class stays unusable. -/
def poison (m : Machine ω) (name : String) : Machine ω :=
  { m with failed := name :: m.failed }

/-- Makes a class ready for use: gives the initializer that has to run first, if
it has not been started. Names without a loaded class are always ready. -/
def touch (m : Machine ω) (name : String) :
    Except Fault (Machine ω × Option LoadedMethod) :=
  if m.failed.contains name then .error (.failedClass name)
  else if m.started.contains name then .ok (m, none)
  else
    match m.classes.class? name with
    | none => .ok (m, none)
    | some c => .ok ({ m with started := name :: m.started }, c.method? "<clinit>" "()V")

/-- The static method of a key. -/
def staticMethod (m : Machine ω) (key : MethodKey) : Except Fault LoadedMethod :=
  match m.classes.method? key with
  | none => .error (.noMethod key)
  | some method => if method.isStatic then .ok method else .error (.notStatic key)

/-- The instance method of a key. -/
def instanceMethod (m : Machine ω) (key : MethodKey) : Except Fault LoadedMethod :=
  match m.classes.method? key with
  | none => .error (.noMethod key)
  | some method => if method.isStatic then .error (.isStatic key) else .ok method

/-- Allocates an object and gives its index. -/
def alloc (m : Machine ω) (object : HeapObject) : Machine ω × Nat :=
  let (index, heap) := m.heap.alloc object
  ({ m with heap }, index)

/-- The value of a literal, allocated if it is no word. -/
def constant (m : Machine ω) (value : Constant) : Machine ω × Value :=
  let (value, heap) := m.heap.constant value
  ({ m with heap }, value)

/-- Uses a class that is ready. -/
def use (m : Machine ω) (f : Frame) : ClassUse → Machine ω × Frame
  | .getStatic field =>
    let value := (m.statics.find? (field.owner, field.name)).getD (.defaultFor field.descriptor)
    (m, f.push value)
  | .putStatic field value =>
    ({ m with statics := m.statics.insert (field.owner, field.name) value }, f)
  | .new name =>
    let (m, index) := m.alloc (.object name .empty)
    (m, f.push (.ref index))

/-- Calls a bridge. A failure of its own is wrapped with the key of the bridge,
and the result of a void method is dropped. -/
def callBridge (m : Machine ω) (bridge : Bridge ω) (key : MethodKey) (descriptor : Descriptor)
    (receiver : Option Value) (args : List Value) :
    Machine ω × Except Fault (Option Value) :=
  if args.length ≠ descriptor.argCount then
    (m, .error (.argumentCount key descriptor.argCount args.length))
  else
    let reply := bridge m.world m.heap receiver args
    let m := { m with world := reply.world, heap := reply.heap }
    match reply.outcome with
    | .error cause => (m, .error (.bridgeFailed key cause.text))
    | .ok value => (m, .ok (if descriptor.returnsValue then some value else none))

end Machine

end ClassMachine
