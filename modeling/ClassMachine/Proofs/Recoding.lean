import ClassMachine.Proofs.Step

/-!
# Machines with other code

Of an instruction, execution reads the opcode and the operands; of a method, its
key, its descriptor, whether it is static, the number of its local variables and
its instructions. A `Recoding` gives methods other code in which all of that
stays. It may change where the code says an instruction stands, and so the
locations in errors.

A table that holds the methods of another one in other code may differ from it
freely under some keys (`ClassTable.Recodes`). It serves a machine as its own table
does, if a bridge answers for each of these keys and none is that of an initializer,
which runs behind any bridge (`Machine.Recodes`). `Machine.start_recode` compares the
start of a call with both tables, `Machine.step_recode` one step and
`Progress.run_recode` a run of any length.
-/

namespace ClassMachine

variable {ω : Type}

/-- The instruction without the parts that serve for messages only. -/
def Instruction.bare (insn : Instruction) : Instruction :=
  { insn with offset := 0, comment := none }

/-- Other code for methods, of the same behaviour. -/
structure Recoding where
  code : MethodCode → MethodCode
  /-- What becomes of a location in the code. -/
  location : Location → Location
  name (m : MethodCode) : (code m).name = m.name
  descriptor (m : MethodCode) : (code m).descriptor = m.descriptor
  isStatic (m : MethodCode) : (code m).isStatic = m.isStatic
  maxLocals (m : MethodCode) : (code m).maxLocals = m.maxLocals
  instructions (m : MethodCode) :
    (code m).instructions.map Instruction.bare = m.instructions.map Instruction.bare
  location_of (m : LoadedMethod) (index : Nat) :
    Location.of { m with code := code m.code } index = location (.of m index)

/-- The code as it is. -/
def Recoding.same : Recoding where
  code := id
  location := id
  name _ := rfl
  descriptor _ := rfl
  isStatic _ := rfl
  maxLocals _ := rfl
  instructions _ := rfl
  location_of _ _ := rfl

variable (r : Recoding)

/-! ## Methods, frames and errors -/

def LoadedMethod.recode (m : LoadedMethod) : LoadedMethod :=
  { m with code := r.code m.code }

theorem LoadedMethod.key_recode (m : LoadedMethod) : (m.recode r).key = m.key := by
  rw [key, key, recode, r.name, r.descriptor]

theorem LoadedMethod.isStatic_recode (m : LoadedMethod) :
    (m.recode r).isStatic = m.isStatic :=
  r.isStatic m.code

def Frame.recode (f : Frame) : Frame :=
  { f with method := f.method.recode r }

/-- The frame stands at an instruction that differs in messages only. -/
theorem Frame.insn?_recode (f : Frame) :
    (f.recode r).insn?.map Instruction.bare = f.insn?.map Instruction.bare := by
  have same := congrArg (·[f.ip]?) (r.instructions f.method.code)
  simp only [List.getElem?_map] at same
  exact same

theorem Frame.location_recode (f : Frame) : (f.recode r).location = r.location f.location :=
  r.location_of f.method f.ip

def Resume.recode : Resume → Resume
  | .use classUse => .use classUse
  | .enter method args wantsValue => .enter (method.recode r) args wantsValue

def Await.recode : Await → Await
  | .call key wantsValue => .call key wantsValue
  | .initializer name resume => .initializer name (resume.recode r)

def Link.recode : Link → Link
  | .host => .host
  | .hostInitializer name target args => .hostInitializer name (target.recode r) args
  | .caller f await link => .caller (f.recode r) (await.recode r) link.recode

@[simp]
def Effect.recode : Effect → Effect
  | .next f => .next (f.recode r)
  | .allocate f object => .allocate (f.recode r) object
  | .constant f value => .constant (f.recode r) value
  | .write f object w => .write (f.recode r) object w
  | .jump f target => .jump (f.recode r) target
  | .leave value => .leave value
  | .touch f name use => .touch (f.recode r) name use
  | .call f c => .call (f.recode r) c

def RuntimeError.recode (e : RuntimeError) : RuntimeError :=
  { e with location := e.location.map r.location, callers := e.callers.map r.location }

theorem RuntimeError.locate_recode (e : RuntimeError) (location : Location) :
    (e.recode r).locate (r.location location) = (e.locate location).recode r := by
  obtain ⟨fault, place, callers⟩ := e
  cases place with
  | none => rfl
  | some place => simp [locate, recode]

/-! ## One instruction

No operation on a frame looks at the method. -/

namespace Frame

variable (f : Frame) (h : Heap)

@[simp]
theorem push_recode (value : Value) : (f.recode r).push value = (f.push value).recode r :=
  rfl

@[simp]
theorem pushAll_recode (values : List Value) :
    (f.recode r).pushAll values = (f.pushAll values).recode r :=
  rfl

@[simp]
theorem pop_recode : (f.recode r).pop = Prod.map id (recode r) <$> f.pop := by
  obtain ⟨locals, stack, ip, method, receiver⟩ := f
  cases stack <;> rfl

@[simp]
theorem peek_recode : (f.recode r).peek = f.peek :=
  rfl

@[simp]
theorem popInt_recode : (f.recode r).popInt = Prod.map id (recode r) <$> f.popInt := by
  obtain ⟨locals, stack, ip, method, receiver⟩ := f
  cases stack with
  | nil => rfl
  | cons value stack => cases value <;> rfl

@[simp]
theorem popRef_recode : (f.recode r).popRef = Prod.map id (recode r) <$> f.popRef := by
  obtain ⟨locals, stack, ip, method, receiver⟩ := f
  cases stack with
  | nil => rfl
  | cons value stack => cases value <;> rfl

@[simp]
theorem popArgs_recode (count : Nat) :
    (f.recode r).popArgs count = Prod.map id (recode r) <$> f.popArgs count := by
  unfold popArgs
  rw [show (f.recode r).stack = f.stack from rfl]
  split <;> rfl

@[simp]
theorem load_recode (index : Nat) : (f.recode r).load index = f.load index :=
  rfl

@[simp]
theorem store_recode (index : Nat) (value : Value) :
    (f.recode r).store index value = recode r <$> f.store index value := by
  unfold store
  rw [show (f.recode r).locals = f.locals from rfl]
  split <;> rfl

@[simp]
theorem loadSlot_recode (slot : Slot) (index : Nat) :
    (f.recode r).loadSlot slot index = recode r <$> f.loadSlot slot index := by
  simp only [loadSlot, load_recode, map_bind]
  refine bind_congr fun value => ?_
  cases slot with
  | int => cases value.isReference <;> rfl
  | ref => cases value.isReference <;> rfl
  | _ => rfl

@[simp]
theorem popSlot_recode (slot : Slot) :
    (f.recode r).popSlot slot = Prod.map id (recode r) <$> f.popSlot slot := by
  cases slot with
  | int => simp [popSlot]
  | ref => simp [popSlot]
  | _ => exact f.pop_recode r

@[simp]
theorem increment_recode (index : Nat) (delta : Int32) :
    (f.recode r).increment index delta = recode r <$> f.increment index delta := by
  simp only [increment, load_recode, map_bind]
  refine bind_congr fun value => ?_
  cases value with
  | int current => exact f.store_recode r index _
  | _ => rfl

@[simp]
theorem popElement_recode :
    (f.recode r).popElement = Prod.map id (Prod.map id (recode r)) <$> f.popElement := by
  simp [popElement]

@[simp]
theorem arrayLoad_recode (cell : Cell) :
    (f.recode r).arrayLoad h cell = recode r <$> f.arrayLoad h cell := by
  cases cell <;> simp [arrayLoad]

@[simp]
theorem arrayStore_recode (cell : Cell) :
    (f.recode r).arrayStore h cell = Effect.recode r <$> f.arrayStore h cell := by
  cases cell <;> simp [arrayStore]

@[simp]
theorem pop2_recode : (f.recode r).pop2 h = recode r <$> f.pop2 h := by
  simp only [pop2, pop_recode, map_bind, bind_map_left, Prod.map_fst, Prod.map_snd, id]
  refine bind_congr fun top => ?_
  split <;> simp

@[simp]
theorem dupX1_recode : (f.recode r).dupX1 = recode r <$> f.dupX1 := by
  simp [dupX1]

@[simp]
theorem dupX2_recode : (f.recode r).dupX2 h = recode r <$> f.dupX2 h := by
  simp only [dupX2, pop_recode, map_bind, bind_map_left, Prod.map_fst, Prod.map_snd, id]
  refine bind_congr fun first => bind_congr fun second => ?_
  split <;> simp

@[simp]
theorem dup2_recode : (f.recode r).dup2 h = recode r <$> f.dup2 h := by
  simp only [dup2, pop_recode, map_bind, bind_map_left, Prod.map_fst, Prod.map_snd, id]
  refine bind_congr fun top => ?_
  split <;> simp

@[simp]
theorem swap_recode : (f.recode r).swap = recode r <$> f.swap := by
  simp [swap]

@[simp]
theorem binary_recode (op : BinaryOp) : (f.recode r).binary op = recode r <$> f.binary op := by
  simp [binary]

@[simp]
theorem unary_recode (op : UnaryOp) : (f.recode r).unary op = recode r <$> f.unary op := by
  simp [unary]

@[simp]
theorem test_recode (opcode : Opcode) :
    (f.recode r).test opcode = Prod.map id (recode r) <$> f.test opcode := by
  cases opcode <;> simp [test]

@[simp]
theorem branch_recode (insn : Instruction) :
    (f.recode r).branch insn = Effect.recode r <$> f.branch insn := by
  simp only [branch, test_recode, map_bind, bind_map_left, Prod.map_fst, Prod.map_snd, id]
  refine bind_congr fun tested => bind_congr fun target => ?_
  split <;> rfl

@[simp]
theorem getField_recode (field : MemberRef) :
    (f.recode r).getField h field = recode r <$> f.getField h field := by
  simp [getField]

@[simp]
theorem putField_recode (field : MemberRef) :
    (f.recode r).putField h field = Effect.recode r <$> f.putField h field := by
  simp [putField]

@[simp]
theorem takeCall_recode (mode : CallMode) (target : MemberRef) :
    (f.recode r).takeCall mode target = Effect.recode r <$> f.takeCall mode target := by
  simp only [takeCall, popArgs_recode, map_bind, bind_map_left, Prod.map_fst, Prod.map_snd, id]
  refine bind_congr fun descriptor => bind_congr fun taken => ?_
  split <;> simp

end Frame

theorem Instruction.execute_recode (insn : Instruction) (h : Heap) (f : Frame) :
    insn.execute h (f.recode r) = Effect.recode r <$> insn.execute h f := by
  obtain ⟨offset, opcode, operands, comment⟩ := insn
  cases opcode with
  | nop | aconstNull | returnVoid | invokeDynamic | multiAnewArray | athrow | instanceOf
  | other => rfl
  | _ => simp [execute]

/-- Two instructions that differ in messages only do the same. -/
theorem Instruction.execute_eq_of_bare {insn insn' : Instruction} (same : insn'.bare = insn.bare)
    (h : Heap) (f : Frame) : insn'.execute h f = insn.execute h f := by
  have bare : insn'.bare.execute h f = insn.bare.execute h f := by rw [same]
  exact bare

/-! ## Entering frames -/

namespace Frame

theorem placeArgs_recode (f : Frame) (slot : Nat) (types : List Ty) (values : List Value) :
    (f.recode r).placeArgs slot types values = recode r <$> f.placeArgs slot types values := by
  induction types generalizing f slot values with
  | nil => rfl
  | cons ty types ih =>
      cases values with
      | nil => rfl
      | cons value values => simp [placeArgs, ih]

theorem placeReceiver_recode (f : Frame) (receiver : Option Value) :
    (f.recode r).placeReceiver receiver = Prod.map id (recode r) <$> f.placeReceiver receiver := by
  cases receiver with
  | none => rfl
  | some value =>
      cases value with
      | ref index =>
          have placed : Frame.store { f.recode r with receiver := some index } 0 (.ref index) =
              recode r <$> Frame.store { f with receiver := some index } 0 (.ref index) :=
            store_recode r { f with receiver := some index } 0 (.ref index)
          simp [placeReceiver, placed]
      | _ => rfl

theorem enter_recode (method : LoadedMethod) (receiver : Option Value) (args : List Value) :
    enter (method.recode r) receiver args = recode r <$> enter method receiver args := by
  let f : Frame :=
    { locals := Array.replicate method.code.maxLocals.toNat none
      stack := []
      ip := 0
      method
      receiver := none }
  have fresh : f.recode r =
      { f with
        locals := Array.replicate (method.recode r).code.maxLocals.toNat none
        method := method.recode r } := by
    rw [show (method.recode r).code.maxLocals = method.code.maxLocals from r.maxLocals _]
    rfl
  unfold enter
  rw [method.key_recode, show (method.recode r).descriptor = method.descriptor from rfl]
  split
  · rfl
  · dsimp only
    rw [← fresh]
    simp only [placeReceiver_recode, map_bind, bind_map_left, Prod.map_fst, Prod.map_snd,
      placeArgs_recode]
    rfl

end Frame

/-! ## Tables and machines -/

/-- The method that makes a class ready, whatever the class. -/
def MethodKey.IsInitializer (key : MethodKey) : Prop :=
  key.name = "<clinit>" ∧ key.descriptor = "()V"

/-- The other methods of a class are the same in other code, but for some keys. -/
def Recoding.Methods (exempt : MethodKey → Prop) (owner : String)
    (methods methods' : Table (String × String) LoadedMethod) : Prop :=
  ∀ name descriptor, ¬ exempt ⟨owner, name, descriptor⟩ →
    methods'.find? (name, descriptor) =
      (methods.find? (name, descriptor)).map (·.recode r)

/-- The other table holds the same methods in other code, but for some keys. -/
structure ClassTable.Recodes (exempt : MethodKey → Prop) (t t' : ClassTable) : Prop where
  count : t'.methodCount = t.methodCount
  classes (owner : String) :
    Option.Rel (fun c c' => r.Methods exempt owner c.methods c'.methods)
      (t.classes.find? owner) (t'.classes.find? owner)

namespace ClassTable.Recodes

variable {r} {exempt : MethodKey → Prop} {t t' : ClassTable}

theorem method?_eq (recodes : t.Recodes r exempt t') {key : MethodKey} (held : ¬ exempt key) :
    t'.method? key = (t.method? key).map (·.recode r) := by
  have there := recodes.classes key.owner
  unfold method?
  revert there
  generalize t.classes.find? key.owner = c, t'.classes.find? key.owner = c'
  intro there
  cases there with
  | none => rfl
  | some same => exact same key.name key.descriptor held

end ClassTable.Recodes

/-- The table serves the machine as its own classes do. The keys that are exempt are
never looked up: a bridge answers for them, and no initializer is among them. -/
structure Machine.Recodes (exempt : MethodKey → Prop) (m : Machine ω) (t : ClassTable) :
    Prop where
  classes : m.classes.Recodes r exempt t
  bridged : ∀ key, exempt key → (m.bridges.find? key).isSome
  ordinary : ∀ key, exempt key → ¬ key.IsInitializer

/-- The machine with other classes. -/
def Machine.withClasses (t : ClassTable) (m : Machine ω) : Machine ω :=
  { m with classes := t }

/-- The program with other classes, and other code in its frames. -/
def Progress.recode (t : ClassTable) : Progress ω → Progress ω
  | .running m f link => .running (m.withClasses t) (f.recode r) (link.recode r)
  | .finished m outcome => .finished (m.withClasses t) (outcome.mapError (·.recode r))

/-! ## Work that looks up no method -/

variable (t : ClassTable)

theorem Link.unwind_recode (link : Link) (m : Machine ω) (e : RuntimeError) :
    (link.recode r).unwind (m.withClasses t) (e.recode r) = (link.unwind m e).recode r t := by
  induction link generalizing m e with
  | host => rfl
  | hostInitializer name target args => rfl
  | caller f await link ih =>
      have located :
          (e.recode r).locate (f.recode r).location = (e.locate f.location).recode r := by
        rw [f.location_recode, e.locate_recode]
      cases await with
      | call key wantsValue =>
          rw [unwind, ← ih m.leave, ← located]
          rfl
      | initializer name resume =>
          rw [unwind, ← ih (m.leave.poison name), ← located]
          rfl

namespace Machine

theorem failAt_recode (m : Machine ω) (method : LoadedMethod) (index : Nat) (link : Link)
    (fault : Fault) :
    (m.withClasses t).failAt (method.recode r) index (link.recode r) fault =
      (m.failAt method index link fault).recode r t := by
  have located : RuntimeError.locate { fault } (Location.of (method.recode r) index) =
      (RuntimeError.locate { fault } (Location.of method index)).recode r :=
    congrArg (RuntimeError.locate { fault }) (r.location_of method index)
  rw [failAt, located]
  exact link.unwind_recode r t m _

theorem fail_recode (m : Machine ω) (f : Frame) (link : Link) (fault : Fault) :
    (m.withClasses t).fail (f.recode r) (link.recode r) fault =
      (m.fail f link fault).recode r t :=
  m.failAt_recode r t f.method f.ip link fault

theorem deliver_recode (m : Machine ω) (f : Frame) (link : Link) (key : MethodKey)
    (wantsValue : Bool) (value : Option Value) :
    (m.withClasses t).deliver (f.recode r) (link.recode r) key wantsValue value =
      (m.deliver f link key wantsValue value).recode r t := by
  unfold deliver
  split
  · split
    · rfl
    · exact m.fail_recode r t f link (.noResult key)
  · rfl

theorem use_recode (m : Machine ω) (f : Frame) (use : ClassUse) :
    (m.withClasses t).use (f.recode r) use =
      Prod.map (withClasses t) (Frame.recode r) (m.use f use) := by
  cases use <;> rfl

theorem callBridge_withClasses (m : Machine ω) (bridge : Bridge ω) (key : MethodKey)
    (descriptor : Descriptor) (receiver : Option Value) (args : List Value) :
    (m.withClasses t).callBridge bridge key descriptor receiver args =
      Prod.map (withClasses t) id (m.callBridge bridge key descriptor receiver args) := by
  unfold callBridge
  split
  · rfl
  · dsimp only
    rw [show (m.withClasses t).world = m.world from rfl,
      show (m.withClasses t).heap = m.heap from rfl]
    split <;> rfl

/-! ## Work that enters frames -/

theorem enter_recode (m : Machine ω) (method : LoadedMethod) (receiver : Option Value)
    (args : List Value) :
    (m.withClasses t).enter (method.recode r) receiver args =
      Prod.map (withClasses t) (Frame.recode r) <$> m.enter method receiver args := by
  unfold enter
  rw [show (m.withClasses t).limits = m.limits from rfl,
    show (m.withClasses t).depth = m.depth from rfl, method.key_recode, Frame.enter_recode]
  split
  · rfl
  · simp only [map_bind, bind_map_left]
    rfl

theorem enterFrom_recode (m : Machine ω) (f : Frame) (link : Link) (method : LoadedMethod)
    (receiver : Option Value) (args : List Value) (key : MethodKey) (wantsValue : Bool) :
    (m.withClasses t).enterFrom (f.recode r) (link.recode r) (method.recode r) receiver args key
        wantsValue =
      (m.enterFrom f link method receiver args key wantsValue).recode r t := by
  unfold enterFrom
  rw [enter_recode]
  cases m.enter method receiver args with
  | ok entered => rfl
  | error fault => exact m.fail_recode r t f link fault

theorem proceed_recode (m : Machine ω) (f : Frame) (link : Link) (resume : Resume) :
    (m.withClasses t).proceed (f.recode r) (link.recode r) (resume.recode r) =
      (m.proceed f link resume).recode r t := by
  cases resume with
  | use use =>
      simp only [Resume.recode, proceed, use_recode]
      rfl
  | enter method args wantsValue =>
      simp only [Resume.recode, proceed, method.key_recode]
      exact m.enterFrom_recode r t f link method none args method.key wantsValue

theorem resume_recode (m : Machine ω) (value : Option Value) (link : Link) :
    (link.recode r).resume (m.withClasses t) value = (link.resume m value).recode r t := by
  cases link with
  | host => rfl
  | hostInitializer name target args =>
      simp only [Link.recode, Link.resume, enter_recode]
      cases m.enter target none args <;> rfl
  | caller g await link =>
      cases await with
      | call key wantsValue => exact m.deliver_recode r t g link key wantsValue value
      | initializer name resume => exact m.proceed_recode r t g link resume

/-! ## Work that looks up methods -/

section LookUp

variable {r t} {exempt : MethodKey → Prop} {m : Machine ω} (recodes : m.Recodes r exempt t)
include recodes

/-- An initializer is never shadowed, so it is the same in other code. -/
theorem touch_recode (name : String) :
    (m.withClasses t).touch name =
      Prod.map (withClasses t) (Option.map (LoadedMethod.recode r)) <$> m.touch name := by
  have there := recodes.classes.classes (canonicalName name)
  unfold touch ClassTable.class?
  rw [show (m.withClasses t).failed = m.failed from rfl,
    show (m.withClasses t).started = m.started from rfl,
    show (m.withClasses t).classes = t from rfl]
  revert there
  generalize m.classes.classes.find? (canonicalName name) = c,
    t.classes.find? (canonicalName name) = c'
  intro there
  split
  · rfl
  · split
    · rfl
    · cases there with
      | none => rfl
      | @some c c' same =>
          have initializer := same "<clinit>" "()V" fun h => recodes.ordinary _ h ⟨rfl, rfl⟩
          simp only [LoadedClass.method?, initializer]
          rfl

theorem withClass_recode (f : Frame) (link : Link) (name : String) (resume : Resume) :
    (m.withClasses t).withClass (f.recode r) (link.recode r) name (resume.recode r) =
      (m.withClass f link name resume).recode r t := by
  unfold withClass
  rw [touch_recode recodes]
  cases m.touch name with
  | error fault => exact m.fail_recode r t f link fault
  | ok ready =>
      obtain ⟨m', initializer⟩ := ready
      cases initializer with
      | none => exact m'.proceed_recode r t f link resume
      | some initializer =>
          have entering := m'.enter_recode r t initializer none []
          simp only [Functor.map, Except.map, Prod.map, Option.map_some] at entering ⊢
          rw [entering]
          cases m'.enter initializer none [] with
          | ok entered => rfl
          | error fault => exact (m'.poison name).fail_recode r t f link fault

/-- What no bridge answers for is looked up in the table. -/
theorem method?_recode {key : MethodKey} (unbridged : m.bridges.find? key = none) :
    t.method? key = (m.classes.method? key).map (·.recode r) :=
  recodes.classes.method?_eq fun exempted => by
    have bridged := recodes.bridged key exempted
    rw [unbridged] at bridged
    cases bridged

theorem staticMethod_recode {key : MethodKey} (unbridged : m.bridges.find? key = none) :
    (m.withClasses t).staticMethod key = LoadedMethod.recode r <$> m.staticMethod key := by
  unfold staticMethod
  rw [show (m.withClasses t).classes = t from rfl, method?_recode recodes unbridged]
  cases m.classes.method? key with
  | none => rfl
  | some method =>
      simp only [Option.map_some, method.isStatic_recode]
      split <;> rfl

theorem instanceMethod_recode {key : MethodKey} (unbridged : m.bridges.find? key = none) :
    (m.withClasses t).instanceMethod key = LoadedMethod.recode r <$> m.instanceMethod key := by
  unfold instanceMethod
  rw [show (m.withClasses t).classes = t from rfl, method?_recode recodes unbridged]
  cases m.classes.method? key with
  | none => rfl
  | some method =>
      simp only [Option.map_some, method.isStatic_recode]
      split <;> rfl

theorem call_recode (f : Frame) (link : Link) (c : Call) :
    (m.withClasses t).call (f.recode r) (link.recode r) c =
      (m.call f link c).recode r t := by
  unfold call
  dsimp only
  rw [show (m.withClasses t).bridges = m.bridges from rfl]
  cases unbridged : m.bridges.find? c.key with
  | some bridge =>
      simp only [callBridge_withClasses]
      rcases m.callBridge bridge c.key c.descriptor (c.receiver.map Value.ofReference) c.args with
        ⟨m', fault | value⟩
      · exact m'.fail_recode r t f link fault
      · exact m'.deliver_recode r t f link c.key _ value
  | none =>
      dsimp only
      split
      · rw [staticMethod_recode recodes unbridged]
        cases m.staticMethod c.key with
        | error fault => exact m.fail_recode r t f link fault
        | ok method => exact withClass_recode recodes f link c.key.owner (.enter method c.args _)
      · rw [instanceMethod_recode recodes unbridged]
        cases m.instanceMethod c.key with
        | error fault => exact m.fail_recode r t f link fault
        | ok method => exact m.enterFrom_recode r t f link method _ c.args c.key _
      · exact m.fail_recode r t f link _
      · exact m.fail_recode r t f link _

theorem apply_recode (link : Link) (effect : Effect) :
    (m.withClasses t).apply (link.recode r) (effect.recode r) =
      (m.apply link effect).recode r t := by
  cases effect with
  | next | allocate | constant | write | jump => rfl
  | leave value => exact m.leave.resume_recode r t value link
  | touch g name use => exact withClass_recode recodes g link name (.use use)
  | call g c => exact call_recode recodes g link c

theorem perform_recode {insn insn' : Instruction} (same : insn'.bare = insn.bare) (f : Frame)
    (link : Link) :
    (m.withClasses t).perform (f.recode r) (link.recode r) insn' (f.method.recode r) f.ip =
      (m.perform f link insn f.method f.ip).recode r t := by
  unfold perform
  rw [Instruction.execute_eq_of_bare same, insn.execute_recode,
    show (m.withClasses t).heap = m.heap from rfl]
  cases insn.execute m.heap f with
  | ok effect => exact apply_recode recodes link effect
  | error fault => exact m.failAt_recode r t f.method f.ip link fault

/-- **One step in other code.** -/
theorem step_recode (f : Frame) (link : Link) :
    (m.withClasses t).step (f.recode r) (link.recode r) = (m.step f link).recode r t := by
  have same := f.insn?_recode r
  cases current : f.insn? with
  | none =>
      rw [current, Option.map_none, Option.map_eq_none_iff] at same
      rw [step_of_insn?_none current, step_of_insn?_none same]
      exact m.failAt_recode r t f.method _ link _
  | some insn =>
      rw [current, Option.map_some, Option.map_eq_some_iff] at same
      obtain ⟨insn', current', same⟩ := same
      by_cases spent : m.Spent
      · obtain ⟨budget, limited, reached⟩ := spent
        rw [step_of_spent current limited reached,
          step_of_spent (m := m.withClasses t) current' limited reached]
        exact m.fail_recode r t f link _
      · have recodes' : m.counted.Recodes r exempt t :=
          ⟨recodes.classes, recodes.bridged, recodes.ordinary⟩
        rw [step_of_not_spent current spent,
          step_of_not_spent (m := m.withClasses t) current' spent]
        exact perform_recode recodes' same f link

theorem startMethod_recode (owner : String) (target : LoadedMethod) (args : List Value) :
    (m.withClasses t).startMethod owner (target.recode r) args =
      (m.startMethod owner target args).recode r t := by
  unfold startMethod
  rw [touch_recode recodes]
  cases m.touch owner with
  | error fault => rfl
  | ok ready =>
      obtain ⟨m', initializer⟩ := ready
      cases initializer with
      | none => exact m'.resume_recode r t none (.hostInitializer owner target args)
      | some initializer =>
          have entering := m'.enter_recode r t initializer none []
          simp only [Functor.map, Except.map, Prod.map, Option.map_some] at entering ⊢
          rw [entering]
          cases m'.enter initializer none [] <;> rfl

/-- **The start of a call in other code.** -/
theorem start_recode (className method descriptor : String) (args : List Value) :
    (m.withClasses t).start className method descriptor args =
      (m.start className method descriptor args).recode r t := by
  unfold start
  dsimp only
  cases Descriptor.parse descriptor with
  | error cause => rfl
  | ok parsed =>
      dsimp only
      rw [show (m.withClasses t).bridges = m.bridges from rfl]
      cases unbridged : m.bridges.find? (.of className method descriptor) with
      | some bridge =>
          simp only [callBridge_withClasses]
          rcases m.callBridge bridge (.of className method descriptor) parsed none args with
            ⟨m', fault | value⟩
          · rfl
          · rfl
      | none =>
          dsimp only
          rw [staticMethod_recode recodes unbridged]
          cases m.staticMethod (.of className method descriptor) with
          | error fault => rfl
          | ok target => exact startMethod_recode recodes _ target args

end LookUp

end Machine

/-! ## Whole runs -/

theorem Machine.Recodes.becomes {r t} {exempt : MethodKey → Prop} {m m' : Machine ω}
    (recodes : m.Recodes r exempt t) (becomes : m.Becomes m') : m'.Recodes r exempt t :=
  ⟨becomes.classes ▸ recodes.classes, becomes.bridges ▸ recodes.bridged, recodes.ordinary⟩

namespace Progress

variable {r t} {exempt : MethodKey → Prop} {p : Progress ω}

theorem step_recode (recodes : p.machine.Recodes r exempt t) :
    (p.recode r t).step = p.step.recode r t := by
  cases p with
  | running m f link => exact Machine.step_recode recodes f link
  | finished m outcome => rfl

/-- **A run in other code.** -/
theorem run_recode (linked : p.Linked) (recodes : p.machine.Recodes r exempt t) (n : Nat) :
    (p.recode r t).run n = (p.run n).recode r t := by
  induction n with
  | zero => rfl
  | succ n ih =>
      have becomes : p.machine.Becomes (p.run n).machine := Reaches.becomes linked ⟨n, rfl⟩
      rw [run_succ_last, run_succ_last, ih, step_recode (recodes.becomes becomes)]

end Progress

end ClassMachine
