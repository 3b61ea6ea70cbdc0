import ClassMachine.Machine.Step

/-!
# Where calls and classes lead

What a call comes to depends on the bridges and the loaded methods, and what the use of a
class comes to depends on the record of initializers. Every way is said here once, together
with what decides for it, so that what the machine keeps is shown way by way elsewhere.

* `Machine.Touched`: a class is made ready, and `Machine.Asked`, `Machine.AskedByHost`:
  an instruction or a call of the host goes on from there.
* `Machine.Consulted`: a bridge is called.
* `Machine.Called`, `Machine.CalledByHost`: a frame or the host calls a method.
-/

namespace ClassMachine

variable {ω : Type} {m : Machine ω} {name : String} {key : MethodKey} {method : LoadedMethod}
  {fault : Fault}

/-! ## Methods -/

/-- Why the method of a key cannot be called. -/
def MethodKey.refusals (key : MethodKey) : List Fault :=
  [.noMethod key, .notStatic key, .isStatic key, .nullDereference, .needsBridge key]

namespace Machine

theorem method?_of_staticMethod (found : m.staticMethod key = .ok method) :
    m.classes.method? key = some method := by
  unfold staticMethod at found
  split at found
  · cases found
  · split at found
    · cases found
      assumption
    · cases found

theorem method?_of_instanceMethod (found : m.instanceMethod key = .ok method) :
    m.classes.method? key = some method := by
  unfold instanceMethod at found
  split at found
  · cases found
  · split at found
    · cases found
    · cases found
      assumption

theorem mem_refusals_of_staticMethod (missing : m.staticMethod key = .error fault) :
    fault ∈ key.refusals := by
  unfold staticMethod at missing
  split at missing
  · cases missing
    simp [MethodKey.refusals]
  · split at missing
    · cases missing
    · cases missing
      simp [MethodKey.refusals]

theorem mem_refusals_of_instanceMethod (missing : m.instanceMethod key = .error fault) :
    fault ∈ key.refusals := by
  unfold instanceMethod at missing
  split at missing
  · cases missing
    simp [MethodKey.refusals]
  · split at missing
    · cases missing
      simp [MethodKey.refusals]
    · cases missing

/-! ## Classes -/

/-- The machine with the class recorded as started. -/
def note (m : Machine ω) (name : String) : Machine ω :=
  { m with started := name :: m.started }

end Machine

/-- Everything that making a class ready can do. -/
inductive Machine.Touched (m : Machine ω) (name : String) :
    Except Fault (Machine ω × Option LoadedMethod) → Prop
  | refused : name ∈ m.failed → Touched m name (.error (.failedClass name))
  | ready :
    name ∉ m.failed → name ∈ m.started ∨ m.classes.class? name = none →
    Touched m name (.ok (m, none))
  | noted {c : LoadedClass} {initializer : Option LoadedMethod} :
    name ∉ m.failed → name ∉ m.started → m.classes.class? name = some c →
    c.method? "<clinit>" "()V" = initializer →
    Touched m name (.ok (m.note name, initializer))

/-- Everything that an instruction that asks for a class can come to. -/
inductive Machine.Asked (m : Machine ω) (f : Frame) (link : Link) (name : String)
    (resume : Resume) : Progress ω → Prop
  | failed {fault : Fault} :
    m.touch name = .error fault → Asked m f link name resume (m.fail f link fault)
  | ready {m' : Machine ω} :
    m.touch name = .ok (m', none) → Asked m f link name resume (m'.proceed f link resume)
  | waits {m' m'' : Machine ω} {initializer : LoadedMethod} {callee : Frame} :
    m.touch name = .ok (m', some initializer) → m'.enter initializer none [] = .ok (m'', callee) →
    Asked m f link name resume (.running m'' callee (.caller f (.initializer name resume) link))
  | refused {m' : Machine ω} {initializer : LoadedMethod} {fault : Fault} :
    m.touch name = .ok (m', some initializer) → m'.enter initializer none [] = .error fault →
    Asked m f link name resume ((m'.poison name).fail f link fault)

/-- The same of a static method that the host calls. -/
inductive Machine.AskedByHost (m : Machine ω) (owner : String) (target : LoadedMethod)
    (args : List Value) : Progress ω → Prop
  | failed {fault : Fault} :
    m.touch owner = .error fault → AskedByHost m owner target args (m.refuse fault)
  | ready {m' : Machine ω} :
    m.touch owner = .ok (m', none) →
    AskedByHost m owner target args ((Link.hostInitializer owner target args).resume m' none)
  | waits {m' m'' : Machine ω} {initializer : LoadedMethod} {f : Frame} :
    m.touch owner = .ok (m', some initializer) → m'.enter initializer none [] = .ok (m'', f) →
    AskedByHost m owner target args (.running m'' f (.hostInitializer owner target args))
  | refused {m' : Machine ω} {initializer : LoadedMethod} {fault : Fault} :
    m.touch owner = .ok (m', some initializer) → m'.enter initializer none [] = .error fault →
    AskedByHost m owner target args ((m'.poison owner).refuse fault)

namespace Machine

theorem touch_touched (m : Machine ω) (name : String) : m.Touched name (m.touch name) := by
  by_cases failed : m.failed.contains name = true
  · rw [touch, if_pos failed]
    exact .refused (List.contains_iff_mem.1 failed)
  · have unfailed := mt List.contains_iff_mem.2 failed
    rw [touch, if_neg failed]
    by_cases started : m.started.contains name = true
    · rw [if_pos started]
      exact .ready unfailed (Or.inl (List.contains_iff_mem.1 started))
    · rw [if_neg started]
      cases found : m.classes.class? name with
      | none => exact .ready unfailed (Or.inr found)
      | some c => exact .noted unfailed (mt List.contains_iff_mem.2 started) found rfl

theorem touched_of_touch {result : Except Fault (Machine ω × Option LoadedMethod)}
    (touch : m.touch name = result) : m.Touched name result :=
  touch ▸ m.touch_touched name

theorem withClass_asked (m : Machine ω) (f : Frame) (link : Link) (name : String)
    (resume : Resume) : m.Asked f link name resume (m.withClass f link name resume) := by
  unfold withClass
  split
  · exact .failed ‹_›
  · exact .ready ‹_›
  · split
    · exact .waits ‹_› ‹_›
    · exact .refused ‹_› ‹_›

theorem startMethod_asked (m : Machine ω) (owner : String) (target : LoadedMethod)
    (args : List Value) : m.AskedByHost owner target args (m.startMethod owner target args) := by
  unfold startMethod
  split
  · exact .failed ‹_›
  · exact .ready ‹_›
  · split
    · exact .waits ‹_› ‹_›
    · exact .refused ‹_› ‹_›

end Machine

/-! ## Bridges -/

/-- Everything that the call of a bridge can come to. -/
inductive Machine.Consulted (m : Machine ω) (bridge : Bridge ω) (key : MethodKey)
    (descriptor : Descriptor) (receiver : Option Value) (args : List Value) :
    Machine ω × Except Fault (Option Value) → Prop
  /-- The bridge is not called at all. -/
  | miscounted :
    Consulted m bridge key descriptor receiver args
      (m, .error (.argumentCount key descriptor.argCount args.length))
  | failed {cause : RuntimeError} :
    (bridge m.world m.heap receiver args).outcome = .error cause →
    Consulted m bridge key descriptor receiver args
      ({ m with
          world := (bridge m.world m.heap receiver args).world
          heap := (bridge m.world m.heap receiver args).heap },
        .error (.bridgeFailed key cause.text))
  | answered {value : Value} :
    (bridge m.world m.heap receiver args).outcome = .ok value →
    Consulted m bridge key descriptor receiver args
      ({ m with
          world := (bridge m.world m.heap receiver args).world
          heap := (bridge m.world m.heap receiver args).heap },
        .ok (if descriptor.returnsValue then some value else none))

theorem Machine.callBridge_consulted (m : Machine ω) (bridge : Bridge ω) (key : MethodKey)
    (descriptor : Descriptor) (receiver : Option Value) (args : List Value) :
    m.Consulted bridge key descriptor receiver args
      (m.callBridge bridge key descriptor receiver args) := by
  unfold callBridge
  split
  · exact .miscounted
  · dsimp only
    split
    · exact .failed ‹_›
    · exact .answered ‹_›

/-! ## Calls -/

/-- Everything that a call of a frame can come to. -/
inductive Machine.Called (m : Machine ω) (f : Frame) (link : Link) (c : Call) :
    Progress ω → Prop
  | answered {bridge : Bridge ω} {m' : Machine ω} {value : Option Value} :
    m.bridges.find? c.key = some bridge →
    m.callBridge bridge c.key c.descriptor (c.receiver.map .ofReference) c.args =
      (m', .ok value) →
    Called m f link c (m'.deliver f link c.key c.descriptor.returnsValue value)
  | failed {bridge : Bridge ω} {m' : Machine ω} {fault : Fault} :
    m.bridges.find? c.key = some bridge →
    m.callBridge bridge c.key c.descriptor (c.receiver.map .ofReference) c.args =
      (m', .error fault) →
    Called m f link c (m'.fail f link fault)
  | static {method : LoadedMethod} :
    m.bridges.find? c.key = none → c.mode = .static → m.staticMethod c.key = .ok method →
    Called m f link c
      (m.withClass f link c.key.owner (.enter method c.args c.descriptor.returnsValue))
  | special {method : LoadedMethod} {index : Nat} :
    m.bridges.find? c.key = none → c.mode = .special → c.receiver = some (some index) →
    m.instanceMethod c.key = .ok method →
    Called m f link c
      (m.enterFrom f link method (some (.ref index)) c.args c.key c.descriptor.returnsValue)
  | refused {fault : Fault} :
    m.bridges.find? c.key = none → fault ∈ c.key.refusals →
    Called m f link c (m.fail f link fault)

/-- The same of a call of the host. -/
inductive Machine.CalledByHost (m : Machine ω) (className method descriptor : String)
    (args : List Value) : Progress ω → Prop
  | malformed {cause : DescriptorError} :
    Descriptor.parse descriptor = .error cause →
    CalledByHost m className method descriptor args (m.refuse (.badDescriptor cause))
  | answered {parsed : Descriptor} {bridge : Bridge ω} {m' : Machine ω} {value : Option Value} :
    Descriptor.parse descriptor = .ok parsed →
    m.bridges.find? (.of className method descriptor) = some bridge →
    m.callBridge bridge (.of className method descriptor) parsed none args = (m', .ok value) →
    CalledByHost m className method descriptor args (.finished m' (.ok value))
  | failed {parsed : Descriptor} {bridge : Bridge ω} {m' : Machine ω} {fault : Fault} :
    Descriptor.parse descriptor = .ok parsed →
    m.bridges.find? (.of className method descriptor) = some bridge →
    m.callBridge bridge (.of className method descriptor) parsed none args = (m', .error fault) →
    CalledByHost m className method descriptor args (m'.refuse fault)
  | static {parsed : Descriptor} {target : LoadedMethod} :
    Descriptor.parse descriptor = .ok parsed →
    m.bridges.find? (.of className method descriptor) = none →
    m.staticMethod (.of className method descriptor) = .ok target →
    CalledByHost m className method descriptor args
      (m.startMethod (canonicalName className) target args)
  | refused {parsed : Descriptor} {fault : Fault} :
    Descriptor.parse descriptor = .ok parsed →
    m.bridges.find? (.of className method descriptor) = none →
    fault ∈ (MethodKey.of className method descriptor).refusals →
    CalledByHost m className method descriptor args (m.refuse fault)

namespace Machine

theorem call_called (m : Machine ω) (f : Frame) (link : Link) (c : Call) :
    m.Called f link c (m.call f link c) := by
  unfold call
  dsimp only
  split
  · split
    · exact .answered ‹_› ‹_›
    · exact .failed ‹_› ‹_›
  · rename_i unbridged
    split
    · split
      · exact .refused unbridged (mem_refusals_of_staticMethod ‹_›)
      · exact .static unbridged ‹_› ‹_›
    · split
      · exact .refused unbridged (mem_refusals_of_instanceMethod ‹_›)
      · exact .special unbridged ‹_› ‹_› ‹_›
    · exact .refused unbridged (by simp [MethodKey.refusals])
    · exact .refused unbridged (by simp [MethodKey.refusals])

theorem call_of_static {f : Frame} {link : Link} {c : Call} (static : c.mode = .static)
    (unbridged : m.bridges.find? c.key = none) (found : m.staticMethod c.key = .ok method) :
    m.call f link c =
      m.withClass f link c.key.owner (.enter method c.args c.descriptor.returnsValue) := by
  unfold call
  simp only [unbridged, static, found]

theorem call_of_missing {f : Frame} {link : Link} {c : Call} (static : c.mode = .static)
    (unbridged : m.bridges.find? c.key = none) (missing : m.staticMethod c.key = .error fault) :
    m.call f link c = m.fail f link fault := by
  unfold call
  simp only [unbridged, static, missing]

theorem start_called (m : Machine ω) (className method descriptor : String)
    (args : List Value) :
    m.CalledByHost className method descriptor args (m.start className method descriptor args) := by
  unfold start
  dsimp only
  split
  · exact .malformed ‹_›
  · rename_i parsed
    split
    · split
      · exact .answered parsed ‹_› ‹_›
      · exact .failed parsed ‹_› ‹_›
    · split
      · exact .refused parsed ‹_› (mem_refusals_of_staticMethod ‹_›)
      · exact .static parsed ‹_› ‹_›

end Machine

end ClassMachine
