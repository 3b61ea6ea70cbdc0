import ClassMachine.Proofs.Step

/-!
# Machines under other limits

The limits of a machine act in two places only: where an instruction is counted
against the budget, and where a frame is entered. So a program under other
limits does the same as before, as long as both budgets allow the instruction
and no frame is refused for a depth that the other limits allow.

`Progress.Follows` is that comparison of two states, for limits that allow at
least the old depth. `Machine.start_follows` and `Machine.step_follows` compare
the start of a call and one step.
-/

namespace ClassMachine

variable {ω : Type} {φ : Limits → Limits} {m : Machine ω} {f : Frame} {link : Link}
  {p p' : Progress ω} {insn : Instruction}

/-- The machine under other limits. -/
def Machine.mapLimits (φ : Limits → Limits) (m : Machine ω) : Machine ω :=
  { m with limits := φ m.limits }

/-- The program under other limits. -/
def Progress.mapLimits (φ : Limits → Limits) : Progress ω → Progress ω
  | .running m f link => .running (m.mapLimits φ) f link
  | .finished m outcome => .finished (m.mapLimits φ) outcome

/-! ## Work that no limit touches -/

theorem Link.unwind_mapLimits (link : Link) (m : Machine ω) (e : RuntimeError) :
    link.unwind (m.mapLimits φ) e = (link.unwind m e).mapLimits φ := by
  induction link generalizing m e with
  | host => rfl
  | hostInitializer name target args => rfl
  | caller f await link ih =>
      cases await with
      | call key wantsValue => exact ih m.leave (e.locate f.location)
      | initializer name resume => exact ih (m.leave.poison name) (e.locate f.location)

namespace Machine

theorem failAt_mapLimits (m : Machine ω) (method : LoadedMethod) (index : Nat) (link : Link)
    (fault : Fault) :
    (m.mapLimits φ).failAt method index link fault =
      (m.failAt method index link fault).mapLimits φ :=
  link.unwind_mapLimits m _

theorem fail_mapLimits (m : Machine ω) (f : Frame) (link : Link) (fault : Fault) :
    (m.mapLimits φ).fail f link fault = (m.fail f link fault).mapLimits φ :=
  m.failAt_mapLimits f.method f.ip link fault

theorem deliver_mapLimits (m : Machine ω) (f : Frame) (link : Link) (key : MethodKey)
    (wantsValue : Bool) (value : Option Value) :
    (m.mapLimits φ).deliver f link key wantsValue value =
      (m.deliver f link key wantsValue value).mapLimits φ := by
  unfold deliver
  split
  · split
    · rfl
    · exact m.fail_mapLimits f link (.noResult key)
  · rfl

theorem touch_mapLimits (m : Machine ω) (name : String) :
    (m.mapLimits φ).touch name =
      (m.touch name).map fun (m', initializer) => (m'.mapLimits φ, initializer) := by
  unfold touch
  rw [show (m.mapLimits φ).failed = m.failed from rfl,
    show (m.mapLimits φ).started = m.started from rfl,
    show (m.mapLimits φ).classes = m.classes from rfl]
  split
  · rfl
  · split
    · rfl
    · split <;> rfl

theorem use_mapLimits (m : Machine ω) (f : Frame) (use : ClassUse) :
    (m.mapLimits φ).use f use = ((m.use f use).1.mapLimits φ, (m.use f use).2) := by
  cases use <;> rfl

theorem callBridge_mapLimits (m : Machine ω) (bridge : Bridge ω) (key : MethodKey)
    (descriptor : Descriptor) (receiver : Option Value) (args : List Value) :
    (m.mapLimits φ).callBridge bridge key descriptor receiver args =
      ((m.callBridge bridge key descriptor receiver args).1.mapLimits φ,
        (m.callBridge bridge key descriptor receiver args).2) := by
  unfold callBridge
  split
  · rfl
  · dsimp only
    rw [show (m.mapLimits φ).world = m.world from rfl,
      show (m.mapLimits φ).heap = m.heap from rfl]
    split <;> rfl

end Machine

/-! ## Work that enters frames -/

/-- The other state is this one under the other limits, unless this one has ended
for lack of a depth that the other limits allow. -/
def Progress.Follows (φ : Limits → Limits) (p p' : Progress ω) : Prop :=
  p' = p.mapLimits φ ∨ ∃ m e, p = .finished m (.error e) ∧
    e.fault.kind = .callDepthExceeded ∧ m.limits.maxDepth < (φ m.limits).maxDepth

theorem Progress.Follows.eq (follows : p.Follows φ p')
    (same : ∀ l, (φ l).maxDepth = l.maxDepth) : p' = p.mapLimits φ := by
  rcases follows with eq | ⟨m, e, _, _, more⟩
  · exact eq
  · rw [same] at more
    exact (Nat.lt_irrefl _ more).elim

/-- A frame is refused for lack of depth. -/
theorem Machine.fail_follows (more : m.limits.maxDepth < (φ m.limits).maxDepth)
    (key : MethodKey) (limit : Nat) : (m.fail f link (.tooDeep key limit)).Follows φ p' := by
  obtain ⟨m', ends, keeps⟩ := m.failAt_eq f.method f.ip link (.tooDeep key limit)
  have limits : m'.limits = m.limits := keeps.limits
  exact Or.inr ⟨m', _, ends, rfl, by rw [limits]; exact more⟩

section Deeper

variable (deeper : ∀ l, l.maxDepth ≤ (φ l).maxDepth)

namespace Machine

include deeper

/-- Entering a frame is the same, or is refused under the old limits only. -/
theorem enter_mapLimits (m : Machine ω) (method : LoadedMethod) (receiver : Option Value)
    (args : List Value) :
    (m.mapLimits φ).enter method receiver args =
        (m.enter method receiver args).map (fun (m', f) => (m'.mapLimits φ, f)) ∨
      m.enter method receiver args = .error (.tooDeep method.key m.limits.maxDepth) ∧
        m.limits.maxDepth < (φ m.limits).maxDepth := by
  have le := deeper m.limits
  by_cases room : m.limits.maxDepth ≤ m.depth
  · have refused : m.enter method receiver args =
        .error (.tooDeep method.key m.limits.maxDepth) := if_pos room
    rcases Nat.lt_or_eq_of_le le with more | same
    · exact Or.inr ⟨refused, more⟩
    · have refused' : (m.mapLimits φ).enter method receiver args =
          .error (.tooDeep method.key (φ m.limits).maxDepth) := if_pos (same ▸ room)
      rw [refused, refused', ← same]
      exact Or.inl rfl
  · have room' : ¬ (m.mapLimits φ).limits.maxDepth ≤ (m.mapLimits φ).depth := by
      change ¬ (φ m.limits).maxDepth ≤ m.depth
      omega
    left
    unfold enter
    rw [if_neg room, if_neg room']
    cases Frame.enter method receiver args <;> rfl

theorem enterFrom_follows (method : LoadedMethod) (receiver : Option Value)
    (args : List Value) (key : MethodKey) (wantsValue : Bool) :
    (m.enterFrom f link method receiver args key wantsValue).Follows φ
      ((m.mapLimits φ).enterFrom f link method receiver args key wantsValue) := by
  unfold enterFrom
  rcases enter_mapLimits deeper m method receiver args with same | ⟨refused, more⟩
  · rw [same]
    cases m.enter method receiver args with
    | ok entered => exact Or.inl rfl
    | error fault => exact Or.inl (m.fail_mapLimits f link fault)
  · rw [refused]
    exact fail_follows more _ _

theorem proceed_follows (m : Machine ω) (f : Frame) (link : Link) (resume : Resume) :
    (m.proceed f link resume).Follows φ ((m.mapLimits φ).proceed f link resume) := by
  cases resume with
  | use use =>
      left
      simp only [proceed, use_mapLimits]
      rfl
  | enter method args wantsValue => exact enterFrom_follows deeper method none args _ wantsValue

theorem withClass_follows (m : Machine ω) (f : Frame) (link : Link) (name : String)
    (resume : Resume) :
    (m.withClass f link name resume).Follows φ
      ((m.mapLimits φ).withClass f link name resume) := by
  unfold withClass
  rw [touch_mapLimits]
  cases m.touch name with
  | error fault => exact Or.inl (m.fail_mapLimits f link fault)
  | ok ready =>
      obtain ⟨m', initializer⟩ := ready
      cases initializer with
      | none => exact proceed_follows deeper m' f link resume
      | some initializer =>
          simp only [Except.map]
          rcases enter_mapLimits deeper m' initializer none [] with same | ⟨refused, more⟩
          · rw [same]
            cases m'.enter initializer none [] with
            | ok entered => exact Or.inl rfl
            | error fault => exact Or.inl ((m'.poison name).fail_mapLimits f link fault)
          · rw [refused]
            exact fail_follows (m := m'.poison name) more _ _

theorem call_follows (m : Machine ω) (f : Frame) (link : Link) (c : Call) :
    (m.call f link c).Follows φ ((m.mapLimits φ).call f link c) := by
  unfold call
  dsimp only
  rw [show (m.mapLimits φ).bridges = m.bridges from rfl]
  cases m.bridges.find? c.key with
  | some bridge =>
      left
      simp only [callBridge_mapLimits]
      rcases m.callBridge bridge c.key c.descriptor (c.receiver.map Value.ofReference) c.args with
        ⟨m', fault | value⟩
      · exact m'.fail_mapLimits f link fault
      · exact m'.deliver_mapLimits f link c.key _ value
  | none =>
      dsimp only
      split
      · rw [show (m.mapLimits φ).staticMethod c.key = m.staticMethod c.key from rfl]
        cases m.staticMethod c.key with
        | error fault => exact Or.inl (m.fail_mapLimits f link fault)
        | ok method => exact withClass_follows deeper m f link c.key.owner _
      · rw [show (m.mapLimits φ).instanceMethod c.key = m.instanceMethod c.key from rfl]
        cases m.instanceMethod c.key with
        | error fault => exact Or.inl (m.fail_mapLimits f link fault)
        | ok method => exact enterFrom_follows deeper method _ c.args c.key _
      · exact Or.inl (m.fail_mapLimits f link _)
      · exact Or.inl (m.fail_mapLimits f link _)

theorem resume_follows (m : Machine ω) (value : Option Value) (link : Link) :
    (link.resume m value).Follows φ (link.resume (m.mapLimits φ) value) := by
  cases link with
  | host => exact Or.inl rfl
  | hostInitializer name target args =>
      rw [Link.resume, Link.resume]
      rcases enter_mapLimits deeper m target none args with same | ⟨refused, more⟩
      · rw [same]
        cases m.enter target none args with
        | ok entered => exact Or.inl rfl
        | error fault => exact Or.inl rfl
      · rw [refused]
        exact Or.inr ⟨m, _, rfl, rfl, more⟩
  | caller g await link =>
      cases await with
      | call key wantsValue => exact Or.inl (m.deliver_mapLimits g link key wantsValue value)
      | initializer name resume => exact proceed_follows deeper m g link resume

theorem apply_follows (m : Machine ω) (link : Link) (effect : Effect) :
    (m.apply link effect).Follows φ ((m.mapLimits φ).apply link effect) := by
  cases effect with
  | next | allocate | constant | write | jump => exact Or.inl rfl
  | leave value => exact resume_follows deeper m.leave value link
  | touch g name use => exact withClass_follows deeper m g link name (.use use)
  | call g c => exact call_follows deeper m g link c

/-- One step under both limits, where both budgets allow it. -/
theorem step_follows (room : ¬ m.Spent) (room' : ¬ (m.mapLimits φ).Spent) :
    (m.step f link).Follows φ ((m.mapLimits φ).step f link) := by
  cases current : f.insn? with
  | none =>
      rw [step_of_insn?_none current, step_of_insn?_none current]
      exact Or.inl (m.failAt_mapLimits f.method _ link _)
  | some insn =>
      rw [step_of_not_spent current room, step_of_not_spent current room', perform, perform,
        show (m.mapLimits φ).counted.heap = m.counted.heap from rfl]
      cases insn.execute m.counted.heap f with
      | ok effect => exact apply_follows deeper m.counted link effect
      | error fault => exact Or.inl (m.counted.failAt_mapLimits f.method f.ip link fault)

theorem startMethod_follows (m : Machine ω) (owner : String) (target : LoadedMethod)
    (args : List Value) :
    (m.startMethod owner target args).Follows φ
      ((m.mapLimits φ).startMethod owner target args) := by
  unfold startMethod
  rw [touch_mapLimits]
  cases m.touch owner with
  | error fault => exact Or.inl rfl
  | ok ready =>
      obtain ⟨m', initializer⟩ := ready
      cases initializer with
      | none => exact resume_follows deeper m' none (.hostInitializer owner target args)
      | some initializer =>
          simp only [Except.map]
          rcases enter_mapLimits deeper m' initializer none [] with same | ⟨refused, more⟩
          · rw [same]
            cases m'.enter initializer none [] with
            | ok entered => exact Or.inl rfl
            | error fault => exact Or.inl rfl
          · rw [refused]
            exact Or.inr ⟨m'.poison owner, _, rfl, rfl, more⟩

/-- The start of a call under both limits. -/
theorem start_follows (m : Machine ω) (className method descriptor : String)
    (args : List Value) :
    (m.start className method descriptor args).Follows φ
      ((m.mapLimits φ).start className method descriptor args) := by
  unfold start
  dsimp only
  cases Descriptor.parse descriptor with
  | error cause => exact Or.inl rfl
  | ok parsed =>
      dsimp only
      rw [show (m.mapLimits φ).bridges = m.bridges from rfl]
      cases m.bridges.find? (.of className method descriptor) with
      | some bridge =>
          left
          simp only [callBridge_mapLimits]
          rcases m.callBridge bridge (.of className method descriptor) parsed none args with
            ⟨m', fault | value⟩
          · rfl
          · rfl
      | none =>
          dsimp only
          rw [show (m.mapLimits φ).staticMethod (.of className method descriptor) =
            m.staticMethod (.of className method descriptor) from rfl]
          cases m.staticMethod (.of className method descriptor) with
          | error fault => exact Or.inl rfl
          | ok target => exact startMethod_follows deeper m _ target args

end Machine

end Deeper

end ClassMachine
