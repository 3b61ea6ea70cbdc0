import ClassMachine.Proofs.Store

/-!
# Frames that wait

A frame that calls waits until the frame above it has returned; whatever runs there can
call and initialize in its turn, but it does not reach the frames below.

* `Link.IsAbove`: there are frames that wait between the frame at work and a link.
* `Machine.Turns`: a step stays on the link below the frame, puts a frame on it, returns
  to it, or ends the call of the host (`Machine.step_turns`).
* `Progress.Aloft`: a run that stays above a link until its last state. When it comes
  down to the link, the frame that stood on it has returned (`Progress.Aloft.returned`).
* `Machine.Calling`: everything that a call can come to at once (`Machine.call_calling`).
-/

namespace ClassMachine

variable {ω : Type} {m m' m'' : Machine ω} {f g : Frame} {link base above : Link}
  {p q : Progress ω} {await : Await} {insn : Instruction}

/-! ## Links above links -/

/-- At least one frame waits between a link and the other link. -/
def Link.IsAbove : Link → Link → Prop
  | .caller _ _ link, base => link = base ∨ link.IsAbove base
  | .host, _ | .hostInitializer _ _ _, _ => False

namespace Link

theorem IsAbove.length_lt (higher : link.IsAbove base) :
    base.frames.length < link.frames.length := by
  induction link with
  | host => exact higher.elim
  | hostInitializer name target args => exact higher.elim
  | caller f await link ih =>
      rw [frames_caller, List.length_cons]
      rcases higher with rfl | higher
      · exact Nat.lt_succ_self _
      · exact Nat.lt_succ_of_lt (ih higher)

theorem not_isAbove_self (link : Link) : ¬ link.IsAbove link :=
  fun higher => Nat.lt_irrefl _ higher.length_lt

theorem isAbove_caller (f : Frame) (await : Await) (link : Link) :
    (Link.caller f await link).IsAbove link :=
  Or.inl rfl

theorem caller_ne (f : Frame) (await : Await) (link : Link) : Link.caller f await link ≠ link := by
  intro same
  have higher := isAbove_caller f await link
  rw [same] at higher
  exact link.not_isAbove_self higher

/-- What is on a frame that waits on a link, or above that, is above the link. -/
theorem IsAbove.of_caller
    (higher : above = .caller f await base ∨ above.IsAbove (.caller f await base)) :
    above.IsAbove base := by
  rcases higher with rfl | higher
  · exact isAbove_caller f await base
  · induction above with
    | host => exact higher.elim
    | hostInitializer name target args => exact higher.elim
    | caller g await' link ih =>
        rcases higher with rfl | higher
        · exact Or.inr (isAbove_caller f await base)
        · exact Or.inr (ih higher)

end Link

/-! ## Steps -/

/-- The program goes on with a frame on the link or with one more above that, or the
call of the host has ended. -/
inductive Link.Continues (link : Link) : Progress ω → Prop
  | stays (m : Machine ω) (f : Frame) : Continues link (.running m f link)
  | waits (m : Machine ω) (callee f : Frame) (await : Await) :
    Continues link (.running m callee (.caller f await link))
  | ends (m : Machine ω) (outcome : Except RuntimeError (Option Value)) :
    Continues link (.finished m outcome)

/-- What becomes of the link below a frame that takes a step. -/
inductive Link.Turns (link : Link) : Progress ω → Prop
  | continues {p : Progress ω} : link.Continues p → Turns link p
  /-- The frame returns. -/
  | returns (m : Machine ω) (value : Option Value) : Turns link (link.resume m value)

namespace Machine

theorem failAt_continues (m : Machine ω) (method : LoadedMethod) (index : Nat) (base : Link)
    (fault : Fault) : link.Continues (m.failAt method index base fault) := by
  obtain ⟨m', ends, _⟩ := m.failAt_eq method index base fault
  rw [ends]
  exact .ends m' _

theorem fail_continues (m : Machine ω) (f : Frame) (base : Link) (fault : Fault) :
    link.Continues (m.fail f base fault) :=
  m.failAt_continues f.method f.ip base fault

theorem deliver_continues (m : Machine ω) (f : Frame) (link : Link) (key : MethodKey)
    (wantsValue : Bool) (value : Option Value) :
    link.Continues (m.deliver f link key wantsValue value) := by
  unfold deliver
  split
  · split
    · exact .stays m _
    · exact m.fail_continues f link _
  · exact .stays m _

/-- A frame to which a result is delivered goes on behind its call, with the result on its
stack if there is to be one. -/
theorem deliver_eq_running {key : MethodKey} {wantsValue : Bool} {value : Option Value}
    (next : m.deliver f link key wantsValue value = .running m' g above) :
    ∃ result : List Value, m' = m ∧ above = link ∧ g = (f.pushAll result).advance ∧
      result.length = wantsValue.toNat := by
  unfold deliver at next
  split at next
  · rename_i wanted
    split at next
    · rename_i value
      cases next
      exact ⟨[value], rfl, rfl, rfl, by rw [wanted]; rfl⟩
    · obtain ⟨m'', ends, _⟩ := m.failAt_eq f.method f.ip link (.noResult key)
      rw [fail, ends] at next
      cases next
  · rename_i unwanted
    cases next
    exact ⟨[], rfl, rfl, rfl, by rw [Bool.not_eq_true] at unwanted; rw [unwanted]; rfl⟩

theorem enterFrom_continues (m : Machine ω) (f : Frame) (link : Link) (method : LoadedMethod)
    (receiver : Option Value) (args : List Value) (key : MethodKey) (wantsValue : Bool) :
    link.Continues (m.enterFrom f link method receiver args key wantsValue) := by
  unfold enterFrom
  split
  · rename_i m' callee entered
    exact .waits m' callee f _
  · exact m.fail_continues f link _

theorem proceed_continues (m : Machine ω) (f : Frame) (link : Link) (resume : Resume) :
    link.Continues (m.proceed f link resume) := by
  cases resume with
  | use use => exact .stays _ _
  | enter method args wantsValue =>
      exact m.enterFrom_continues f link method none args method.key wantsValue

theorem withClass_continues (m : Machine ω) (f : Frame) (link : Link) (name : String)
    (resume : Resume) : link.Continues (m.withClass f link name resume) := by
  rcases m.withClass_cases f link name resume with ⟨m', e, _, ends⟩ |
    ⟨m', callee, _, waits⟩ | ⟨m', _, proceeds⟩
  · rw [ends]
    exact .ends m' _
  · rw [waits]
    exact .waits m' callee f _
  · rw [proceeds]
    exact m'.proceed_continues f link resume

/-- A frame that is returned to goes on, or calls the method it waited for. -/
theorem resume_continues (m : Machine ω) (f : Frame) (await : Await) (link : Link)
    (value : Option Value) : link.Continues ((Link.caller f await link).resume m value) := by
  cases await with
  | call key wantsValue => exact m.deliver_continues f link key wantsValue value
  | initializer name resume => exact m.proceed_continues f link resume

end Machine

/-! ## Calls -/

/-- Everything that a call of a frame can come to at once. -/
inductive Machine.Calling (m : Machine ω) (f : Frame) (link : Link) (c : Call) :
    Progress ω → Prop
  /-- The call fails. -/
  | fails (m' : Machine ω) (e : RuntimeError) : Calling m f link c (.finished m' (.error e))
  /-- A bridge answers. -/
  | answered {m' : Machine ω} {bridge : Bridge ω} {value : Option Value} :
    m.bridges.find? c.key = some bridge →
    m.callBridge bridge c.key c.descriptor (c.receiver.map Value.ofReference) c.args =
      (m', .ok value) →
    Calling m f link c (m'.deliver f link c.key c.descriptor.returnsValue value)
  /-- The frame of the method is put above the caller. -/
  | entered {m' : Machine ω} {method : LoadedMethod} {callee : Frame} (receiver : Option Nat)
    (key : MethodKey) :
    m.classes.method? c.key = some method →
    (c.mode = .static ∧ receiver = none ∨
      c.mode = .special ∧ receiver.isSome ∧ c.receiver = some receiver) →
    Frame.enter method (receiver.map Value.ref) c.args = .ok callee →
    Calling m f link c
      (.running m' callee (.caller f (.call key c.descriptor.returnsValue) link))
  /-- First the initializer of the class of a static method has to run. -/
  | delayed {m' : Machine ω} {method : LoadedMethod} (initializer : Frame) :
    m.classes.method? c.key = some method → c.mode = .static →
    Calling m f link c
      (.running m' initializer (.caller f
        (.initializer c.key.owner (.enter method c.args c.descriptor.returnsValue)) link))

namespace Machine

theorem fail_calling (m' : Machine ω) (fault : Fault) {c : Call} :
    m.Calling f link c (m'.fail f link fault) := by
  obtain ⟨m'', ends, _⟩ := m'.failAt_eq f.method f.ip link fault
  rw [fail, ends]
  exact .fails m'' _

theorem enterFrom_calling {c : Call} {method : LoadedMethod} (receiver : Option Nat)
    (found : m.classes.method? c.key = some method)
    (mode : c.mode = .static ∧ receiver = none ∨
      c.mode = .special ∧ receiver.isSome ∧ c.receiver = some receiver)
    (m' : Machine ω) (key : MethodKey) :
    m.Calling f link c (m'.enterFrom f link method (receiver.map Value.ref) c.args key
      c.descriptor.returnsValue) := by
  unfold enterFrom
  split
  · rename_i m'' callee entered
    unfold enter at entered
    split at entered
    · cases entered
    · obtain ⟨frame, entered, done⟩ := bind_eq_ok.1 entered
      cases done
      exact .entered receiver key found mode entered
  · exact fail_calling m' _

/-- **A call comes to nothing else.** -/
theorem call_calling (m : Machine ω) (f : Frame) (link : Link) (c : Call) :
    m.Calling f link c (m.call f link c) := by
  have called := m.call_called f link c
  generalize m.call f link c = p at called ⊢
  cases called with
  | answered bridged answered => exact .answered bridged answered
  | failed => exact fail_calling _ _
  | @static method _ static found =>
      have loaded := method?_of_staticMethod found
      rcases m.withClass_cases f link c.key.owner
        (.enter method c.args c.descriptor.returnsValue) with ⟨m', e, _, ends⟩ |
          ⟨m', initializer, _, waits⟩ | ⟨m', _, proceeds⟩
      · rw [ends]
        exact .fails m' e
      · rw [waits]
        exact .delayed initializer loaded static
      · rw [proceeds]
        exact enterFrom_calling none loaded (Or.inl ⟨static, rfl⟩) m' method.key
  | @special method index _ special receiver found =>
      exact enterFrom_calling (some index) (method?_of_instanceMethod found)
        (Or.inr ⟨special, rfl, receiver⟩) m c.key
  | refused => exact fail_calling m _

theorem call_continues (m : Machine ω) (f : Frame) (link : Link) (c : Call) :
    link.Continues (m.call f link c) := by
  have calling := m.call_calling f link c
  generalize m.call f link c = p at calling
  cases calling with
  | fails m' e => exact .ends m' _
  | answered => exact deliver_continues _ f link _ _ _
  | entered => exact .waits _ _ f _
  | delayed => exact .waits _ _ f _

theorem apply_turns (m : Machine ω) (link : Link) (effect : Effect) :
    link.Turns (m.apply link effect) := by
  cases effect with
  | next f => exact .continues (.stays m _)
  | allocate f object => exact .continues (.stays _ _)
  | constant f value => exact .continues (.stays _ _)
  | write f object w => exact .continues (.stays _ _)
  | jump f target => exact .continues (.stays _ _)
  | leave value => exact .returns m.leave value
  | touch f name use => exact .continues (m.withClass_continues f link name (.use use))
  | call f c => exact .continues (m.call_continues f link c)

theorem perform_turns (m : Machine ω) (f : Frame) (link : Link) (insn : Instruction)
    (method : LoadedMethod) (index : Nat) :
    link.Turns (m.perform f link insn method index) := by
  unfold perform
  split
  · exact m.apply_turns link _
  · exact .continues (m.failAt_continues method index link _)

/-- **A step reaches no frame below its own.** -/
theorem step_turns (m : Machine ω) (f : Frame) (link : Link) : link.Turns (m.step f link) := by
  unfold step
  split
  · exact .continues (m.failAt_continues f.method _ link _)
  · split
    · exact perform_turns _ f link _ f.method f.ip
    · exact .continues (m.fail_continues f link _)

end Machine

/-! ## Runs above a link -/

/-- Steps lead from one state to the other, and in every state before the last one frames
wait above the link. -/
inductive Progress.Aloft (base : Link) : Progress ω → Progress ω → Prop
  | here (p : Progress ω) : Aloft base p p
  | step {m : Machine ω} {f : Frame} {link : Link} {q : Progress ω} :
    link.IsAbove base → Aloft base (m.step f link) q → Aloft base (.running m f link) q

namespace Progress

/-- A frame on the link itself is the end. -/
theorem Aloft.eq_of_running (aloft : (running m f base).Aloft base q) : q = running m f base := by
  cases aloft with
  | here => rfl
  | step higher _ => exact (base.not_isAbove_self higher).elim

theorem Aloft.eq_of_finished {outcome : Except RuntimeError (Option Value)}
    (aloft : (finished m outcome).Aloft base q) : q = finished m outcome := by
  cases aloft
  rfl

/-- A frame stands on the link, or above that. -/
def OnLink (base : Link) : Progress ω → Prop
  | .running _ _ link => link = base ∨ link.IsAbove base
  | .finished _ _ => False

theorem onLink_of_continues {link : Link} (continues : link.Continues p)
    (higher : link = base ∨ link.IsAbove base) :
    p.OnLink base ∨ ∃ m outcome, p = finished m outcome := by
  cases continues with
  | stays => exact Or.inl higher
  | waits => exact Or.inl (Or.inr higher)
  | ends m outcome => exact Or.inr ⟨m, outcome, rfl⟩

/-- A step above a frame that waits stays above it, ends the call of the host, or returns
to the frame. -/
theorem step_of_onLink (higher : (running m f above).OnLink (.caller g await link)) :
    (m.step f above).OnLink (.caller g await link) ∨
      (∃ m' outcome, m.step f above = finished m' outcome) ∨
      ∃ m' value, m.step f above = (Link.caller g await link).resume m' value := by
  have turns := m.step_turns f above
  generalize m.step f above = p at turns
  cases turns with
  | continues continues => exact (onLink_of_continues continues higher).imp_right Or.inl
  | returns m' value =>
      rcases higher with rfl | higher
      · exact Or.inr (Or.inr ⟨m', value, rfl⟩)
      · cases above with
        | host => exact higher.elim
        | hostInitializer name target args => exact higher.elim
        | caller k await' below =>
            have continues := m'.resume_continues k await' below value
            exact (onLink_of_continues continues higher).imp_right Or.inl

/-- A run that starts above a frame that waits, and comes down to the link below it: the
frame that stood on it has returned to it on the way. -/
theorem Aloft.returned {k : Frame} (aloft : p.Aloft link (running m' k link))
    (higher : p.OnLink (.caller g await link)) :
    ∃ m'' value, ((Link.caller g await link).resume m'' value).Aloft link (running m' k link) := by
  generalize goal : running m' k link = q at aloft
  induction aloft with
  | here p =>
      rw [← goal] at higher
      exact (link.not_isAbove_self (Link.IsAbove.of_caller higher)).elim
  | @step m f above q _ rest ih =>
      rcases step_of_onLink higher with on | ⟨m₁, outcome, ended⟩ | ⟨m₁, value, returned⟩
      · exact ih on goal
      · rw [ended] at rest
        rw [rest.eq_of_finished] at goal
        cases goal
      · rw [returned] at rest
        exact ⟨m₁, value, rest⟩

end Progress

end ClassMachine
