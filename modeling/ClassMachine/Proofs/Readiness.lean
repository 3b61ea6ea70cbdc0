import ClassMachine.Proofs.Lifetime

/-!
# Making classes ready

A class is ready for use once its initializer has run. A machine records which
initializers have started and which have failed, and every move that uses a class
asks for it first.

* `Link.pending`: the classes whose initializers are at work.
* `Machine.Carries`: what asks for no class goes on with the record as it is, or
  fails, and then every pending initializer has failed.
* `Machine.Readies`: what becomes of a move that asks for a class.
* `Progress.Asks`: the move asks for a class, and `Progress.Begins`: it starts the
  initializer of the class.

Every move is of one of the two kinds: `Progress.Next.carries_or_asks` and
`Progress.Asks.readies`.
-/

namespace ClassMachine

variable {ω : Type} {m m' m'' : Machine ω} {f : Frame} {link : Link}
  {p q : Progress ω} {insn : Instruction} {name : String} {names : List String}
  {allowed : Machine ω → HostAction ω → Prop}

/-! ## Initializers at work -/

/-- The classes whose initializers are at work, innermost first. -/
def Link.pending : Link → List String
  | .host => []
  | .hostInitializer name _ _ => [name]
  | .caller _ (.call _ _) link => link.pending
  | .caller _ (.initializer name _) link => name :: link.pending

/-- Those that are still at work when the frame above the link has returned. -/
def Link.remaining : Link → List String
  | .host | .hostInitializer _ _ _ => []
  | .caller _ _ link => link.pending

theorem Link.remaining_sublist (link : Link) : link.remaining.Sublist link.pending := by
  cases link with
  | host => exact .refl []
  | hostInitializer name target args => exact List.nil_sublist _
  | caller f await link =>
      cases await with
      | call key wantsValue => exact .refl _
      | initializer name resume => exact List.sublist_cons_self name _

/-- The initializers at work once the step of a frame has carried out a return. -/
def Machine.working (m : Machine ω) (f : Frame) (link : Link) : List String :=
  if m.returns f then link.remaining else link.pending

namespace Progress

def pending : Progress ω → List String
  | .running _ _ link => link.pending
  | .finished _ _ => []

/-- The initializers that the next move can cut short. -/
def working : Progress ω → List String
  | .running m f link => m.working f link
  | .finished _ _ => []

theorem working_sublist (p : Progress ω) : p.working.Sublist p.pending := by
  cases p with
  | running m f link =>
      rw [working, Machine.working]
      split
      · exact link.remaining_sublist
      · exact .refl _
  | finished m outcome => exact .refl _

end Progress

/-! ## The record -/

namespace Machine

/-- The record of initializers is the same, for the same classes. -/
structure SameRecord (m m' : Machine ω) : Prop where
  classes : m'.classes = m.classes
  started : m'.started = m.started
  failed : m'.failed = m.failed

theorem SameRecord.refl (m : Machine ω) : m.SameRecord m :=
  ⟨rfl, rfl, rfl⟩

theorem SameRecord.trans (left : m.SameRecord m') (right : m'.SameRecord m'') :
    m.SameRecord m'' :=
  ⟨right.classes.trans left.classes, right.started.trans left.started,
    right.failed.trans left.failed⟩

theorem sameRecord_counted (m : Machine ω) : m.SameRecord m.counted :=
  ⟨rfl, rfl, rfl⟩

theorem sameRecord_use (m : Machine ω) (f : Frame) (use : ClassUse) :
    m.SameRecord (m.use f use).1 := by
  cases use <;> exact ⟨rfl, rfl, rfl⟩

theorem sameRecord_callBridge (m : Machine ω) (bridge : Bridge ω) (key : MethodKey)
    (descriptor : Descriptor) (receiver : Option Value) (args : List Value) :
    m.SameRecord (m.callBridge bridge key descriptor receiver args).1 := by
  have consulted := m.callBridge_consulted bridge key descriptor receiver args
  generalize m.callBridge bridge key descriptor receiver args = result at consulted ⊢
  cases consulted <;> exact ⟨rfl, rfl, rfl⟩

theorem SameRecord.note (same : m.SameRecord m') (name : String) :
    (m.note name).SameRecord (m'.note name) :=
  ⟨same.classes, congrArg (name :: ·) same.started, same.failed⟩

end Machine

/-! ## Going on or failing -/

/-- What becomes of a machine in which the initializers of `names` are at work: it goes
on with the record as it is, or fails, and with it all these initializers. -/
inductive Machine.Carries (m : Machine ω) (names : List String) : Progress ω → Prop
  | runs {m' : Machine ω} {f : Frame} {link : Link} :
    m.SameRecord m' → link.pending = names → Carries m names (.running m' f link)
  | ends {m' : Machine ω} {value : Option Value} :
    m.SameRecord m' → names = [] → Carries m names (.finished m' (.ok value))
  | fails {m' : Machine ω} {e : RuntimeError} :
    m'.classes = m.classes → m'.started = m.started → m'.failed = names.reverse ++ m.failed →
    Carries m names (.finished m' (.error e))

theorem Machine.Carries.of_same (same : m.SameRecord m') (carries : m'.Carries names p) :
    m.Carries names p := by
  cases carries with
  | runs kept pending => exact .runs (same.trans kept) pending
  | ends kept nothing => exact .ends (same.trans kept) nothing
  | fails classes started failed =>
      refine .fails (classes.trans same.classes) (started.trans same.started) ?_
      rw [failed, same.failed]

/-- On the way out every initializer that is at work fails. -/
theorem Link.unwind_carries (link : Link) (m : Machine ω) (e : RuntimeError) :
    ∃ m' e', link.unwind m e = .finished m' (.error e') ∧
      m.Carries link.pending (.finished m' (.error e')) := by
  induction link generalizing m e with
  | host => exact ⟨_, _, rfl, .fails rfl rfl rfl⟩
  | hostInitializer name target args => exact ⟨_, _, rfl, .fails rfl rfl rfl⟩
  | caller f await link ih =>
      cases await with
      | call key wantsValue =>
          have same : m.SameRecord m.leave := ⟨rfl, rfl, rfl⟩
          obtain ⟨m', e', ends, carries⟩ := ih m.leave (e.locate f.location)
          exact ⟨m', e', ends, carries.of_same same⟩
      | initializer name resume =>
          obtain ⟨m', e', ends, carries⟩ := ih (m.leave.poison name) (e.locate f.location)
          refine ⟨m', e', ends, ?_⟩
          cases carries with
          | fails classes started failed =>
              refine .fails classes started ?_
              rw [failed, pending, List.reverse_cons, List.append_assoc]
              rfl

namespace Machine

theorem failAt_carries (m : Machine ω) (method : LoadedMethod) (index : Nat) (link : Link)
    (fault : Fault) :
    ∃ m' e, m.failAt method index link fault = .finished m' (.error e) ∧
      m.Carries link.pending (.finished m' (.error e)) :=
  link.unwind_carries m _

theorem carries_failAt (m : Machine ω) (method : LoadedMethod) (index : Nat) (link : Link)
    (fault : Fault) : m.Carries link.pending (m.failAt method index link fault) := by
  obtain ⟨m', e, ends, carries⟩ := m.failAt_carries method index link fault
  rw [ends]
  exact carries

theorem carries_deliver (m : Machine ω) (f : Frame) (link : Link) (key : MethodKey)
    (wantsValue : Bool) (value : Option Value) :
    m.Carries link.pending (m.deliver f link key wantsValue value) := by
  unfold deliver
  split
  · split
    · exact .runs (.refl m) rfl
    · exact m.carries_failAt f.method f.ip link _
  · exact .runs (.refl m) rfl

theorem carries_enterFrom (m : Machine ω) (f : Frame) (link : Link) (method : LoadedMethod)
    (receiver : Option Value) (args : List Value) (key : MethodKey) (wantsValue : Bool) :
    m.Carries link.pending (m.enterFrom f link method receiver args key wantsValue) := by
  unfold enterFrom
  split
  · rename_i m' callee entered
    obtain ⟨rfl, _⟩ := enter_eq_ok entered
    exact .runs ⟨rfl, rfl, rfl⟩ rfl
  · exact m.carries_failAt f.method f.ip link _

theorem carries_proceed (m : Machine ω) (f : Frame) (link : Link) (resume : Resume) :
    m.Carries link.pending (m.proceed f link resume) := by
  cases resume with
  | use use => exact .runs (m.sameRecord_use f use) rfl
  | enter method args wantsValue => exact m.carries_enterFrom f link method _ _ _ _

/-- A frame that returns leaves the initializers below it at work. -/
theorem carries_resume (m : Machine ω) (link : Link) (value : Option Value) :
    m.Carries link.remaining (link.resume m value) := by
  cases link with
  | host => exact .ends (.refl m) rfl
  | hostInitializer name target args =>
      rw [Link.resume]
      split
      · rename_i m' callee entered
        obtain ⟨rfl, _⟩ := enter_eq_ok entered
        exact .runs ⟨rfl, rfl, rfl⟩ rfl
      · exact .fails rfl rfl rfl
  | caller g await link =>
      cases await with
      | call key wantsValue => exact m.carries_deliver g link key wantsValue value
      | initializer name resume => exact m.carries_proceed g link resume

end Machine

/-! ## Making a class ready -/

namespace Machine

/-- A class that has started stays as it is, and can be used unless it has failed. -/
theorem touch_of_started (started : name ∈ m.started) :
    name ∉ m.failed ∧ m.touch name = .ok (m, none) ∨
      name ∈ m.failed ∧ ∃ fault, m.touch name = .error fault ∧ fault.kind = .lookup := by
  have touched := m.touch_touched name
  generalize m.touch name = result at touched ⊢
  cases touched with
  | refused failed => exact Or.inr ⟨failed, _, rfl, rfl⟩
  | ready unfailed => exact Or.inl ⟨unfailed, rfl⟩
  | noted _ unstarted => exact (unstarted started).elim

/-- The class is made ready by its initializer. -/
def Opens (m : Machine ω) (name : String) : Prop :=
  ∃ m' initializer, m.touch name = .ok (m', some initializer)

theorem opens_iff :
    m.Opens name ↔ name ∉ m.failed ∧ name ∉ m.started ∧
      ∃ c initializer, m.classes.class? name = some c ∧
        c.method? "<clinit>" "()V" = some initializer := by
  have touched := m.touch_touched name
  unfold Opens
  generalize m.touch name = result at touched ⊢
  cases touched with
  | refused failed => exact ⟨nofun, fun opens => (opens.1 failed).elim⟩
  | ready unfailed why =>
      refine ⟨nofun, fun ⟨_, unstarted, c, _, found, _⟩ => ?_⟩
      rcases why with started | missing
      · exact (unstarted started).elim
      · rw [missing] at found
        cases found
  | @noted c _ unfailed unstarted found recorded =>
      constructor
      · rintro ⟨m', initializer, same⟩
        cases same
        exact ⟨unfailed, unstarted, c, initializer, found, recorded⟩
      · rintro ⟨_, _, c', initializer, found', recorded'⟩
        cases found.symm.trans found'
        cases recorded.symm.trans recorded'
        exact ⟨_, initializer, rfl⟩

end Machine

/-- What becomes of an instruction that asks for a class: it fails, or goes on as any
other one, or the class is recorded first, and perhaps its initializer is at work. -/
inductive Machine.Readies (m : Machine ω) (names : List String) (name : String) :
    Progress ω → Prop
  | refused {m' : Machine ω} {e : RuntimeError} :
    name ∈ m.failed → m.Carries names (.finished m' (.error e)) →
    Readies m names name (.finished m' (.error e))
  | ready {p : Progress ω} :
    name ∉ m.failed → ¬ m.Opens name → m.Carries names p → Readies m names name p
  | noted {c : LoadedClass} {p : Progress ω} :
    name ∉ m.failed → ¬ m.Opens name → m.classes.class? name = some c →
    (m.note name).Carries names p → Readies m names name p
  | begun {p : Progress ω} :
    m.Opens name → (m.note name).Carries (name :: names) p → Readies m names name p

namespace Machine

theorem SameRecord.opens_iff (same : m.SameRecord m') : m'.Opens name ↔ m.Opens name := by
  rw [Machine.opens_iff, same.failed, same.started, same.classes, ← Machine.opens_iff]

theorem Readies.of_same (same : m.SameRecord m') (readies : m'.Readies names name p) :
    m.Readies names name p := by
  cases readies with
  | refused failed carries => exact .refused (same.failed ▸ failed) (carries.of_same same)
  | ready unfailed shut carries =>
      exact .ready (same.failed ▸ unfailed) (mt same.opens_iff.2 shut) (carries.of_same same)
  | noted unfailed shut found carries =>
      exact .noted (same.failed ▸ unfailed) (mt same.opens_iff.2 shut) (same.classes ▸ found)
        (carries.of_same (same.note name))
  | begun opens carries =>
      exact .begun (same.opens_iff.1 opens) (carries.of_same (same.note name))

/-- An initializer is entered, or fails at once. -/
theorem Opens.of_touch {initializer : LoadedMethod}
    (touch : m.touch name = .ok (m', some initializer)) : m.Opens name ∧ m' = m.note name := by
  cases touched_of_touch touch with
  | noted => exact ⟨⟨_, initializer, touch⟩, rfl⟩

/-- A class that needs no initializer to run is recorded at most. -/
theorem readies_of_touch_none (touch : m.touch name = .ok (m', none))
    (carries : m'.Carries names p) : m.Readies names name p := by
  have shut : ¬ m.Opens name := by
    rintro ⟨_, initializer, touch'⟩
    cases touch.symm.trans touch'
  cases touched_of_touch touch with
  | ready unfailed => exact .ready unfailed shut carries
  | noted unfailed _ found => exact .noted unfailed shut found carries

theorem failed_of_touch_error {fault : Fault} (touch : m.touch name = .error fault) :
    name ∈ m.failed := by
  cases touched_of_touch touch with
  | refused failed => exact failed

theorem withClass_readies (m : Machine ω) (f : Frame) (link : Link) (name : String)
    (resume : Resume) : m.Readies link.pending name (m.withClass f link name resume) := by
  have asked := m.withClass_asked f link name resume
  generalize m.withClass f link name resume = p at asked ⊢
  cases asked with
  | @failed fault touch =>
      obtain ⟨m', e, ends, carries⟩ := m.failAt_carries f.method f.ip link fault
      rw [fail, ends]
      exact .refused (failed_of_touch_error touch) carries
  | @ready m₁ touch => exact readies_of_touch_none touch (m₁.carries_proceed f link resume)
  | waits touch entered =>
      obtain ⟨opens, rfl⟩ := Opens.of_touch touch
      obtain ⟨rfl, _⟩ := enter_eq_ok entered
      exact .begun opens (.runs ⟨rfl, rfl, rfl⟩ rfl)
  | @refused _ _ fault touch =>
      obtain ⟨opens, rfl⟩ := Opens.of_touch touch
      obtain ⟨m', e, ends, carries⟩ :=
        ((m.note name).poison name).failAt_carries f.method f.ip link fault
      rw [fail, ends]
      cases carries with
      | fails classes started failed =>
          -- The class was poisoned before the initializers below failed, so it comes last.
          refine .begun opens (.fails classes started ?_)
          rw [failed, List.reverse_cons, List.append_assoc]
          rfl

theorem startMethod_readies (m : Machine ω) (owner : String) (target : LoadedMethod)
    (args : List Value) : m.Readies [] owner (m.startMethod owner target args) := by
  have asked := m.startMethod_asked owner target args
  generalize m.startMethod owner target args = p at asked ⊢
  cases asked with
  | failed touch => exact .refused (failed_of_touch_error touch) (.fails rfl rfl rfl)
  | @ready m₁ touch =>
      exact readies_of_touch_none touch (m₁.carries_resume (.hostInitializer owner target args) none)
  | waits touch entered =>
      obtain ⟨opens, rfl⟩ := Opens.of_touch touch
      obtain ⟨rfl, _⟩ := enter_eq_ok entered
      exact .begun opens (.runs ⟨rfl, rfl, rfl⟩ rfl)
  | refused touch =>
      obtain ⟨opens, rfl⟩ := Opens.of_touch touch
      exact .begun opens (.fails rfl rfl rfl)

end Machine

/-! ## Failure -/

/-- The program has ended with an error. -/
def Progress.Failed (p : Progress ω) : Prop :=
  ∃ m e, p = .finished m (.error e)

namespace Machine

theorem failed_failAt (m : Machine ω) (method : LoadedMethod) (index : Nat) (link : Link)
    (fault : Fault) : (m.failAt method index link fault).Failed := by
  obtain ⟨m', ends, _⟩ := m.failAt_eq method index link fault
  exact ⟨m', _, ends⟩

theorem failed_of_spent (current : f.insn? = some insn) (spent : m.Spent) :
    (m.step f link).Failed := by
  obtain ⟨budget, limited, reached⟩ := spent
  rw [step_of_spent current limited reached]
  exact m.failed_failAt f.method f.ip link _

theorem failed_of_execute_error {fault : Fault} (current : f.insn? = some insn)
    (room : ¬ m.Spent) (failed : insn.execute m.heap f = .error fault) :
    (m.step f link).Failed := by
  have failed' : insn.execute m.counted.heap f = .error fault := failed
  rw [step_of_not_spent current room, perform, failed']
  exact m.counted.failed_failAt f.method f.ip link fault

end Machine

/-! ## Every move -/

/-- An instruction that makes the class ready for use: a static field access, the
creation of an object, or a static call that no bridge answers. -/
inductive Machine.AsksAt (m : Machine ω) (f : Frame) (name : String) : Prop
  | use {insn : Instruction} {g : Frame} {use : ClassUse} :
    f.insn? = some insn → ¬ m.Spent → insn.execute m.heap f = .ok (.touch g name use) →
    AsksAt m f name
  | call {insn : Instruction} {g : Frame} {c : Call} {method : LoadedMethod} :
    f.insn? = some insn → ¬ m.Spent → insn.execute m.heap f = .ok (.call g c) →
    c.mode = .static → m.bridges.find? c.key = none → m.staticMethod c.key = .ok method →
    c.key.owner = name → AsksAt m f name

namespace Progress

/-- The move makes the class ready for use: a step of such an instruction, or a call
of the host that no bridge answers. -/
inductive Asks (name : String) : Progress ω → Progress ω → Prop
  | step {m : Machine ω} {f : Frame} {link : Link} :
    m.AsksAt f name → Asks name (.running m f link) (m.step f link)
  | call {m : Machine ω} {outcome : Except RuntimeError (Option Value)}
    {className method descriptor : String} {args : List Value} {parsed : Descriptor}
    {target : LoadedMethod} :
    Descriptor.parse descriptor = .ok parsed →
    m.bridges.find? (.of className method descriptor) = none →
    m.staticMethod (.of className method descriptor) = .ok target →
    canonicalName className = name →
    Asks name (.finished m outcome) (m.start className method descriptor args)

/-- The move makes the class ready by starting its initializer. -/
def Begins (name : String) (p q : Progress ω) : Prop :=
  p.Asks name q ∧ p.machine.Opens name

end Progress

namespace Machine

theorem AsksAt.returns (asks : m.AsksAt f name) : m.returns f = false := by
  cases asks with
  | use current room done => simp only [Machine.returns, current, count_of_not_spent room, done]
  | call current room done => simp only [Machine.returns, current, count_of_not_spent room, done]

theorem step_of_execute_ok {effect : Effect} (current : f.insn? = some insn) (room : ¬ m.Spent)
    (done : insn.execute m.heap f = .ok effect) : m.step f link = m.counted.apply link effect := by
  have done' : insn.execute m.counted.heap f = .ok effect := done
  rw [step_of_not_spent current room, perform, done']

theorem AsksAt.readies (asks : m.AsksAt f name) (link : Link) :
    m.Readies (m.working f link) name (m.step f link) := by
  rw [working, asks.returns, if_neg Bool.false_ne_true]
  refine Readies.of_same m.sameRecord_counted ?_
  cases asks with
  | @use insn g use current room done =>
      rw [step_of_execute_ok current room done]
      exact m.counted.withClass_readies g link name (.use use)
  | @call insn g c method current room done static unbridged found owner =>
      have call : m.counted.call g link c = m.counted.withClass g link c.key.owner
          (.enter method c.args c.descriptor.returnsValue) :=
        call_of_static static unbridged found
      rw [step_of_execute_ok current room done, apply, call, ← owner]
      exact m.counted.withClass_readies g link c.key.owner _

/-- A call asks for a class, or is carried out without one. -/
theorem call_carries_or_static (m : Machine ω) (f : Frame) (link : Link) (c : Call) :
    m.Carries link.pending (m.call f link c) ∨
      c.mode = .static ∧ m.bridges.find? c.key = none ∧
        ∃ method, m.staticMethod c.key = .ok method := by
  have same (bridge : Bridge ω) :=
    m.sameRecord_callBridge bridge c.key c.descriptor (c.receiver.map .ofReference) c.args
  have called := m.call_called f link c
  generalize m.call f link c = p at called ⊢
  cases called with
  | @answered bridge m₁ value _ answered =>
      have kept := same bridge
      rw [answered] at kept
      exact Or.inl ((m₁.carries_deliver f link c.key _ value).of_same kept)
  | @failed bridge m₁ fault _ failed =>
      have kept := same bridge
      rw [failed] at kept
      exact Or.inl (Carries.of_same kept (m₁.carries_failAt f.method f.ip link fault))
  | static unbridged static found => exact Or.inr ⟨static, unbridged, _, found⟩
  | special => exact Or.inl (m.carries_enterFrom f link _ _ _ _ _)
  | refused => exact Or.inl (m.carries_failAt f.method f.ip link _)

/-- A frame returns by its current instruction. -/
theorem leave_of_returns (returned : m.returns f = true) :
    ∃ insn value, f.insn? = some insn ∧ ¬ m.Spent ∧ insn.execute m.heap f = .ok (.leave value) := by
  cases current : f.insn? with
  | none =>
      simp only [returns, current] at returned
      cases returned
  | some insn =>
      by_cases spent : m.Spent
      · obtain ⟨budget, limited, reached⟩ := spent
        simp only [returns, current, count_of_spent limited reached] at returned
        cases returned
      · simp only [returns, current, count_of_not_spent spent] at returned
        split at returned
        · rename_i value done
          exact ⟨insn, value, rfl, spent, done⟩
        · cases returned

/-- An instruction that does not return asks for a class, or is carried out without
one. -/
theorem execute_carries_or_asks (current : f.insn? = some insn) (room : ¬ m.Spent)
    (stays : m.returns f = false) (link : Link) :
    m.Carries link.pending (m.step f link) ∨ ∃ name, m.AsksAt f name := by
  have same := m.sameRecord_counted
  cases done : insn.execute m.heap f with
  | error fault =>
      have done' : insn.execute m.counted.heap f = .error fault := done
      rw [step_of_not_spent current room, perform, done']
      exact Or.inl (Carries.of_same same (m.counted.carries_failAt f.method f.ip link fault))
  | ok effect =>
      rw [step_of_execute_ok current room done]
      cases effect with
      | leave value =>
          have returned : m.returns f = true := by
            simp only [returns, current, count_of_not_spent room, done]
          cases returned.symm.trans stays
      | touch g name use => exact Or.inr ⟨name, .use current room done⟩
      | call g c =>
          rcases m.counted.call_carries_or_static g link c with carries |
            ⟨static, unbridged, method, found⟩
          · exact Or.inl (carries.of_same same)
          · exact Or.inr ⟨_, .call current room done static unbridged found rfl⟩
      | _ => exact Or.inl (.runs ⟨rfl, rfl, rfl⟩ rfl)

/-- A step asks for a class, or is carried out without one. -/
theorem step_carries_or_asks (m : Machine ω) (f : Frame) (link : Link) :
    m.Carries (m.working f link) (m.step f link) ∨ ∃ name, m.AsksAt f name := by
  cases returned : m.returns f with
  | true =>
      obtain ⟨insn, value, current, room, done⟩ := leave_of_returns returned
      have left : m.SameRecord m.counted.leave := ⟨rfl, rfl, rfl⟩
      rw [working, returned, if_pos rfl, step_of_execute_ok current room done]
      exact Or.inl ((m.counted.leave.carries_resume link value).of_same left)
  | false =>
      rw [working, returned, if_neg Bool.false_ne_true]
      cases current : f.insn? with
      | none =>
          rw [step_of_insn?_none current]
          exact Or.inl (m.carries_failAt f.method _ link _)
      | some insn =>
          by_cases spent : m.Spent
          · obtain ⟨budget, limited, reached⟩ := spent
            rw [step_of_spent current limited reached]
            exact Or.inl (m.carries_failAt f.method f.ip link _)
          · exact execute_carries_or_asks current spent returned link

/-- A call of the host asks for a class, or is carried out without one. -/
theorem start_carries_or_asks (m : Machine ω) (outcome : Except RuntimeError (Option Value))
    (className method descriptor : String) (args : List Value) :
    m.Carries [] (m.start className method descriptor args) ∨
      (Progress.finished m outcome).Asks (canonicalName className)
        (m.start className method descriptor args) := by
  have same (bridge : Bridge ω) (parsed : Descriptor) :=
    m.sameRecord_callBridge bridge (.of className method descriptor) parsed none args
  generalize eq : m.start className method descriptor args = p
  have called := m.start_called className method descriptor args
  rw [eq] at called
  cases called with
  | malformed => exact Or.inl (.fails rfl rfl rfl)
  | @answered parsed bridge _ _ _ _ answered =>
      have kept := same bridge parsed
      rw [answered] at kept
      exact Or.inl (.ends kept rfl)
  | @failed parsed bridge _ _ _ _ failed =>
      have kept := same bridge parsed
      rw [failed] at kept
      exact Or.inl (.fails kept.classes kept.started kept.failed)
  | static parsed unbridged found => exact Or.inr (eq ▸ .call parsed unbridged found rfl)
  | refused => exact Or.inl (.fails rfl rfl rfl)

end Machine

namespace Progress

/-- **Every move asks for a class, or leaves the record to the failures of what is at
work.** -/
theorem Next.carries_or_asks (next : p.Next allowed q) :
    p.machine.Carries p.working q ∨ ∃ name, p.Asks name q := by
  cases next with
  | step m f link =>
      rcases m.step_carries_or_asks f link with carries | ⟨name, asks⟩
      · exact Or.inl carries
      · exact Or.inr ⟨name, .step asks⟩
  | @act m action outcome allows =>
      cases action with
      | call className method descriptor args =>
          rcases m.start_carries_or_asks outcome className method descriptor args with
            carries | asks
          · exact Or.inl carries
          · exact Or.inr ⟨_, asks⟩
      | _ => exact Or.inl (.ends ⟨rfl, rfl, rfl⟩ rfl)

/-- **What becomes of a move that asks for a class.** -/
theorem Asks.readies (asks : p.Asks name q) : p.machine.Readies p.working name q := by
  cases asks with
  | @step m f link asks => exact asks.readies link
  | @call m outcome className method descriptor args parsed target parses unbridged found same =>
      rw [← same]
      simp only [Machine.start, parses, unbridged, found]
      exact m.startMethod_readies (canonicalName className) target args

end Progress

end ClassMachine
