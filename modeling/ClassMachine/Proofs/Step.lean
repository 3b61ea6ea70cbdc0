import ClassMachine.Proofs.Run
import ClassMachine.Proofs.Settle

/-!
# What a step can do

One step counts an instruction and carries it out with all that follows from
it. `Moves` says everything that a step can do, and `Machine.step_moves` proves
that it does nothing else; `Starts` and `Machine.start_starts` do the same for
the start of a call of the host. Frames that are linked stay linked, so both
hold along every run (`Progress.linked_of_reaches`). `Fails` lists the errors
with which a step can end the call.
-/

namespace ClassMachine

variable {ω : Type} {m m' m'' : Machine ω} {f g callee : Frame} {link : Link}
  {p q : Progress ω} {insn : Instruction}

/-! ## Counting -/

namespace Machine

/-- The machine with one more instruction counted. -/
def counted (m : Machine ω) : Machine ω :=
  { m with profile := { m.profile with executed := m.profile.executed + 1 } }

/-- The budget allows no further instruction. -/
def Spent (m : Machine ω) : Prop :=
  ∃ budget, m.limits.budget = some budget ∧ budget ≤ m.profile.executed

theorem count_of_spent {budget : Nat} (limited : m.limits.budget = some budget)
    (reached : budget ≤ m.profile.executed) :
    m.profile.count m.limits.budget = .error (.budgetSpent budget) := by
  simp only [Profile.count, limited, if_pos reached]

theorem count_of_not_spent (room : ¬ m.Spent) :
    m.profile.count m.limits.budget = .ok m.counted.profile := by
  unfold Profile.count
  split
  · rename_i budget limited
    exact if_neg fun reached => room ⟨budget, limited, reached⟩
  · rfl

/-- Whether the step of a frame carries out a return. -/
def returns (m : Machine ω) (f : Frame) : Bool :=
  match f.insn?, m.profile.count m.limits.budget with
  | some insn, .ok _ =>
    match insn.execute m.heap f with
    | .ok (.leave _) => true
    | _ => false
  | _, _ => false

end Machine

/-! ## Steps -/

/-- Everything that a step of a program can do. -/
inductive Moves (m : Machine ω) (f : Frame) : Link → Progress ω → Prop
  /-- The frame stands behind its last instruction. -/
  | fellOff {link : Link} :
    f.insn? = none →
    Moves m f link (m.failAt f.method (f.ip - 1) link (.fellOffEnd f.ip))
  /-- The budget is spent. -/
  | spent {link : Link} {insn : Instruction} {budget : Nat} :
    f.insn? = some insn → m.limits.budget = some budget → budget ≤ m.profile.executed →
    Moves m f link (m.fail f link (.budgetSpent budget))
  /-- The frame goes on, or waits, or fails. -/
  | settles {link : Link} {insn : Instruction} {p : Progress ω} :
    f.insn? = some insn → ¬ m.Spent → m.returns f = false → Settles m.counted f link p →
    Moves m f link p
  /-- The frame jumps. -/
  | jump {link : Link} {insn : Instruction} {m' : Machine ω} {g : Frame} {target : Nat} :
    f.insn? = some insn → ¬ m.Spent → m.counted.Keeps m' → f.Alike g →
    insn.opcode.family = .controlTransfer → insn.targetOperand = .ok target →
    Moves m f link (.running m' { g with ip := target } link)
  /-- The frame returns to the host. -/
  | answer {insn : Instruction} (value : Option Value) :
    f.insn? = some insn → ¬ m.Spent → m.returns f = true →
    Moves m f .host (.finished m.counted.leave (.ok value))
  /-- The frame returns to the host, which then enters the method it called. -/
  | enter {insn : Instruction} {name : String} {target : LoadedMethod} {args : List Value}
    {callee : Frame} :
    f.insn? = some insn → ¬ m.Spent → m.returns f = true →
    m.counted.leave.depth < m.limits.maxDepth → callee.method = target → callee.ip = 0 →
    Moves m f (.hostInitializer name target args)
      (.running (m.counted.leave.atDepth (m.counted.leave.depth + 1)) callee .host)
  /-- The frame returns to the host, which cannot enter the method it called. -/
  | refuse {insn : Instruction} {name : String} {target : LoadedMethod} {args : List Value}
    {fault : Fault} :
    f.insn? = some insn → ¬ m.Spent → m.returns f = true → fault.OfInstruction →
    Moves m f (.hostInitializer name target args)
      (.finished m.counted.leave (.error { fault }))
  /-- The frame returns to the one that waits for it. -/
  | resume {insn : Instruction} {g : Frame} {await : Await} {link : Link} {p : Progress ω} :
    f.insn? = some insn → ¬ m.Spent → m.returns f = true → Settles m.counted.leave g link p →
    Moves m f (.caller g await link) p

namespace Machine

/-- The effects that neither jump nor return. -/
theorem apply_settles {effect : Effect} (current : f.insn? = some insn)
    (effects : insn.Effects f effect) (stays : ∀ value, effect ≠ .leave value)
    (ahead : ∀ g target, effect ≠ .jump g target) :
    Settles m f link (m.apply link effect) := by
  cases effects with
  | next alike => exact .advance (.refl m) alike
  | allocate alike =>
      exact .advance ⟨rfl, rfl, rfl, rfl, rfl⟩ (alike.trans (Frame.alike_push _ _))
  | constant alike =>
      exact .advance ⟨rfl, rfl, rfl, rfl, rfl⟩ (alike.trans (Frame.alike_push _ _))
  | write alike => exact .advance ⟨rfl, rfl, rfl, rfl, rfl⟩ alike
  | jump => exact (ahead _ _ rfl).elim
  | @leave result => exact (stays result rfl).elim
  | @touch g name use alike touched =>
      have awaits : g.Awaits m.classes (.initializer name (.use use)) := trivial
      exact (withClass_settles (alike.insn?.trans current) touched awaits).of_alike alike
  | call alike opcode operand key =>
      exact (call_settles (alike.insn?.trans current) opcode operand key).of_alike alike

/-- The frame below takes up its instruction when the one above has returned. -/
theorem resume_moves (current : f.insn? = some insn) (room : ¬ m.Spent)
    (returned : m.returns f = true) (linked : link.Linked m.classes f.method)
    (value : Option Value) : Moves m f link (link.resume m.counted.leave value) := by
  cases link with
  | host => exact .answer value current room returned
  | hostInitializer name target args =>
      rw [Link.resume]
      split
      · rename_i m' callee entered
        obtain ⟨rfl, space, method, fresh⟩ := enter_eq_ok entered
        exact .enter current room returned space method fresh
      · rename_i fault refused
        exact .refuse current room returned (enter_fails _ target none args fault refused)
  | caller g await link =>
      refine .resume current room returned ?_
      cases await with
      | call key wantsValue => exact deliver_settles _ g link key wantsValue value
      | initializer name resume => exact proceed_settles linked.2.1

theorem step_of_insn?_none (past : f.insn? = none) :
    m.step f link = m.failAt f.method (f.ip - 1) link (.fellOffEnd f.ip) := by
  unfold Frame.insn? at past
  rw [step, past]

theorem step_of_spent {budget : Nat} (current : f.insn? = some insn)
    (limited : m.limits.budget = some budget) (reached : budget ≤ m.profile.executed) :
    m.step f link = m.fail f link (.budgetSpent budget) := by
  unfold Frame.insn? at current
  simp only [step, current, count_of_spent limited reached]

theorem step_of_not_spent (current : f.insn? = some insn) (room : ¬ m.Spent) :
    m.step f link = m.counted.perform f link insn f.method f.ip := by
  unfold Frame.insn? at current
  simp only [step, current, count_of_not_spent room]
  rfl

/-- **A step does nothing else.** -/
theorem step_moves (linked : link.Linked m.classes f.method) :
    Moves m f link (m.step f link) := by
  cases current : f.insn? with
  | none =>
      rw [step_of_insn?_none current]
      exact .fellOff current
  | some insn =>
      by_cases spent : m.Spent
      · obtain ⟨budget, limited, reached⟩ := spent
        rw [step_of_spent current limited reached]
        exact .spent current limited reached
      · have counts := count_of_not_spent spent
        rw [step_of_not_spent current spent, perform]
        -- Counting leaves the heap as it is, so whether the frame returns is known before.
        cases done : insn.execute m.counted.heap f with
        | error fault =>
            have stays : m.returns f = false := by
              simp only [returns, current, counts, show insn.execute m.heap f = _ from done]
            exact .settles current spent stays
              (.fail (insn.execute_fails m.heap f fault done) (.refl _))
        | ok effect =>
            have effects := Instruction.execute_effects done
            cases effect with
            | leave value =>
                have returned : m.returns f = true := by
                  simp only [returns, current, counts, show insn.execute m.heap f = _ from done]
                exact resume_moves current spent returned linked value
            | jump g target =>
                cases effects with
                | jump alike family operand =>
                    have kept := m.counted.profile.executed_jump ⟨g.method.id, g.ip⟩
                      ⟨g.method.id, target⟩
                    exact .jump current spent ⟨rfl, rfl, rfl, kept, rfl⟩ alike family operand
            | _ =>
                have stays : m.returns f = false := by
                  simp only [returns, current, counts, show insn.execute m.heap f = _ from done]
                exact .settles current spent stays (apply_settles current effects nofun nofun)

end Machine

/-! ## What stays the same -/

/-- A failure ends the frame at work and all that wait. -/
theorem Machine.failAt_keeps (m : Machine ω) (method : LoadedMethod) (index : Nat)
    (link : Link) (fault : Fault) :
    (m.atDepth (m.depth - (link.frames.length + 1))).Keeps
      (m.failAt method index link fault).machine := by
  obtain ⟨m', ends, keeps⟩ := m.failAt_eq method index link fault
  rw [ends]
  exact keeps

/-- Whatever an instruction comes to, the machine differs in the number of frames
and in what instructions work on. -/
theorem Settles.keeps (settles : Settles m f link p) :
    ∃ depth, (m.atDepth depth).Keeps p.machine := by
  cases settles with
  | advance keeps => exact ⟨m.depth, keeps⟩
  | enter keeps => exact ⟨m.depth + 1, keeps.atDepth _⟩
  | @fail m' fault _ keeps =>
      exact ⟨_, (keeps.atDepth _).trans (m'.failAt_keeps f.method f.ip link fault)⟩

/-- A step that carries out an instruction counts it, and no other one. -/
theorem Moves.keeps (moves : Moves m f link p) (current : f.insn? = some insn)
    (room : ¬ m.Spent) : ∃ depth, (m.counted.atDepth depth).Keeps p.machine := by
  cases moves with
  | fellOff past =>
      rw [current] at past
      cases past
  | spent _ limited reached => exact (room ⟨_, limited, reached⟩).elim
  | settles _ _ _ settles => exact settles.keeps
  | jump _ _ keeps => exact ⟨_, keeps⟩
  | answer => exact ⟨_, .refl _⟩
  | enter => exact ⟨_, .refl _⟩
  | refuse => exact ⟨_, .refl _⟩
  | resume _ _ _ settles => exact settles.keeps

/-- What may become of a machine in a run: its program, bridges and limits stay, and
the count of instructions grows. -/
structure Machine.Becomes (m m' : Machine ω) : Prop where
  classes : m'.classes = m.classes
  bridges : m'.bridges = m.bridges
  limits : m'.limits = m.limits
  executed : m.profile.executed ≤ m'.profile.executed

namespace Machine

theorem Becomes.refl (m : Machine ω) : m.Becomes m :=
  ⟨rfl, rfl, rfl, Nat.le_refl _⟩

theorem Becomes.trans (left : m.Becomes m') (right : m'.Becomes m'') : m.Becomes m'' :=
  ⟨right.classes.trans left.classes, right.bridges.trans left.bridges,
    right.limits.trans left.limits, Nat.le_trans left.executed right.executed⟩

theorem Keeps.becomes {depth : Nat} (keeps : (m.atDepth depth).Keeps m') : m.Becomes m' :=
  ⟨keeps.classes, keeps.bridges, keeps.limits, Nat.le_of_eq keeps.executed.symm⟩

theorem becomes_counted (m : Machine ω) : m.Becomes m.counted :=
  ⟨rfl, rfl, rfl, Nat.le_succ _⟩

end Machine

theorem Moves.becomes (moves : Moves m f link p) : m.Becomes p.machine := by
  have counts : ∀ {insn}, f.insn? = some insn → ¬ m.Spent → m.Becomes p.machine := by
    intro insn current room
    obtain ⟨depth, keeps⟩ := moves.keeps current room
    exact m.becomes_counted.trans keeps.becomes
  cases moves with
  | fellOff => exact (m.failAt_keeps f.method (f.ip - 1) link _).becomes
  | spent => exact (m.failAt_keeps f.method f.ip link _).becomes
  | settles current room => exact counts current room
  | jump current room => exact counts current room
  | answer _ current room => exact counts current room
  | enter current room => exact counts current room
  | refuse current room => exact counts current room
  | resume current room => exact counts current room

namespace Progress

/-- Frames that run are linked. -/
def Linked : Progress ω → Prop
  | .running m f link => link.Linked m.classes f.method
  | .finished _ _ => True

end Progress

theorem Settles.linked (settles : Settles m f link p) (linked : link.Linked m.classes f.method) :
    p.Linked := by
  cases settles with
  | @advance m' g keeps alike =>
      change link.Linked m'.classes g.method
      rw [keeps.classes, alike.method]
      exact linked
  | @enter m' g callee await keeps room alike fresh calls awaits =>
      change (Link.caller g await link).Linked m'.classes callee.method
      rw [keeps.classes]
      rw [← alike.method] at linked
      exact ⟨calls, awaits, linked⟩
  | @fail m' fault _ keeps =>
      obtain ⟨m'', ends, _⟩ := m'.failAt_eq f.method f.ip link fault
      rw [Machine.fail, ends]
      trivial

theorem Moves.linked (moves : Moves m f link p) (linked : link.Linked m.classes f.method) :
    p.Linked := by
  cases moves with
  | fellOff =>
      obtain ⟨m', ends, _⟩ := m.failAt_eq f.method (f.ip - 1) link (.fellOffEnd f.ip)
      rw [ends]
      trivial
  | @spent _ _ budget =>
      obtain ⟨m', ends, _⟩ := m.failAt_eq f.method f.ip link (.budgetSpent budget)
      rw [Machine.fail, ends]
      trivial
  | settles _ _ _ settles => exact settles.linked linked
  | @jump _ _ m' g target _ _ keeps alike =>
      change link.Linked m'.classes g.method
      rw [keeps.classes, alike.method]
      exact linked
  | answer => trivial
  | enter _ _ _ _ method =>
      change ClassTable.Has m.classes _
      rw [method]
      exact linked.2
  | refuse => trivial
  | resume _ _ _ settles => exact settles.linked linked.2.2

/-! ## How a step fails -/

/-- Every way in which a step can end the call of the host with an error. -/
inductive Fails (m : Machine ω) (f : Frame) : Link → RuntimeError → Prop
  /-- The frame stands behind its last instruction. -/
  | fellOff {link : Link} :
    f.insn? = none →
    Fails m f link
      ⟨.fellOffEnd f.ip, some (.of f.method (f.ip - 1)), link.frames.map Frame.location⟩
  /-- The budget is spent. -/
  | spent {link : Link} {insn : Instruction} (budget : Nat) :
    f.insn? = some insn → m.returns f = false →
    Fails m f link ⟨.budgetSpent budget, some f.location, link.frames.map Frame.location⟩
  /-- The instruction fails. -/
  | instruction {link : Link} {insn : Instruction} {fault : Fault} :
    f.insn? = some insn → m.returns f = false → fault.OfInstruction →
    Fails m f link ⟨fault, some f.location, link.frames.map Frame.location⟩
  /-- The frame returns, and the instruction that waited for it fails. -/
  | resumed {insn : Instruction} {g : Frame} {await : Await} {link : Link} {fault : Fault} :
    f.insn? = some insn → m.returns f = true → fault.OfInstruction →
    Fails m f (.caller g await link) ⟨fault, some g.location, link.frames.map Frame.location⟩
  /-- The initializer returns, and the host cannot enter the method it called. -/
  | refused {insn : Instruction} {name : String} {target : LoadedMethod} {args : List Value}
    {fault : Fault} :
    f.insn? = some insn → m.returns f = true → fault.OfInstruction →
    Fails m f (.hostInitializer name target args) { fault }

/-- The error of a failure is the one that the failed instruction asks for. -/
theorem Machine.error_of_failAt {method : LoadedMethod} {index : Nat} {fault : Fault}
    {e : RuntimeError} (ended : m.failAt method index link fault = .finished m' (.error e)) :
    e = ⟨fault, some (.of method index), link.frames.map Frame.location⟩ := by
  obtain ⟨m'', ends, _⟩ := m.failAt_eq method index link fault
  rw [ends] at ended
  cases ended
  rfl

theorem Settles.fails {e : RuntimeError} (settles : Settles m f link p)
    (ended : p = .finished m' (.error e)) :
    e.fault.OfInstruction ∧
      e = ⟨e.fault, some f.location, link.frames.map Frame.location⟩ := by
  cases settles with
  | advance => cases ended
  | enter => cases ended
  | fail kind keeps =>
      cases Machine.error_of_failAt ended
      exact ⟨kind, rfl⟩

theorem Moves.fails {e : RuntimeError} (moves : Moves m f link p)
    (ended : p = .finished m' (.error e)) : Fails m f link e := by
  cases moves with
  | fellOff past =>
      rw [Machine.error_of_failAt ended]
      exact .fellOff past
  | spent current limited reached =>
      have stays : m.returns f = false := by
        simp only [Machine.returns, current, Machine.count_of_spent limited reached]
      rw [Machine.error_of_failAt ended]
      exact .spent _ current stays
  | settles current _ stays settles =>
      obtain ⟨kind, eq⟩ := settles.fails ended
      rw [eq]
      exact .instruction current stays kind
  | jump => cases ended
  | answer => cases ended
  | enter => cases ended
  | refuse current _ returned kind =>
      cases ended
      exact .refused current returned kind
  | resume current _ returned settles =>
      obtain ⟨kind, eq⟩ := settles.fails ended
      rw [eq]
      exact .resumed current returned kind

/-! ## The start of a call -/

/-- Everything that a call of the host can start with. -/
inductive Starts (m : Machine ω) : Progress ω → Prop
  /-- The call fails before any frame is at work. -/
  | refuse {m' : Machine ω} {fault : Fault} :
    fault.OfInstruction → m.Keeps m' → Starts m (.finished m' (.error { fault }))
  /-- A bridge answers the call. -/
  | answer {m' : Machine ω} (value : Option Value) :
    m.Keeps m' → Starts m (.finished m' (.ok value))
  /-- The first frame is that of the method or of the initializer of its class. -/
  | run {m' : Machine ω} {f : Frame} {link : Link} :
    m.Keeps m' → m.depth < m.limits.maxDepth → f.ip = 0 → link.frames = [] →
    link.Linked m.classes f.method →
    Starts m (.running (m'.atDepth (m.depth + 1)) f link)

namespace Machine

theorem startMethod_starts {owner : String} {key : MethodKey} {target : LoadedMethod}
    (found : m.classes.method? key = some target) (args : List Value) :
    Starts m (m.startMethod owner target args) := by
  have asked := m.startMethod_asked owner target args
  generalize m.startMethod owner target args = p at asked ⊢
  cases asked with
  | failed touch => exact .refuse (m.touch_fails owner _ touch) (.refl m)
  | @ready m₁ touch =>
      have keeps := (touch_cases touch).1
      rw [Link.resume]
      split
      · rename_i m₂ callee entered
        obtain ⟨rfl, room, rfl, fresh⟩ := enter_eq_ok entered
        rw [keeps.depth, keeps.limits] at room
        rw [keeps.depth]
        exact .run keeps room fresh rfl ⟨key, found⟩
      · rename_i fault refused
        exact .refuse (m₁.enter_fails target none args fault refused) keeps
  | waits touch entered =>
      obtain ⟨keeps, recorded⟩ := touch_cases touch
      obtain ⟨rfl, room, rfl, fresh⟩ := enter_eq_ok entered
      rw [keeps.depth, keeps.limits] at room
      rw [keeps.depth]
      exact .run keeps room fresh rfl ⟨⟨_, recorded _ rfl⟩, ⟨key, found⟩⟩
  | @refused m₁ initializer fault touch refused =>
      have keeps := (touch_cases touch).1
      exact .refuse (m₁.enter_fails initializer none [] fault refused)
        (keeps.trans (m₁.keeps_poison owner))

/-- **A call starts in no other way.** -/
theorem start_starts (m : Machine ω) (className method descriptor : String)
    (args : List Value) : Starts m (m.start className method descriptor args) := by
  have keeps (bridge : Bridge ω) (parsed : Descriptor) :=
    m.keeps_callBridge bridge (.of className method descriptor) parsed none args
  have called := m.start_called className method descriptor args
  generalize m.start className method descriptor args = p at called ⊢
  cases called with
  | malformed => exact .refuse ⟨nofun, nofun⟩ (.refl m)
  | @answered parsed bridge _ value _ _ answered =>
      have kept := keeps bridge parsed
      rw [answered] at kept
      exact .answer value kept
  | @failed parsed bridge _ _ _ _ failed =>
      have kept := keeps bridge parsed
      rw [failed] at kept
      exact .refuse (callBridge_fails failed) kept
  | static _ _ found => exact startMethod_starts (method?_of_staticMethod found) args
  | refused _ _ refusal => exact .refuse (ofInstruction_of_refusal refusal) (.refl m)

end Machine

theorem Starts.linked (starts : Starts m p) : p.Linked := by
  cases starts with
  | refuse => trivial
  | answer => trivial
  | @run m' f link keeps _ _ _ linked =>
      change link.Linked m'.classes f.method
      rw [keeps.classes]
      exact linked

/-- The start of a call counts no instruction. -/
theorem Starts.keeps (starts : Starts m p) : ∃ depth, (m.atDepth depth).Keeps p.machine := by
  cases starts with
  | refuse _ keeps => exact ⟨m.depth, keeps⟩
  | answer _ keeps => exact ⟨m.depth, keeps⟩
  | run keeps => exact ⟨m.depth + 1, keeps.atDepth _⟩

theorem Starts.becomes (starts : Starts m p) : m.Becomes p.machine := by
  obtain ⟨depth, keeps⟩ := starts.keeps
  exact keeps.becomes

/-! ## Whole runs -/

namespace Progress

theorem linked_step (linked : p.Linked) : p.step.Linked := by
  cases p with
  | running m f link => exact (Machine.step_moves linked).linked linked
  | finished m outcome => trivial

theorem Reaches.linked (linked : p.Linked) (reached : p.Reaches q) : q.Linked :=
  reached.invariant linked fun _ _ => linked_step

theorem becomes_step (linked : p.Linked) : p.machine.Becomes p.step.machine := by
  cases p with
  | running m f link => exact (Machine.step_moves linked).becomes
  | finished m outcome => exact .refl m

theorem Reaches.becomes (linked : p.Linked) (reached : p.Reaches q) :
    p.machine.Becomes q.machine :=
  reached.invariant (I := fun q => p.machine.Becomes q.machine) (.refl _)
    fun _ ahead ih => ih.trans (becomes_step (ahead.linked linked))

/-- Frames are linked on every run. -/
theorem linked_of_reaches {className method descriptor : String} {args : List Value}
    (reached : (m.start className method descriptor args).Reaches p) : p.Linked :=
  reached.linked (m.start_starts className method descriptor args).linked

theorem becomes_of_reaches {className method descriptor : String} {args : List Value}
    (reached : (m.start className method descriptor args).Reaches p) : m.Becomes p.machine :=
  (m.start_starts className method descriptor args).becomes.trans
    (reached.becomes (m.start_starts className method descriptor args).linked)

end Progress

end ClassMachine
