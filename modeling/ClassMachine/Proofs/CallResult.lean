import ClassMachine.Proofs.ControlFlow
import ClassMachine.Proofs.Readiness

/-!
# Results of calls

A call of the host is answered by a bridge, or by the frame of the method that it names:
below all others there is always that frame, or the host that is still to enter it
(`Progress.AnsweredBy`, `Progress.Reaches.answeredBy`).

So the result is that of the bridge, which goes by the descriptor, or that of a return
instruction of the method, which does not: there is a value exactly if the opcode takes one
(`Machine.call_result`). Where the returns of a method are of the kind that its descriptor
says, so is the result.
-/

namespace ClassMachine

variable {ω : Type} {m m' : Machine ω} {f g : Frame} {link : Link} {p q : Progress ω}
  {insn : Instruction} {target : LoadedMethod} {result : Option Value}
  {className method descriptor : String} {args : List Value}

/-! ## Returns -/

/-- The returns of the code are of the kind that the descriptor says. -/
def MethodCode.ReturnsAs (code : MethodCode) (d : Descriptor) : Prop :=
  ∀ insn ∈ code.instructions, (insn.opcode = .returnVoid → d.result = .void) ∧
    ∀ slot, insn.opcode = .returnValue slot → d.result ≠ .void

/-- A return of the kind that the descriptor says gives a value if and only if the
descriptor does. -/
theorem MethodCode.ReturnsAs.isSome_iff {code : MethodCode} {d : Descriptor}
    (agrees : code.ReturnsAs d) (member : insn ∈ code.instructions)
    (returns : insn.Returns result) : result.isSome ↔ d.result ≠ .void := by
  obtain ⟨void, value⟩ := agrees insn member
  rcases returns with ⟨opcode, rfl⟩ | ⟨slot, _, opcode, rfl⟩
  · simp [void opcode]
  · simp [value slot opcode]

/-! ## Who answers -/

/-- The method whose frame is below all others, when a frame of the given one is at work:
the one that the host waits for. -/
def Link.answering : LoadedMethod → Link → LoadedMethod
  | method, .host => method
  | _, .hostInitializer _ target _ => target
  | _, .caller f _ link => link.answering f.method

namespace Progress

/-- The host waits for the method, if the program still runs. -/
def AnsweredBy (target : LoadedMethod) : Progress ω → Prop
  | .running _ f link => link.answering f.method = target
  | .finished _ _ => True

end Progress

theorem Machine.answeredBy_failAt (m : Machine ω) (method : LoadedMethod) (index : Nat)
    (link : Link) (fault : Fault) : (m.failAt method index link fault).AnsweredBy target := by
  obtain ⟨m', ends, _⟩ := m.failAt_eq method index link fault
  rw [ends]
  trivial

theorem Settles.answeredBy (settles : Settles m f link p)
    (answering : link.answering f.method = target) : p.AnsweredBy target := by
  cases settles with
  | @advance m' g keeps alike =>
      change link.answering g.method = target
      rw [alike.method]
      exact answering
  | @enter m' g callee await keeps room alike =>
      change link.answering g.method = target
      rw [alike.method]
      exact answering
  | @fail m' fault => exact m'.answeredBy_failAt f.method f.ip link fault

theorem Moves.answeredBy (moves : Moves m f link p)
    (answering : link.answering f.method = target) : p.AnsweredBy target := by
  cases moves with
  | fellOff => exact m.answeredBy_failAt f.method _ link _
  | spent => exact m.answeredBy_failAt f.method _ link _
  | settles _ _ _ settles => exact settles.answeredBy answering
  | @jump _ _ m' g _ _ _ _ alike =>
      change link.answering g.method = target
      rw [alike.method]
      exact answering
  | answer => trivial
  | enter _ _ _ _ method =>
      change _ = target
      exact method.trans answering
  | refuse => trivial
  | resume _ _ _ settles => exact settles.answeredBy answering

/-- The host waits for the method that it calls, or the call has failed. -/
theorem Machine.startMethod_cases (m : Machine ω) (owner : String) (target : LoadedMethod)
    (args : List Value) :
    (∃ m' f link, m.startMethod owner target args = .running m' f link ∧
        link.answering f.method = target) ∨
      ∃ m' e, m.startMethod owner target args = .finished m' (.error e) := by
  have asked := m.startMethod_asked owner target args
  generalize m.startMethod owner target args = p at asked ⊢
  cases asked with
  | failed => exact Or.inr ⟨m, _, rfl⟩
  | @ready m₁ =>
      rw [Link.resume]
      split
      · rename_i m₂ callee entered
        exact Or.inl ⟨m₂, callee, .host, rfl, (enter_eq_ok entered).2.2.1⟩
      · exact Or.inr ⟨m₁, _, rfl⟩
  | waits => exact Or.inl ⟨_, _, .hostInitializer owner target args, rfl, rfl⟩
  | refused => exact Or.inr ⟨_, _, rfl⟩

namespace Progress

/-- Steps do not change which method the host waits for. -/
theorem Reaches.answeredBy (linked : p.Linked) (answered : p.AnsweredBy target)
    (reached : p.Reaches q) : q.AnsweredBy target := by
  refine reached.invariant answered fun r ahead answered => ?_
  cases r with
  | running m f link => exact (Machine.step_moves (ahead.linked linked)).answeredBy answered
  | finished m outcome => trivial

end Progress

/-! ## The last return -/

theorem Settles.not_ok (settles : Settles m f link p) : p ≠ .finished m' (.ok result) := by
  intro ended
  cases settles with
  | advance => cases ended
  | enter => cases ended
  | @fail m'' fault =>
      obtain ⟨_, ends, _⟩ := m''.failAt_eq f.method f.ip link fault
      cases ends.symm.trans ended

/-- A call of the host that goes well ends when a frame returns to the host. -/
theorem Moves.answers (moves : Moves m f link p) (ended : p = .finished m' (.ok result)) :
    link = .host ∧ m.returns f = true := by
  cases moves with
  | fellOff =>
      obtain ⟨_, ends, _⟩ := m.failAt_eq f.method (f.ip - 1) link (.fellOffEnd f.ip)
      cases ends.symm.trans ended
  | @spent _ _ budget =>
      obtain ⟨_, ends, _⟩ := m.failAt_eq f.method f.ip link (.budgetSpent budget)
      cases ends.symm.trans ended
  | settles _ _ _ settles => exact (settles.not_ok ended).elim
  | jump => cases ended
  | answer _ _ _ returned => exact ⟨rfl, returned⟩
  | enter => cases ended
  | refuse => cases ended
  | resume _ _ _ settles => exact (settles.not_ok ended).elim

/-- The last step of a call that goes well is a return, which has the result. -/
theorem Machine.returns_of_step (linked : link.Linked m.classes f.method)
    (last : m.step f link = .finished m' (.ok result)) :
    link = .host ∧ ∃ insn, f.insn? = some insn ∧ insn.Returns result := by
  obtain ⟨rfl, returned⟩ := (step_moves linked).answers last
  obtain ⟨insn, value, current, room, done⟩ := leave_of_returns returned
  rw [step_of_execute_ok current room done] at last
  cases last
  cases Instruction.execute_effects done with
  | leave returns => exact ⟨rfl, insn, current, returns⟩

/-- A bridge gives a value exactly if the descriptor says so. -/
theorem Machine.isSome_of_callBridge {bridge : Bridge ω} {key : MethodKey} {d : Descriptor}
    {receiver : Option Value}
    (answered : m.callBridge bridge key d receiver args = (m', .ok result)) :
    result.isSome ↔ d.result ≠ .void := by
  have consulted := m.callBridge_consulted bridge key d receiver args
  rw [answered] at consulted
  cases consulted with
  | answered => by_cases void : d.result = .void <;> simp [Descriptor.returnsValue, void]

/-! ## Calls of the host -/

namespace Machine

/-- A call that goes well is one of a bridge, which has answered, or of a static method. -/
theorem start_of_ends (ends : (m.start className method descriptor args).Ends m' (.ok result)) :
    ∃ d, Descriptor.parse descriptor = .ok d ∧
      ((∃ bridge, m.bridges.find? (.of className method descriptor) = some bridge ∧
          m.callBridge bridge (.of className method descriptor) d none args
            = (m', .ok result)) ∨
        m.bridges.find? (.of className method descriptor) = none ∧
          ∃ target, m.staticMethod (.of className method descriptor) = .ok target ∧
            m.start className method descriptor args
              = m.startMethod (canonicalName className) target args) := by
  generalize eq : m.start className method descriptor args = p at ends ⊢
  have called := m.start_called className method descriptor args
  rw [eq] at called
  cases called with
  | malformed => cases (Progress.Ends.of_finished ends).2
  | answered parsed bridged answered =>
      obtain ⟨rfl, outcome⟩ := Progress.Ends.of_finished ends
      cases outcome
      exact ⟨_, parsed, Or.inl ⟨_, bridged, answered⟩⟩
  | failed => cases (Progress.Ends.of_finished ends).2
  | static parsed unbridged found => exact ⟨_, parsed, Or.inr ⟨unbridged, _, found, rfl⟩⟩
  | refused => cases (Progress.Ends.of_finished ends).2

/-- A method that answers the host does so at one of its return instructions. -/
theorem answer_of_startMethod {owner : String} (linked : (m.startMethod owner target args).Linked)
    (ends : (m.startMethod owner target args).Ends m' (.ok result)) :
    ∃ m₁ f insn, (m.startMethod owner target args).Reaches (.running m₁ f .host) ∧
      m₁.step f .host = .finished m' (.ok result) ∧ f.method = target ∧
      f.insn? = some insn ∧ insn.Returns result := by
  have answered : (m.startMethod owner target args).AnsweredBy target ∧
      ∀ m' result, m.startMethod owner target args ≠ .finished m' (.ok result) := by
    rcases m.startMethod_cases owner target args with ⟨m₁, f, link, eq, answering⟩ | ⟨m₁, e, eq⟩
    · rw [eq]
      exact ⟨answering, nofun⟩
    · rw [eq]
      exact ⟨trivial, nofun⟩
  rcases ends.cases_last with start | ⟨m₁, f, link, reached, last⟩
  · exact (answered.2 m' result start.symm).elim
  · obtain ⟨rfl, insn, current, returns⟩ := returns_of_step (reached.linked linked) last
    exact ⟨m₁, f, insn, reached, last, reached.answeredBy linked answered.1, current, returns⟩

/-- **What a call of the host results in.** Whatever the program, the bridges and the state
are, a call that goes well has a well-formed descriptor, and

* where a bridge stands for the method, there is a value if and only if the descriptor's
  result is not void;
* otherwise the key is that of a static method, and the call ends when the frame of this
  method, and no other, is at one of its return instructions: there is a value if and only
  if the instruction returns one. So if the returns of the method are of the kind that the
  descriptor says, there is a value if and only if the descriptor's result is not void. -/
theorem call_result (m : Machine ω) (className method descriptor : String)
    (args : List Value) {m' : Machine ω} {result : Option Value}
    (ends : (m.start className method descriptor args).Ends m' (.ok result)) :
    ∃ d, Descriptor.parse descriptor = .ok d ∧
      (m.bridges.find? (.of className method descriptor) ≠ none →
        (result.isSome ↔ d.result ≠ .void)) ∧
      (m.bridges.find? (.of className method descriptor) = none →
        ∃ target, m.classes.method? (.of className method descriptor) = some target ∧
          (∃ m₁ f insn,
            (m.start className method descriptor args).Reaches (.running m₁ f .host) ∧
            m₁.step f .host = .finished m' (.ok result) ∧ f.method = target ∧
            f.insn? = some insn ∧ insn.Returns result) ∧
          (target.code.ReturnsAs d → (result.isSome ↔ d.result ≠ .void))) := by
  obtain ⟨d, parsed, ⟨bridge, bridged, answered⟩ | ⟨unbridged, target, found, eq⟩⟩ :=
    start_of_ends ends
  · exact ⟨d, parsed, fun _ => isSome_of_callBridge answered,
      fun unbridged => nomatch bridged.symm.trans unbridged⟩
  · have linked := (m.start_starts className method descriptor args).linked
    rw [eq] at ends linked ⊢
    obtain ⟨m₁, f, insn, reached, last, method, current, returns⟩ :=
      answer_of_startMethod linked ends
    refine ⟨d, parsed, fun bridged => (bridged unbridged).elim, fun _ => ⟨target, ?_,
      ⟨m₁, f, insn, reached, last, method, current, returns⟩, fun agrees => ?_⟩⟩
    · exact method?_of_staticMethod found
    · rw [← method] at agrees
      exact agrees.isSome_iff (Frame.mem_of_insn? current) returns

end Machine

/-- Methods that return the number that their descriptor promises, after the initializer of
their class, a number where there should be none, and none where there should be one. -/
def replyClass : ClassCode where
  name := "Reply"
  superName := rootClass
  methods :=
    [plainMethod "<clinit>" "()V" [⟨0, .returnVoid, [], none⟩],
      plainMethod "kept" "()I" [⟨0, .bipush, [.int 42], none⟩, ⟨2, .returnValue .int, [], none⟩],
      plainMethod "stray" "()V" [⟨0, .bipush, [.int 7], none⟩, ⟨2, .returnValue .int, [], none⟩],
      plainMethod "missing" "()I" [⟨0, .returnVoid, [], none⟩]]

/-- A machine with that class alone. -/
def replying : Machine Unit :=
  .create ((ClassTable.load [replyClass]).toOption.getD .empty) {} ()

/-- The frame of the initializer is gone when the method gives its number to the host. -/
theorem kept_call_result :
    ∃ m, (replying.start "Reply" "kept" "()I" []).Ends m (.ok (some (.int 42))) ∧
      replying.bridges.find? (.of "Reply" "kept" "()I") = none ∧
      ∃ target m₁ f insn,
        replying.classes.method? (.of "Reply" "kept" "()I") = some target ∧
        (replying.start "Reply" "kept" "()I" []).Reaches (.running m₁ f .host) ∧
        m₁.step f .host = .finished m (.ok (some (.int 42))) ∧ f.method = target ∧
        f.insn? = some insn ∧ insn.Returns (some (.int 42)) := by
  obtain ⟨m, ends⟩ : ∃ m, (replying.start "Reply" "kept" "()I" []).Ends m
      (.ok (some (.int 42))) :=
    ⟨_, 3, rfl⟩
  have unbridged : replying.bridges.find? (.of "Reply" "kept" "()I") = none := by decide
  obtain ⟨d, _, _, called⟩ := replying.call_result "Reply" "kept" "()I" [] ends
  obtain ⟨target, found, ⟨m₁, f, insn, reached, last, method, current, returns⟩, _⟩ :=
    called unbridged
  exact ⟨m, ends, unbridged, target, m₁, f, insn, found, reached, last, method, current, returns⟩

/-- The descriptor is not asked: a void method gives a number to the host, and another one
gives none where there should be one. -/
theorem stray_call_results :
    (∃ m, (replying.start "Reply" "stray" "()V" []).Ends m (.ok (some (.int 7)))) ∧
      (∃ m, (replying.start "Reply" "missing" "()I" []).Ends m (.ok none)) ∧
      Descriptor.parse "()V" = .ok ⟨[], .void⟩ ∧
      ∃ d, Descriptor.parse "()I" = .ok d ∧ d.result ≠ .void :=
  ⟨⟨_, 3, rfl⟩, ⟨_, 2, rfl⟩, rfl, _, rfl, by decide⟩

end ClassMachine
