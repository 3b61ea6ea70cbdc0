import ClassMachine.Proofs.Loaded
import ClassMachine.Proofs.Step

/-!
# Control flow

The check of loading is enough for control flow: on a run over loaded classes
no frame is ever beyond the end of its method, every jump has a target, and a
frame gets behind its last instruction only by completing it.

`Arrives` says how a frame comes to its current instruction. The frame was just
entered, or it has jumped, or it has completed the instruction before.
-/

namespace ClassMachine

variable {ω : Type} {m m' : Machine ω} {f g : Frame} {link link' : Link} {p q : Progress ω}
  {insn : Instruction} {code : MethodCode} {classes : List ClassCode}
  {className method descriptor : String} {args : List Value}

/-! ## Targets -/

/-- A checked control transfer has its target, and the target is an instruction. -/
theorem MethodCode.Checked.target_lt (checked : code.Checked) (member : insn ∈ code.instructions)
    (family : insn.opcode.family = .controlTransfer) :
    ∃ target, insn.targetOperand = .ok target ∧ target < code.instructions.length := by
  have passed := checked.instructions insn member
  obtain ⟨target, operands⟩ := passed.jumps family
  refine ⟨target, ?_, passed.inside target ?_⟩
  · rw [Instruction.targetOperand, Instruction.operand?, operands]
    rfl
  · rw [operands]
    exact List.mem_singleton_self _

theorem Frame.mem_of_insn? (current : f.insn? = some insn) :
    insn ∈ f.method.code.instructions :=
  List.mem_of_getElem? current

theorem Frame.ip_lt_of_insn? (current : f.insn? = some insn) :
    f.ip < f.method.code.instructions.length :=
  (List.getElem?_eq_some_iff.1 current).1

/-! ## Arrivals -/

/-- The frame at work is one of the frames before, behind the instruction that it
was at. -/
def Completes (before : List Frame) (f : Frame) (link : Link) : Prop :=
  ∃ above g g' insn, before = above ++ g :: link.frames ∧ g.insn? = some insn ∧ g.Alike g' ∧
    f = g'.advance

/-- How the frame at work has come to its current instruction. -/
inductive Arrives (before : List Frame) (f : Frame) (link : Link) : Prop
  | entered : f.ip = 0 → Arrives before f link
  | jumped {insn : Instruction} :
    insn ∈ f.method.code.instructions → insn.opcode.family = .controlTransfer →
    insn.targetOperand = .ok f.ip → Arrives before f link
  | completed : Completes before f link → Arrives before f link

theorem Machine.failAt_ne_running {method : LoadedMethod} {index : Nat} {fault : Fault} :
    m.failAt method index link fault ≠ .running m' f link' := by
  obtain ⟨m'', ends, _⟩ := m.failAt_eq method index link fault
  rw [ends]
  nofun

theorem Settles.arrives (above : List Frame) (settles : Settles m g link p)
    (current : g.insn? = some insn) (after : p = .running m' f link') :
    Arrives (above ++ g :: link.frames) f link' := by
  cases settles with
  | advance keeps alike =>
      cases after
      exact .completed ⟨above, g, _, insn, rfl, current, alike, rfl⟩
  | enter keeps room alike fresh =>
      cases after
      exact .entered fresh
  | fail => exact (Machine.failAt_ne_running after).elim

theorem Moves.arrives (moves : Moves m g link p) (linked : link.Linked m.classes g.method)
    (after : p = .running m' f link') : Arrives (g :: link.frames) f link' := by
  cases moves with
  | fellOff => exact (Machine.failAt_ne_running after).elim
  | spent => exact (Machine.failAt_ne_running after).elim
  | settles current _ _ settles => exact settles.arrives [] current after
  | jump current _ _ alike family operand =>
      cases after
      exact .jumped (alike.method.symm ▸ Frame.mem_of_insn? current) family operand
  | answer => cases after
  | enter _ _ _ _ _ fresh =>
      cases after
      exact .entered fresh
  | refuse => cases after
  | resume _ _ _ settles =>
      obtain ⟨insn, key, waiting, _⟩ := linked.1
      exact settles.arrives [g] waiting after

namespace Progress

/-- On every run the frame at work has arrived in one of the three ways. -/
theorem arrives_of_reaches
    (reached : (m.start className method descriptor args).Reaches (.running m' f link)) :
    f.ip = 0 ∨ ∃ q, (m.start className method descriptor args).Reaches q ∧
      q.step = .running m' f link ∧ Arrives q.frames f link := by
  rcases reached.cases_last with first | ⟨m₀, g, link₀, earlier, last⟩
  · have starts := m.start_starts className method descriptor args
    rw [← first] at starts
    cases starts with
    | run _ _ fresh => exact Or.inl fresh
  · have linked := linked_of_reaches earlier
    exact Or.inr ⟨_, earlier, last, (Machine.step_moves linked).arrives linked last⟩

/-- Every method at work has passed the check of loading. -/
theorem checked_of_reaches (loaded : ClassTable.load classes = .ok m.classes)
    (reached : (m.start className method descriptor args).Reaches (.running m' f link)) :
    f.method.code.Checked := by
  obtain ⟨key, found⟩ := (linked_of_reaches reached : link.Linked m'.classes f.method).has
  have same : m'.classes = m.classes := (becomes_of_reaches reached).classes
  rw [same] at found
  exact ((ClassTable.load_sound loaded).method found).1.checked

end Progress

/-! ## Places -/

theorem Completes.ip_le {before : List Frame} (completes : Completes before f link) :
    f.ip ≤ f.method.code.instructions.length := by
  obtain ⟨above, g, g', insn, _, current, alike, rfl⟩ := completes
  have inside := Frame.ip_lt_of_insn? current
  rw [← alike.ip, ← alike.method] at inside
  exact inside

/-- Wherever a frame arrives in a checked method, it is not beyond the end; and at the
end it has completed the last instruction. -/
theorem Arrives.place {before : List Frame} (checked : f.method.code.Checked)
    (arrives : Arrives before f link) :
    f.ip < f.method.code.instructions.length ∨
      f.ip = f.method.code.instructions.length ∧ Completes before f link := by
  cases arrives with
  | entered fresh =>
      left
      rw [fresh]
      exact List.length_pos_iff.2 checked.nonempty
  | jumped member family operand =>
      obtain ⟨target, operand', inside⟩ := checked.target_lt member family
      rw [operand] at operand'
      cases operand'
      exact Or.inl inside
  | completed completes =>
      rcases Nat.lt_or_eq_of_le completes.ip_le with inside | behind
      · exact Or.inl inside
      · exact Or.inr ⟨behind, completes⟩

namespace Progress

theorem place_of_reaches (loaded : ClassTable.load classes = .ok m.classes)
    (reached : (m.start className method descriptor args).Reaches (.running m' f link)) :
    f.ip < f.method.code.instructions.length ∨
      f.ip = f.method.code.instructions.length ∧
        ∃ q, (m.start className method descriptor args).Reaches q ∧
          q.step = .running m' f link ∧ Completes q.frames f link := by
  have checked := checked_of_reaches loaded reached
  rcases arrives_of_reaches reached with fresh | ⟨q, earlier, last, arrives⟩
  · left
    rw [fresh]
    exact List.length_pos_iff.2 checked.nonempty
  · rcases arrives.place checked with inside | ⟨behind, completes⟩
    · exact Or.inl inside
    · exact Or.inr ⟨behind, q, earlier, last, completes⟩

end Progress

namespace Progress

/-- No frame is beyond the end of its method. -/
theorem ip_le_of_reaches (loaded : ClassTable.load classes = .ok m.classes)
    (reached : (m.start className method descriptor args).Reaches p) :
    ∀ f ∈ p.frames, f.ip ≤ f.method.code.instructions.length := by
  cases p with
  | finished m' outcome => nofun
  | running m' g link =>
      have linked : link.Linked m'.classes g.method := linked_of_reaches reached
      rw [frames, List.forall_mem_cons]
      constructor
      · rcases place_of_reaches loaded reached with inside | ⟨behind, _⟩
        · exact Nat.le_of_lt inside
        · exact Nat.le_of_eq behind
      · intro f member
        obtain ⟨_, insn, current⟩ := linked.waiting f member
        exact Nat.le_of_lt (Frame.ip_lt_of_insn? current)

/-- A frame without a current instruction is right behind its last one. -/
theorem behind_of_reaches (loaded : ClassTable.load classes = .ok m.classes)
    (reached : (m.start className method descriptor args).Reaches (.running m' f link))
    (past : f.insn? = none) :
    f.ip = f.method.code.instructions.length ∧
      (∃ q, (m.start className method descriptor args).Reaches q ∧
        q.step = .running m' f link ∧ Completes q.frames f link) ∧
      ∃ last, f.method.code.instructions.getLast? = some last ∧
        f.method.code.instructions[f.ip - 1]? = some last := by
  rcases place_of_reaches loaded reached with inside | ⟨behind, completed⟩
  · exact (Nat.not_le_of_lt inside (List.getElem?_eq_none_iff.1 past)).elim
  · refine ⟨behind, completed, ?_⟩
    have nonempty := (checked_of_reaches loaded reached).nonempty
    obtain ⟨last, atEnd⟩ := Option.ne_none_iff_exists'.1 (mt List.getLast?_eq_none_iff.1 nonempty)
    refine ⟨last, atEnd, ?_⟩
    rw [behind, ← List.getLast?_eq_getElem?]
    exact atEnd

/-- Only the loop finds that there is no instruction. -/
theorem insn?_eq_none_of_fellOffEnd {e : RuntimeError}
    (ends : (m.start className method descriptor args).Ends m' (.error e))
    (kind : e.fault.kind = .fellOffEnd) :
    ∃ m₁ f link, (m.start className method descriptor args).Reaches (.running m₁ f link) ∧
      m₁.step f link = .finished m' (.error e) ∧ f.insn? = none ∧
      e.location = some (.of f.method (f.ip - 1)) := by
  rcases ends.cases_last with first | ⟨m₁, f, link, reached, last⟩
  · have starts := m.start_starts className method descriptor args
    rw [← first] at starts
    cases starts with
    | refuse ordinary => exact (ordinary.1 kind).elim
  · refine ⟨m₁, f, link, reached, last, ?_⟩
    have fails := (Machine.step_moves (linked_of_reaches reached)).fails last
    cases fails with
    | fellOff past => exact ⟨past, rfl⟩
    | spent => cases kind
    | instruction _ _ ordinary => exact (ordinary.1 kind).elim
    | resumed _ _ ordinary => exact (ordinary.1 kind).elim
    | refused _ _ ordinary => exact (ordinary.1 kind).elim

end Progress

theorem Location.of_eq {method : LoadedMethod} {index : Nat}
    (current : method.code.instructions[index]? = some insn) :
    Location.of method index = ⟨method.key, index, insn.offset, insn.opcode.mnemonic⟩ := by
  rw [Location.of, current]

/-- **Checked control flow is safe.** On every run over loaded classes:
no frame is beyond the end of its method; only control transfers jump, to an
instruction, and they never lack their operand; and a program falls off the end
only behind a last instruction that was completed, which the error names. -/
theorem Machine.control_flow (loaded : ClassTable.load classes = .ok m.classes)
    (className method descriptor : String) (args : List Value) :
    let start := m.start className method descriptor args
    (∀ p, start.Reaches p → ∀ f ∈ p.frames, f.ip ≤ f.method.code.instructions.length) ∧
    (∀ m' f link insn, start.Reaches (.running m' f link) → f.insn? = some insn →
      (∀ g target, insn.execute m'.heap f = .ok (.jump g target) →
        insn.opcode.family = .controlTransfer ∧ g.method = f.method ∧
          target < f.method.code.instructions.length) ∧
      (insn.opcode.family = .controlTransfer → insn.execute m'.heap f = f.branch insn ∧
        FailsWith (fun fault => fault.kind ≠ .badOperand) (f.branch insn))) ∧
    ∀ m' e, start.Ends m' (.error e) → e.fault.kind = .fellOffEnd →
      ∃ m₁ f link, start.Reaches (.running m₁ f link) ∧
        m₁.step f link = .finished m' (.error e) ∧
        f.ip = f.method.code.instructions.length ∧
        (∃ q, start.Reaches q ∧ q.step = .running m₁ f link ∧ Completes q.frames f link) ∧
        ∃ last, f.method.code.instructions.getLast? = some last ∧
          e.location = some ⟨f.method.key, f.ip - 1, last.offset, last.opcode.mnemonic⟩ := by
  intro start
  refine ⟨fun p reached => Progress.ip_le_of_reaches loaded reached, ?_, ?_⟩
  · intro m' f link insn reached current
    have checked := Progress.checked_of_reaches loaded reached
    refine ⟨fun g target jumps => ?_, fun family => ⟨Instruction.execute_eq_branch family, ?_⟩⟩
    · cases Instruction.execute_effects jumps with
      | jump alike family operand =>
          obtain ⟨target', operand', inside⟩ :=
            checked.target_lt (Frame.mem_of_insn? current) family
          rw [operand] at operand'
          cases operand'
          exact ⟨family, alike.method, inside⟩
    · obtain ⟨target, operand, _⟩ := checked.target_lt (Frame.mem_of_insn? current) family
      exact (f.branch_fails operand).mono Fault.OfStack.ne_badOperand
  · intro m' e ends kind
    obtain ⟨m₁, f, link, reached, step, past, location⟩ :=
      Progress.insn?_eq_none_of_fellOffEnd ends kind
    obtain ⟨behind, completed, last, atEnd, there⟩ :=
      Progress.behind_of_reaches loaded reached past
    refine ⟨m₁, f, link, reached, step, behind, completed, last, atEnd, ?_⟩
    rw [location, Location.of_eq there]

/-- A static method without local variables. -/
def plainMethod (name descriptor : String) (instructions : List Instruction) : MethodCode where
  name
  descriptor
  flags := .ofList [.accStatic]
  maxStack := 0
  maxLocals := 0
  argsSize := 0
  instructions

/-- A class with one method, whose only instruction does nothing. -/
def fallClass : ClassCode where
  name := "Fall"
  superName := "java/lang/Object"
  methods := [plainMethod "run" "()V" [⟨7, .nop, [], none⟩]]

/-- A machine with that class alone. -/
def falling : Machine Unit :=
  .create ((ClassTable.load [fallClass]).toOption.getD .empty) {} ()

/-- The program falls off the end, and the error names the instruction before. -/
theorem falling_control_flow :
    ∃ m e, (falling.start "Fall" "run" "()V" []).Ends m (.error e) ∧
      e.fault.kind = .fellOffEnd ∧ e.location = some ⟨⟨"Fall", "run", "()V"⟩, 0, 7, "NOP"⟩ ∧
      ∃ m₁ f link, (falling.start "Fall" "run" "()V" []).Reaches (.running m₁ f link) ∧
        m₁.step f link = .finished m (.error e) ∧
        f.ip = f.method.code.instructions.length := by
  have loaded : ClassTable.load [fallClass] = .ok falling.classes := rfl
  obtain ⟨m, e, ends, kind, location⟩ : ∃ m e,
      (falling.start "Fall" "run" "()V" []).Ends m (.error e) ∧ e.fault.kind = .fellOffEnd ∧
        e.location = some ⟨⟨"Fall", "run", "()V"⟩, 0, 7, "NOP"⟩ :=
    ⟨_, _, ⟨2, rfl⟩, rfl, rfl⟩
  obtain ⟨m₁, f, link, reached, step, behind, _⟩ :=
    (falling.control_flow loaded "Fall" "run" "()V" []).2.2 m e ends kind
  exact ⟨m, e, ends, kind, location, m₁, f, link, reached, step, behind⟩

end ClassMachine
