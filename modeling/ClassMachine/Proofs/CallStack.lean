import ClassMachine.Proofs.ControlFlow
import ClassMachine.Proofs.Depth

/-!
# The call stack of an error

An error names one instruction for each frame that was active when it arose,
innermost first: the one that failed, then those at which the other frames
waited (`Fails.trace_eq`). Each of them leads to the method above it.

A frame that has carried out its return is no longer active. So an error of the
host's own call has no location, even if the initializer of the class has run
before (`Progress.location_eq_none_iff`).
-/

namespace ClassMachine

variable {ω : Type} {m m' : Machine ω} {f : Frame} {link : Link} {p start : Progress ω}
  {insn : Instruction} {e : RuntimeError} {classes : List ClassCode} {table : ClassTable}
  {className method descriptor : String} {args : List Value}

/-- The instructions that an error names, innermost first. -/
def RuntimeError.trace (e : RuntimeError) : List Location :=
  e.location.toList ++ e.callers

/-- The instruction that a frame is at, or its last one if it is behind that. -/
def Frame.site (f : Frame) : Location :=
  match f.insn? with
  | some _ => f.location
  | none => .of f.method (f.ip - 1)

/-- The frames that are active when the step of a frame fails. -/
def Machine.active (m : Machine ω) (f : Frame) (link : Link) : List Frame :=
  if m.returns f then link.frames else f :: link.frames

/-- The program fails while the given frames are active: there are none yet, or a
step fails. -/
inductive Progress.FailsAmid (start : Progress ω) (m' : Machine ω) (e : RuntimeError) :
    List Frame → Prop
  | refused : start = .finished m' (.error e) → FailsAmid start m' e []
  | step {m : Machine ω} {f : Frame} {link : Link} :
    start.Reaches (.running m f link) → m.step f link = .finished m' (.error e) →
    FailsAmid start m' e (m.active f link)

/-- The location is that of a loaded instruction. -/
def Location.Names (table : ClassTable) (l : Location) (insn : Instruction) : Prop :=
  ∃ method, table.method? l.method = some method ∧ method.code.instructions[l.index]? = some insn ∧
    l.offset = insn.offset ∧ l.opcode = insn.opcode.mnemonic

/-! ## Frames and their instructions -/

theorem Frame.site_of_current (current : f.insn? = some insn) : f.site = f.location := by
  rw [site, current]

theorem Frame.site_of_past (past : f.insn? = none) : f.site = .of f.method (f.ip - 1) := by
  rw [site, past]

theorem Location.method_of (method : LoadedMethod) (index : Nat) :
    (Location.of method index).method = method.key := by
  unfold Location.of
  split <;> rfl

theorem Frame.method_site (f : Frame) : f.site.method = f.method.key := by
  unfold site
  split <;> exact Location.method_of _ _

theorem Link.Linked.map_site {method : LoadedMethod} (linked : link.Linked table method) :
    link.frames.map Frame.site = link.frames.map Frame.location :=
  List.map_congr_left fun f member => by
    obtain ⟨_, insn, current⟩ := linked.waiting f member
    exact Frame.site_of_current current

theorem Machine.returns_of_insn?_none (past : f.insn? = none) : m.returns f = false := by
  rw [returns, past]

/-- **An error names the active frames.** -/
theorem Fails.trace_eq (fails : Fails m f link e) (linked : link.Linked table f.method) :
    e.trace = (m.active f link).map Frame.site := by
  unfold Machine.active
  cases fails with
  | fellOff past =>
      rw [Machine.returns_of_insn?_none past, if_neg Bool.false_ne_true, List.map_cons,
        linked.map_site, Frame.site_of_past past]
      rfl
  | spent budget current stays =>
      rw [stays, if_neg Bool.false_ne_true, List.map_cons, linked.map_site,
        Frame.site_of_current current]
      rfl
  | instruction current stays =>
      rw [stays, if_neg Bool.false_ne_true, List.map_cons, linked.map_site,
        Frame.site_of_current current]
      rfl
  | resumed _ returned =>
      rw [returned, if_pos rfl, linked.map_site]
      rfl
  | refused _ returned =>
      rw [returned, if_pos rfl]
      rfl

/-! ## Loaded instructions -/

theorem ClassTable.Sound.method?_key {method : LoadedMethod} (sound : table.Sound)
    (has : table.Has method) : table.method? method.key = some method := by
  obtain ⟨key, found⟩ := has
  rw [(sound.method found).2]
  exact found

theorem Location.names_of {method : LoadedMethod} {index : Nat} (sound : table.Sound)
    (has : table.Has method) (current : method.code.instructions[index]? = some insn) :
    (Location.of method index).Names table insn := by
  rw [Location.of_eq current]
  exact ⟨method, sound.method?_key has, current, rfl, rfl⟩

/-- A frame at an instruction of a loaded method names it. -/
theorem Frame.names_site (sound : table.Sound) (has : table.Has f.method)
    (current : f.insn? = some insn) : f.site.Names table insn := by
  rw [site_of_current current]
  exact Location.names_of sound has current

/-- The instructions with which a frame can put another one above it. -/
theorem Instruction.LeadsTo.opcode {key : MethodKey} (leads : insn.LeadsTo key) :
    insn.opcode ∈ [.invoke .static, .invoke .special, .getStatic, .putStatic, .new] := by
  rcases leads with called | ⟨name, touched, _⟩
  · unfold called? at called
    split at called
    all_goals simp_all
  · unfold touched? at touched
    split at touched
    all_goals simp_all

/-- Every frame of a run names a loaded instruction. -/
theorem Progress.site_names (loaded : ClassTable.load classes = .ok m.classes)
    (reached : (m.start className method descriptor args).Reaches (.running m' f link)) :
    ∀ g ∈ f :: link.frames, ∃ insn, g.site.Names m.classes insn := by
  have sound := ClassTable.load_sound loaded
  have linked : link.Linked m'.classes f.method := linked_of_reaches reached
  have same : m'.classes = m.classes := (becomes_of_reaches reached).classes
  rw [same] at linked
  rw [List.forall_mem_cons]
  constructor
  · cases current : f.insn? with
    | some insn => exact ⟨insn, Frame.names_site sound linked.has current⟩
    | none =>
        obtain ⟨_, _, last, _, there⟩ := behind_of_reaches loaded reached current
        rw [Frame.site_of_past current]
        exact ⟨last, Location.names_of sound linked.has there⟩
  · intro g member
    obtain ⟨has, insn, current⟩ := linked.waiting g member
    exact ⟨insn, Frame.names_site sound has current⟩

/-! ## Active frames -/

/-- The active frames are all frames, or all but the one that has returned. -/
theorem Machine.active_eq_drop (m : Machine ω) (f : Frame) (link : Link) :
    ∃ k, m.active f link = (f :: link.frames).drop k := by
  unfold active
  split
  · exact ⟨1, rfl⟩
  · exact ⟨0, rfl⟩

/-- Each active frame but the innermost one leads to the one above it. -/
theorem Machine.active_calls (sound : table.Sound) (linked : link.Linked table f.method)
    {i : Nat} {above below : Location}
    (upper : ((m.active f link).map Frame.site)[i]? = some above)
    (lower : ((m.active f link).map Frame.site)[i + 1]? = some below) :
    ∃ insn, below.Names table insn ∧ insn.LeadsTo above.method := by
  obtain ⟨k, active⟩ := m.active_eq_drop f link
  rw [active, List.getElem?_map, List.getElem?_drop, Option.map_eq_some_iff] at upper lower
  obtain ⟨g, upper, rfl⟩ := upper
  obtain ⟨h, lower, rfl⟩ := lower
  rw [← Nat.add_assoc] at lower
  obtain ⟨insn, key, current, leads, found⟩ := linked.calls upper lower
  have has := (linked.waiting h (List.mem_of_getElem? lower)).1
  refine ⟨insn, Frame.names_site sound has current, ?_⟩
  rw [Frame.method_site, (sound.method found).2]
  exact leads

/-! ## Failed calls -/

section FailedCall

variable {active : List Frame}

/-- The error of a call that fails at its start names nothing. -/
theorem Starts.trace_eq (starts : Starts m (.finished m' (.error e))) : e.trace = [] := by
  cases starts with
  | refuse => rfl

namespace Progress

theorem fails_of_step
    (reached : (m.start className method descriptor args).Reaches (.running m' f link))
    {m'' : Machine ω} (last : m'.step f link = .finished m'' (.error e)) : Fails m' f link e :=
  (Machine.step_moves (linked_of_reaches reached)).fails last

theorem exists_failsAmid
    (ends : (m.start className method descriptor args).Ends m' (.error e)) :
    ∃ active, (m.start className method descriptor args).FailsAmid m' e active := by
  rcases ends.cases_last with first | ⟨m₁, f, link, reached, last⟩
  · exact ⟨[], .refused first.symm⟩
  · exact ⟨_, .step reached last⟩

namespace FailsAmid

theorem trace_eq (amid : (m.start className method descriptor args).FailsAmid m' e active) :
    e.trace = active.map Frame.site := by
  cases amid with
  | refused first => exact (first ▸ m.start_starts className method descriptor args).trace_eq
  | step reached last => exact (fails_of_step reached last).trace_eq (linked_of_reaches reached)

theorem length_le (amid : (m.start className method descriptor args).FailsAmid m' e active) :
    active.length ≤ m.limits.maxDepth := by
  cases amid with
  | refused => exact Nat.zero_le _
  | @step m₁ f link reached =>
      obtain ⟨k, eq⟩ := m₁.active_eq_drop f link
      rw [eq, List.length_drop]
      exact Nat.le_trans (Nat.sub_le _ _) (length_frames_le reached)

theorem names (loaded : ClassTable.load classes = .ok m.classes)
    (amid : (m.start className method descriptor args).FailsAmid m' e active) :
    ∀ g ∈ active, ∃ insn, g.site.Names m.classes insn := by
  cases amid with
  | refused => nofun
  | @step m₁ f link reached =>
      obtain ⟨k, eq⟩ := m₁.active_eq_drop f link
      rw [eq]
      exact fun g member => site_names loaded reached g (List.mem_of_mem_drop member)

theorem calls (loaded : ClassTable.load classes = .ok m.classes)
    (amid : (m.start className method descriptor args).FailsAmid m' e active) {i : Nat}
    {above below : Location} (upper : (active.map Frame.site)[i]? = some above)
    (lower : (active.map Frame.site)[i + 1]? = some below) :
    ∃ insn, below.Names m.classes insn ∧ insn.LeadsTo above.method := by
  cases amid with
  | refused => cases upper
  | @step m₁ f link reached =>
      have linked : link.Linked m₁.classes f.method := linked_of_reaches reached
      have same : m₁.classes = m.classes := (becomes_of_reaches reached).classes
      rw [same] at linked
      exact Machine.active_calls (ClassTable.load_sound loaded) linked upper lower

end FailsAmid

end Progress

/-- A step that fails without a location is that of an initializer which has
returned to the host. -/
theorem Fails.location_eq_none_iff (fails : Fails m f link e) :
    e.location = none ↔
      m.returns f = true ∧ ∃ name target args, link = .hostInitializer name target args := by
  cases fails with
  | fellOff past =>
      refine ⟨nofun, fun ⟨returned, _⟩ => ?_⟩
      rw [Machine.returns_of_insn?_none past] at returned
      cases returned
  | spent _ _ stays =>
      refine ⟨nofun, fun ⟨returned, _⟩ => ?_⟩
      rw [stays] at returned
      cases returned
  | instruction _ stays =>
      refine ⟨nofun, fun ⟨returned, _⟩ => ?_⟩
      rw [stays] at returned
      cases returned
  | resumed =>
      refine ⟨nofun, fun ⟨_, name, target, args, host⟩ => ?_⟩
      cases host
  | refused _ returned => exact ⟨fun _ => ⟨returned, _, _, _, rfl⟩, fun _ => rfl⟩

/-- The host gets an error without location from the start of its call, or from a
step in which the initializer of the class has returned. -/
theorem Progress.location_eq_none_iff
    (ends : (m.start className method descriptor args).Ends m' (.error e)) :
    e.location = none ↔
      m.start className method descriptor args = .finished m' (.error e) ∨
      ∃ m₁ f name target args', (m.start className method descriptor args).Reaches
          (.running m₁ f (.hostInitializer name target args')) ∧ m₁.returns f = true ∧
        m₁.step f (.hostInitializer name target args') = .finished m' (.error e) := by
  constructor
  · intro none
    rcases ends.cases_last with first | ⟨m₁, f, link, reached, last⟩
    · exact Or.inl first.symm
    · obtain ⟨returned, name, target, args', rfl⟩ :=
        (fails_of_step reached last).location_eq_none_iff.1 none
      exact Or.inr ⟨m₁, f, name, target, args', reached, returned, last⟩
  · rintro (first | ⟨m₁, f, name, target, args', reached, returned, last⟩)
    · have empty := (first ▸ m.start_starts className method descriptor args).trace_eq
      exact Option.toList_eq_nil_iff.1 (List.append_eq_nil_iff.1 empty).1
    · exact (fails_of_step reached last).location_eq_none_iff.2
        ⟨returned, name, target, args', rfl⟩

/-- **An error carries the exact call stack.** It names the active frames, innermost
first and no more than the limit allows. Each entry is a loaded instruction, and
each but the first is one that leads to the method of the entry before. There is
no location if and only if no frame was active: the call failed at its start, or
when the initializer of its class had returned to the host. -/
theorem Machine.error_call_stack (loaded : ClassTable.load classes = .ok m.classes)
    (ends : (m.start className method descriptor args).Ends m' (.error e)) :
    (∃ active, (m.start className method descriptor args).FailsAmid m' e active ∧
      e.trace = active.map Frame.site ∧ active.length ≤ m.limits.maxDepth) ∧
    (∀ l ∈ e.trace, ∃ insn, l.Names m.classes insn) ∧
    (∀ i above below, e.trace[i]? = some above → e.trace[i + 1]? = some below →
      ∃ insn, below.Names m.classes insn ∧ insn.LeadsTo above.method ∧
        insn.opcode ∈ [.invoke .static, .invoke .special, .getStatic, .putStatic, .new]) ∧
    (e.location = none ↔
      m.start className method descriptor args = .finished m' (.error e) ∨
      ∃ m₁ f name target args', (m.start className method descriptor args).Reaches
          (.running m₁ f (.hostInitializer name target args')) ∧ m₁.returns f = true ∧
        m₁.step f (.hostInitializer name target args') = .finished m' (.error e)) := by
  obtain ⟨active, amid⟩ := Progress.exists_failsAmid ends
  have trace := amid.trace_eq
  refine ⟨⟨active, amid, trace, amid.length_le⟩, ?_, ?_, Progress.location_eq_none_iff ends⟩
  · rw [trace]
    intro l member
    obtain ⟨g, source, rfl⟩ := List.mem_map.1 member
    exact amid.names loaded g source
  · rw [trace]
    intro i above below upper lower
    obtain ⟨insn, names, leads⟩ := amid.calls loaded upper lower
    exact ⟨insn, names, leads, leads.opcode⟩

end FailedCall

/-! ## A failing program -/

/-- A class with an initializer and a method that calls one without a return. -/
def nestClass : ClassCode where
  name := "Nest"
  superName := "java/lang/Object"
  methods :=
    [plainMethod "<clinit>" "()V" [⟨0, .returnVoid, [], none⟩],
      plainMethod "inner" "()V" [⟨4, .nop, [], none⟩],
      plainMethod "outer" "()V"
        [⟨0, .invoke .static, [.method ⟨"Nest", "inner", "()V"⟩], none⟩],
      plainMethod "take" "(I)V" [⟨0, .returnVoid, [], none⟩]]

/-- A machine with that class alone. -/
def nesting : Machine Unit :=
  .create ((ClassTable.load [nestClass]).toOption.getD .empty) {} ()

/-- The error names the method that has no return and the call of it. -/
theorem nesting_error_call_stack :
    ∃ m e, (nesting.start "Nest" "outer" "()V" []).Ends m (.error e) ∧
      e.trace = [⟨⟨"Nest", "inner", "()V"⟩, 0, 4, "NOP"⟩,
        ⟨⟨"Nest", "outer", "()V"⟩, 0, 0, "INVOKESTATIC"⟩] ∧
      ∃ active, (nesting.start "Nest" "outer" "()V" []).FailsAmid m e active ∧
        e.trace = active.map Frame.site ∧ active.length ≤ 1024 := by
  have loaded : ClassTable.load [nestClass] = .ok nesting.classes := rfl
  obtain ⟨m, e, ends, trace⟩ : ∃ m e,
      (nesting.start "Nest" "outer" "()V" []).Ends m (.error e) ∧
        e.trace = [⟨⟨"Nest", "inner", "()V"⟩, 0, 4, "NOP"⟩,
          ⟨⟨"Nest", "outer", "()V"⟩, 0, 0, "INVOKESTATIC"⟩] :=
    ⟨_, _, ⟨4, rfl⟩, rfl⟩
  exact ⟨m, e, ends, trace, (nesting.error_call_stack loaded ends).1⟩

/-- An error may come without location although an instruction has run: here the
initializer returns, and then an argument is missing. -/
theorem nesting_no_location :
    ClassTable.load [nestClass] = .ok nesting.classes ∧ nesting.profile.executed = 0 ∧
      ∃ m e, (nesting.start "Nest" "take" "(I)V" []).Ends m (.error e) ∧
        e.location = none ∧ m.profile.executed = 1 :=
  ⟨rfl, rfl, _, _, ⟨1, rfl⟩, rfl, rfl⟩

end ClassMachine
