import Mathlib.Data.List.Nodup
import ClassMachine.Proofs.Readiness

/-!
# Initializers of classes

What every move keeps of the record of initializers, and what follows from it for a
whole lifetime (`Progress.Lives.initializes`): no initializer starts twice, and a
class whose initializer has failed can never be used again.
-/

namespace ClassMachine

variable {ω : Type} {m m' m'' : Machine ω} {f : Frame}
  {p q r : Progress ω} {insn : Instruction} {name : String} {names : List String}
  {allowed : Machine ω → HostAction ω → Prop}

/-! ## What every move keeps -/

namespace Machine

/-- The record grows. -/
structure Grows (m m' : Machine ω) : Prop where
  started : m.started ⊆ m'.started
  failed : m.failed ⊆ m'.failed

theorem Grows.refl (m : Machine ω) : m.Grows m :=
  ⟨List.Subset.refl _, List.Subset.refl _⟩

theorem Grows.trans (left : m.Grows m') (right : m'.Grows m'') : m.Grows m'' :=
  ⟨List.Subset.trans left.started right.started, List.Subset.trans left.failed right.failed⟩

theorem grows_note (m : Machine ω) (name : String) : m.Grows (m.note name) :=
  ⟨List.subset_cons_self name m.started, List.Subset.refl _⟩

/-- A sound record, with the initializers of `names` at work: it holds loaded classes,
all that failed have started, and so have those at work, each of them once. -/
structure Recorded (table : ClassTable) (m : Machine ω) (names : List String) : Prop where
  classes : m.classes = table
  loaded : ∀ name ∈ m.started, ∃ c, table.class? name = some c
  failed : m.failed ⊆ m.started
  pending : names ⊆ m.started
  distinct : names.Nodup

variable {table : ClassTable}

theorem Recorded.sublist {names' : List String} (recorded : m.Recorded table names)
    (sublist : names'.Sublist names) : m.Recorded table names' :=
  ⟨recorded.classes, recorded.loaded, recorded.failed,
    List.Subset.trans sublist.subset recorded.pending, recorded.distinct.sublist sublist⟩

theorem Recorded.note {c : LoadedClass} (recorded : m.Recorded table names)
    (found : m.classes.class? name = some c) : (m.note name).Recorded table names where
  classes := recorded.classes
  loaded := List.forall_mem_cons.2 ⟨⟨c, recorded.classes ▸ found⟩, recorded.loaded⟩
  failed := List.Subset.trans recorded.failed (List.subset_cons_self name m.started)
  pending := List.Subset.trans recorded.pending (List.subset_cons_self name m.started)
  distinct := recorded.distinct

/-- An initializer that begins is not at work yet. -/
theorem Recorded.begin (recorded : m.Recorded table names) (opens : m.Opens name) :
    (m.note name).Recorded table (name :: names) := by
  obtain ⟨_, unstarted, c, _, found, _⟩ := opens_iff.1 opens
  have noted := recorded.note found
  have absent : name ∉ names := fun member => unstarted (recorded.pending member)
  exact ⟨noted.classes, noted.loaded, noted.failed,
    List.cons_subset_cons name recorded.pending, List.nodup_cons.2 ⟨absent, recorded.distinct⟩⟩

theorem Carries.recorded (carries : m.Carries names p) (recorded : m.Recorded table names) :
    p.machine.Recorded table p.pending := by
  cases carries with
  | @runs m' f link same pending =>
      obtain ⟨classes, loaded, failed, started, distinct⟩ := recorded
      rw [← same.classes] at classes
      rw [← same.started] at loaded failed started
      rw [← same.failed] at failed
      rw [← pending] at started distinct
      exact ⟨classes, loaded, failed, started, distinct⟩
  | @ends m' value same _ =>
      obtain ⟨classes, loaded, failed, _, _⟩ := recorded
      rw [← same.classes] at classes
      rw [← same.started] at loaded failed
      rw [← same.failed] at failed
      exact ⟨classes, loaded, failed, List.nil_subset _, List.nodup_nil⟩
  | @fails m' e classes started failed =>
      -- Only classes that are at work are poisoned, and these have started.
      refine ⟨classes.trans recorded.classes, ?_, ?_, List.nil_subset _, List.nodup_nil⟩
      · change ∀ name ∈ m'.started, _
        rw [started]
        exact recorded.loaded
      · change m'.failed ⊆ m'.started
        rw [started, failed]
        exact List.append_subset.2
          ⟨(List.reverse_subset.2 recorded.pending), recorded.failed⟩

theorem SameRecord.grows (same : m.SameRecord m') : m.Grows m' :=
  ⟨fun _ member => same.started ▸ member, fun _ member => same.failed ▸ member⟩

theorem Carries.grows (carries : m.Carries names p) : m.Grows p.machine := by
  cases carries with
  | runs same _ => exact same.grows
  | ends same _ => exact same.grows
  | fails _ started failed =>
      refine ⟨fun _ member => started ▸ member, ?_⟩
      rw [Progress.machine, failed]
      exact List.subset_append_right _ _

/-- Nothing else comes to be at work. -/
theorem Carries.pending (carries : m.Carries names p) : p.pending ⊆ names := by
  cases carries with
  | runs _ pending => exact fun _ member => pending ▸ member
  | ends => exact List.nil_subset _
  | fails => exact List.nil_subset _

/-- What is at work when a move ends in an error has failed. -/
theorem Carries.poisons {e : RuntimeError} (carries : m.Carries names (.finished m' (.error e))) :
    names ⊆ m'.failed := by
  cases carries with
  | fails _ _ failed =>
      intro name member
      rw [failed]
      exact List.mem_append_left _ (List.mem_reverse.2 member)

theorem Readies.recorded (readies : m.Readies names name p) (recorded : m.Recorded table names) :
    p.machine.Recorded table p.pending := by
  cases readies with
  | refused _ carries => exact carries.recorded recorded
  | ready _ _ carries => exact carries.recorded recorded
  | noted _ _ found carries => exact carries.recorded (recorded.note found)
  | begun opens carries => exact carries.recorded (recorded.begin opens)

theorem Readies.grows (readies : m.Readies names name p) : m.Grows p.machine := by
  cases readies with
  | refused _ carries => exact carries.grows
  | ready _ _ carries => exact carries.grows
  | noted _ _ _ carries => exact (m.grows_note name).trans carries.grows
  | begun _ carries => exact (m.grows_note name).trans carries.grows

/-- Only an initializer that begins comes to be at work. -/
theorem Readies.pending (readies : m.Readies names name p) :
    ∀ other ∈ p.pending, other ∈ names ∨ other = name ∧ m.Opens name := by
  intro other member
  cases readies with
  | refused _ carries => exact Or.inl (carries.pending member)
  | ready _ _ carries => exact Or.inl (carries.pending member)
  | noted _ _ _ carries => exact Or.inl (carries.pending member)
  | begun opens carries =>
      rcases List.mem_cons.1 (carries.pending member) with same | pending
      · exact Or.inr ⟨same, opens⟩
      · exact Or.inl pending

theorem Readies.poisons {e : RuntimeError}
    (readies : m.Readies names name (.finished m' (.error e))) : names ⊆ m'.failed := by
  cases readies with
  | refused _ carries => exact carries.poisons
  | ready _ _ carries => exact carries.poisons
  | noted _ _ _ carries => exact carries.poisons
  | begun _ carries => exact List.Subset.trans (List.subset_cons_self name names) carries.poisons

/-- An initializer that begins is recorded, and has failed if the move ends in an
error. -/
theorem Readies.of_opens (readies : m.Readies names name p) (opens : m.Opens name) :
    (m.note name).Carries (name :: names) p := by
  cases readies with
  | refused failed => exact ((opens_iff.1 opens).1 failed).elim
  | ready _ shut => exact (shut opens).elim
  | noted _ shut => exact (shut opens).elim
  | begun _ carries => exact carries

/-- A class whose initializer has failed is refused. -/
theorem Readies.of_failed (readies : m.Readies names name p) (failed : name ∈ m.failed) :
    p.Failed := by
  cases readies with
  | refused => exact ⟨_, _, rfl⟩
  | ready unfailed => exact (unfailed failed).elim
  | noted unfailed => exact (unfailed failed).elim
  | begun opens => exact ((opens_iff.1 opens).1 failed).elim

end Machine

namespace Progress

variable {table : ClassTable}

/-- The record is sound, with the initializers that are at work. -/
def Recorded (table : ClassTable) (p : Progress ω) : Prop :=
  p.machine.Recorded table p.pending

theorem recorded_fresh (table : ClassTable) (limits : Limits) (world : ω) :
    (fresh table limits world).Recorded table :=
  ⟨rfl, nofun, List.nil_subset _, List.nil_subset _, List.nodup_nil⟩

theorem Next.recorded (next : p.Next allowed q) (recorded : p.Recorded table) :
    q.Recorded table := by
  have working := Machine.Recorded.sublist recorded p.working_sublist
  rcases next.carries_or_asks with carries | ⟨name, asks⟩
  · exact carries.recorded working
  · exact asks.readies.recorded working

theorem Next.grows (next : p.Next allowed q) : p.machine.Grows q.machine := by
  rcases next.carries_or_asks with carries | ⟨name, asks⟩
  · exact carries.grows
  · exact asks.readies.grows

/-- Only an initializer that begins comes to be at work. -/
theorem Next.pending (next : p.Next allowed q) :
    ∀ name ∈ q.pending, name ∈ p.pending ∨ p.Begins name q := by
  intro name member
  have working := p.working_sublist.subset
  rcases next.carries_or_asks with carries | ⟨asked, asks⟩
  · exact Or.inl (working (carries.pending member))
  · rcases asks.readies.pending name member with below | ⟨rfl, opens⟩
    · exact Or.inl (working below)
    · exact Or.inr ⟨asks, opens⟩

/-- An initializer that is cut short has failed. -/
theorem Next.poisons {e : RuntimeError} (next : p.Next allowed (.finished m (.error e)))
    (cut : name ∈ p.working ∨ p.Begins name (.finished m (.error e))) : name ∈ m.failed := by
  rcases cut with working | ⟨asks, opens⟩
  · rcases next.carries_or_asks with carries | ⟨asked, asks⟩
    · exact carries.poisons working
    · exact asks.readies.poisons working
  · exact (asks.readies.of_opens opens).poisons (List.mem_cons_self ..)

/-- An initializer begins only if it has not, and is recorded then. -/
theorem Begins.started (begins : p.Begins name q) :
    name ∉ p.machine.started ∧ name ∈ q.machine.started := by
  obtain ⟨asks, opens⟩ := begins
  refine ⟨(Machine.opens_iff.1 opens).2.1, ?_⟩
  exact (asks.readies.of_opens opens).grows.started (List.mem_cons_self ..)

end Progress

/-! ## Classes that cannot be used -/

namespace Instruction

/-- An instruction that uses the class: a static field access, the creation of an
object, or a static call that no bridge answers. -/
def Uses (m : Machine ω) (insn : Instruction) (name : String) : Prop :=
  insn.touched? = some name ∧ ∀ key, insn.called? = some key → m.bridges.find? key = none

/-- The instructions that touch a class come to nothing else than that, or a call. -/
theorem touch_or_call_of_touched? {h : Heap} {effect : Effect}
    (touches : insn.touched? = some name) (done : insn.execute h f = .ok effect) :
    (∃ g other use, effect = .touch g other use) ∨ ∃ g c, effect = .call g c := by
  unfold touched? at touches
  split at touches
  · rename_i op _
    simp only [execute, op] at done
    obtain ⟨field, _, done⟩ := bind_eq_ok.1 done
    cases done
    exact Or.inl ⟨_, _, _, rfl⟩
  · rename_i op _
    simp only [execute, op] at done
    obtain ⟨field, _, done⟩ := bind_eq_ok.1 done
    obtain ⟨⟨value, g⟩, _, done⟩ := bind_eq_ok.1 done
    obtain ⟨_, _, done⟩ := bind_eq_ok.1 done
    cases done
    exact Or.inl ⟨_, _, _, rfl⟩
  · rename_i op _
    simp only [execute, op] at done
    obtain ⟨other, _, done⟩ := bind_eq_ok.1 done
    cases done
    exact Or.inl ⟨_, _, _, rfl⟩
  · rename_i op _
    simp only [execute, op] at done
    obtain ⟨ref, _, done⟩ := bind_eq_ok.1 done
    obtain ⟨g, c, rfl, _⟩ := Frame.takeCall_call done
    exact Or.inr ⟨g, c, rfl⟩
  · cases touches

/-- An instruction that touches a class asks for it, if its operands are there. -/
theorem execute_of_touched? {h : Heap} {effect : Effect} (touches : insn.touched? = some name)
    (done : insn.execute h f = .ok effect) :
    (∃ g use, effect = .touch g name use) ∨
      ∃ g c, effect = .call g c ∧ c.mode = .static ∧ insn.called? = some c.key ∧
        c.key.owner = name := by
  have effects := execute_effects done
  rcases touch_or_call_of_touched? touches done with ⟨g, other, use, rfl⟩ | ⟨g, c, rfl⟩
  · cases effects with
    | touch _ touched =>
        cases touches.symm.trans touched
        exact Or.inl ⟨g, use, rfl⟩
  · cases effects with
    | @call _ _ ref _ opcode operand key =>
        -- Calls of other modes touch no class.
        have static : c.mode = .static := by
          rw [touched?, opcode, operand] at touches
          cases mode : c.mode with
          | static => rfl
          | _ =>
              rw [mode] at touches
              cases touches
        rw [static] at opcode
        rw [touched?, opcode, operand] at touches
        refine Or.inr ⟨g, c, rfl, static, ?_, ?_⟩
        · rw [called?, opcode, operand, key]
        · rw [key]
          exact Option.some.inj touches

end Instruction

namespace Machine

/-- An instruction that uses a class whose initializer has failed ends the call. -/
theorem step_of_uses_failed (failed : name ∈ m.failed) (current : f.insn? = some insn)
    (uses : insn.Uses m name) (link : Link) : (m.step f link).Failed := by
  obtain ⟨touches, unbridged⟩ := uses
  by_cases spent : m.Spent
  · exact failed_of_spent current spent
  · cases done : insn.execute m.heap f with
    | error fault => exact failed_of_execute_error current spent done
    | ok effect =>
        rcases Instruction.execute_of_touched? touches done with ⟨g, use, rfl⟩ |
          ⟨g, c, rfl, static, called, owner⟩
        · have asks : m.AsksAt f name := .use current spent done
          exact (asks.readies link).of_failed failed
        · have bridge := unbridged c.key called
          cases found : m.staticMethod c.key with
          | ok method =>
              have asks : m.AsksAt f name := .call current spent done static bridge found owner
              exact (asks.readies link).of_failed failed
          | error fault =>
              have call : m.counted.call g link c = m.counted.fail g link fault :=
                call_of_missing static bridge found
              rw [step_of_execute_ok current spent done, apply, call]
              exact m.counted.failed_failAt g.method g.ip link fault

/-- A call of the host of a method of such a class fails. -/
theorem start_of_failed {className method descriptor : String}
    (failed : canonicalName className ∈ m.failed)
    (unbridged : m.bridges.find? (.of className method descriptor) = none) (args : List Value) :
    (m.start className method descriptor args).Failed := by
  generalize eq : m.start className method descriptor args = p
  have called := m.start_called className method descriptor args
  rw [eq] at called
  cases called with
  | malformed => exact ⟨_, _, rfl⟩
  | answered _ bridged => cases bridged.symm.trans unbridged
  | failed => exact ⟨_, _, rfl⟩
  | static parsed _ found =>
      have asks : (Progress.finished m (.ok none)).Asks (canonicalName className)
          (m.start className method descriptor args) := .call parsed unbridged found rfl
      rw [eq] at asks
      exact asks.readies.of_failed failed
  | refused => exact ⟨_, _, rfl⟩

end Machine

/-- Nothing that uses the class succeeds: the current instruction does not, and neither
does a call of the host that no bridge answers. -/
def Progress.Bars (name : String) : Progress ω → Prop
  | .running m f link =>
    ∀ insn, f.insn? = some insn → insn.Uses m name → (m.step f link).Failed
  | .finished m _ =>
    ∀ className method descriptor args, canonicalName className = name →
      m.bridges.find? (.of className method descriptor) = none →
      (m.start className method descriptor args).Failed

theorem Progress.bars_of_failed (failed : name ∈ p.machine.failed) : p.Bars name := by
  cases p with
  | running m f link =>
      exact fun insn current uses => m.step_of_uses_failed failed current uses link
  | finished m outcome =>
      intro className method descriptor args same unbridged
      rw [← same] at failed
      exact Machine.start_of_failed failed unbridged args

/-! ## Lifetimes -/

namespace Progress

variable {table : ClassTable} {limits : Limits} {world : ω}

theorem Lives.grows (lives : p.Lives allowed q) : p.machine.Grows q.machine :=
  lives.invariant (I := fun q => p.machine.Grows q.machine) (.refl _)
    fun _ _ _ grows next => grows.trans next.grows

theorem Lives.recorded (lives : (fresh table limits world).Lives allowed p) : p.Recorded table :=
  lives.invariant (recorded_fresh table limits world) fun _ _ _ recorded next =>
    next.recorded recorded

/-- **Initializers run at most once, and a failed one bars its class.** At every moment
of a lifetime, whatever the host does between its calls and however these end:

* all that is recorded as failed is recorded as started, and every name there is that
  of a loaded class;
* a class that has started stays as it is when it is used once more, which succeeds
  unless its initializer has failed;
* no initializer is at work twice.

Of every move and all that comes after it:

* an initializer is at work only once it has begun, and neither record loses a name;
* an initializer that begins never begins again;
* if the move ends in an error, every class whose initializer it cuts short is recorded
  as failed, and nothing that uses it will ever succeed. -/
theorem Lives.initializes (lives : (fresh table limits world).Lives allowed p) :
    (p.machine.failed ⊆ p.machine.started ∧
      ∀ name ∈ p.machine.started, ∃ c, table.class? name = some c) ∧
    (∀ name ∈ p.machine.started,
      name ∉ p.machine.failed ∧ p.machine.touch name = .ok (p.machine, none) ∨
      name ∈ p.machine.failed ∧
        ∃ fault, p.machine.touch name = .error fault ∧ fault.kind = .lookup) ∧
    p.pending.Nodup ∧
    ∀ q, p.Next allowed q →
      (∀ name ∈ q.pending, name ∈ p.pending ∨ p.Begins name q) ∧
      ∀ r, q.Lives allowed r →
        (p.machine.started ⊆ r.machine.started ∧ p.machine.failed ⊆ r.machine.failed) ∧
        (∀ name, p.Begins name q → ∀ r', ¬ r.Begins name r') ∧
        (q.Failed → ∀ name, name ∈ p.working ∨ p.Begins name q →
          name ∈ r.machine.failed ∧ r.Bars name) := by
  have recorded := lives.recorded
  refine ⟨⟨recorded.failed, recorded.loaded⟩, fun name => Machine.touch_of_started,
    recorded.distinct, fun q next => ⟨next.pending, fun r later => ?_⟩⟩
  have grows := later.grows
  refine ⟨?_, fun name begins r' again => ?_, ?_⟩
  · have both := next.grows.trans grows
    exact ⟨both.started, both.failed⟩
  · exact again.started.1 (grows.started begins.started.2)
  · rintro ⟨m, e, rfl⟩ name cut
    have failed := grows.failed (next.poisons cut)
    exact ⟨failed, bars_of_failed failed⟩

end Progress

/-- A static method of at most one operand without local variables. -/
def staticCode (name : String) (instructions : List Instruction) : MethodCode where
  name
  descriptor := "()V"
  flags := .ofList [.accStatic]
  maxStack := 1
  maxLocals := 0
  argsSize := 0
  instructions

/-- A class whose initializer reads a field of another class. -/
def readingClass (name other : String) (last : Opcode) : ClassCode where
  name
  superName := rootClass
  methods :=
    [staticCode "<clinit>"
      [⟨0, .getStatic, [.field ⟨other, "x", "I"⟩], none⟩, ⟨3, last, [], none⟩],
      staticCode "run" [⟨0, .returnVoid, [], none⟩]]

/-- Two classes whose initializers need each other. That of the second one fails. -/
def cyclicTable : ClassTable :=
  (ClassTable.load [readingClass "A" "B" .returnVoid, readingClass "B" "A" .athrow]).toOption.getD
    .empty

/-- The initializer of the first class starts that of the second one, which uses the
first class and then fails: both classes are barred. -/
theorem cyclic_initializes :
    ∃ p : Progress Unit, (Progress.fresh cyclicTable {} ()).Lives (fun _ _ => True) p ∧
      p.pending = ["B", "A"] ∧ p.step.Failed ∧ p.step.Bars "A" ∧ p.step.Bars "B" := by
  let call : Progress Unit := (Machine.create cyclicTable {} ()).start "A" "run" "()V" []
  have lives : (Progress.fresh cyclicTable {} ()).Lives (fun _ _ => True) (call.run 2) :=
    Progress.lives_of_call trivial ⟨2, rfl⟩
  have failed : (call.run 2).step.Failed := ⟨_, _, rfl⟩
  have next : (call.run 2).Next (fun _ _ => True) (call.run 2).step := .step _ _ _
  have bars := ((lives.initializes.2.2.2 _ next).2 _ .refl).2.2 failed
  exact ⟨call.run 2, lives, rfl, failed, (bars "A" (Or.inl (by decide))).2,
    (bars "B" (Or.inl (by decide))).2⟩

end ClassMachine
