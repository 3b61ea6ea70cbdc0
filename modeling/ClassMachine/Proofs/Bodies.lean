import ClassMachine.Proofs.Scan

/-!
# The bodies that a scan has read

`Scan.bodies` lists the code of every method that has any, the one that is still open
included. A line either leaves the bodies as they are or adds its instruction at the
end of the last one (`Feeds.bodies`), and the class has the bodies of the whole scan
(`Scan.bodies_finish`). So each instruction comes from a line, and stays where it was
read.
-/

namespace ClassMachine.Listing

variable {header : Header} {methods : List MethodCode} {stage : Stage} {m : Pending}
  {scan scan' : Scan} {number : Nat} {lines : List (List Char)} {c : ClassCode}
  {insn insn' : Instruction} {i j : Nat}

/-! ## Lines in order -/

theorem Scan.feedLines_append (number : Nat) (before after : List (List Char)) (scan : Scan) :
    scan.feedLines number (before ++ after)
      = scan.feedLines number before >>= (·.feedLines (number + before.length) after) := by
  induction before generalizing number scan with
  | nil => rfl
  | cons line before ih =>
      rw [List.cons_append, feedLines, feedLines, bind_assoc]
      refine bind_congr fun scan => ?_
      rw [ih, List.length_cons, Nat.add_right_comm, Nat.add_assoc]

/-! ## Bodies -/

/-- The code of an open method, if it has any. -/
def Pending.body? (m : Pending) : Option (List Instruction) :=
  if m.latest = [] then none else some m.latest.reverse

/-- The code of every method that has any, in order. -/
def Scan.bodies : Scan → List (List Instruction)
  | .start => []
  | .inside _ methods stage =>
    methods.map MethodCode.instructions ++ (stage.pending?.bind Pending.body?).toList

theorem Pending.map_close {closed : Option MethodCode} (closing : m.close = .ok closed) :
    closed.toList.map MethodCode.instructions = m.body?.toList := by
  rcases Pending.close_eq_ok closing with ⟨empty, rfl⟩ |
    ⟨method, descriptor, occupied, rfl, _, instructions, _⟩
  · rw [body?, if_pos empty]
    rfl
  · rw [body?, if_neg occupied, ← instructions]
    rfl

/-- Everything that a line can do to the bodies. -/
theorem Feeds.bodies (feeds : Feeds number scan scan') :
    scan'.bodies = scan.bodies ∨ ∃ parts offset header methods m,
      scan = .inside header methods (.code m) ∧
      scan' = .inside header methods
        (.code { m with latest := InstructionLine.instruction parts offset :: m.latest }) := by
  cases feeds with
  | skip | header | opens | describes | starts | measures => exact Or.inl rfl
  | adds parts offset => exact Or.inr ⟨parts, offset, _, _, _, rfl, rfl⟩
  | closes pending closing =>
      left
      rw [Scan.bodies, Scan.bodies, pending, List.map_append, Pending.map_close closing]
      exact List.append_nil _
  | reopens name closing =>
      left
      simp [Scan.bodies, Stage.pending?, Pending.body?, Pending.map_close closing]

theorem Scan.bodies_finish (finished : scan.finish = .ok c) :
    c.methods.map MethodCode.instructions = scan.bodies := by
  obtain ⟨header, methods, stage, rfl, _, _, closing⟩ := Scan.finish_eq_ok finished
  rcases Stage.close_cases closing with ⟨rfl, same⟩ | ⟨m, closed, pending, ended, more⟩
  · simp [bodies, Stage.pending?, same]
  · simp [bodies, pending, more, Pending.map_close ended]

/-! ## Instructions and their places -/

section Adding

variable (insn)

theorem Scan.bodies_code : (inside header methods (.code m)).bodies
    = methods.map MethodCode.instructions ++ m.body?.toList :=
  rfl

theorem Scan.bodies_add :
    (inside header methods (.code { m with latest := insn :: m.latest })).bodies
      = methods.map MethodCode.instructions ++ [m.latest.reverse ++ [insn]] := by
  simp [bodies_code, Pending.body?]

end Adding

/-- The instruction of a body at an index. -/
def Scan.instruction? (scan : Scan) (i j : Nat) : Option Instruction :=
  scan.bodies[i]?.bind fun body => body[j]?

theorem Scan.instruction?_add_last (insn : Instruction) :
    (inside header methods (.code { m with latest := insn :: m.latest })).instruction?
      methods.length m.latest.length = some insn := by
  simp [instruction?, bodies_add]

/-- An instruction stays where it was read. -/
theorem Feeds.instruction? (feeds : Feeds number scan scan')
    (found : scan.instruction? i j = some insn) : scan'.instruction? i j = some insn := by
  rcases feeds.bodies with same | ⟨parts, offset, header, methods, m, rfl, rfl⟩
  · rw [Scan.instruction?, same]
    exact found
  · obtain ⟨body, place, found⟩ := Option.bind_eq_some_iff.1 found
    rw [Scan.bodies_code] at place
    rw [Scan.instruction?, Scan.bodies_add]
    rcases Nat.lt_or_ge i (methods.map MethodCode.instructions).length with closed | behind
    · rw [List.getElem?_append_left closed] at place ⊢
      rw [place]
      exact found
    · -- The body that grows is the last one, so it keeps what it had.
      rw [List.getElem?_append_right behind] at place ⊢
      obtain ⟨last, rfl⟩ : i - (methods.map MethodCode.instructions).length = 0
          ∧ body = m.latest.reverse := by
        unfold Pending.body? at place
        split at place
        · cases place
        · have only := List.mem_of_getElem? place
          have first := (List.getElem?_eq_some_iff.1 place).1
          simp at only first
          exact ⟨by simpa using first, only⟩
      have inside : j < m.latest.reverse.length := (List.getElem?_eq_some_iff.1 found).1
      rw [last]
      exact (List.getElem?_append_left inside).trans found

theorem Scan.mem_bodies_of_latest (member : insn ∈ m.latest) :
    ∃ body ∈ (inside header methods (.code m)).bodies, insn ∈ body := by
  have occupied : m.latest ≠ [] := List.ne_nil_of_mem member
  refine ⟨m.latest.reverse, ?_, List.mem_reverse.2 member⟩
  simp [bodies_code, Pending.body?, occupied]

/-- What holds of the instruction of every line holds of a whole class. -/
theorem forall_instructions_of_parse {P : Instruction → Prop} {text : String}
    (each : ∀ (parts : InstructionLine) offset, P (parts.instruction offset))
    (parsed : parse text = .ok c) : ∀ m ∈ c.methods, ∀ insn ∈ m.instructions, P insn := by
  obtain ⟨scan, fed, finished⟩ := bind_eq_ok.1 parsed
  have holds : ∀ body ∈ scan.bodies, ∀ insn ∈ body, P insn := by
    have start : ∀ body ∈ Scan.start.bodies, ∀ insn ∈ body, P insn := fun body member => by
      cases member
    refine Scan.invariant_feedLines (I := fun scan => ∀ body ∈ scan.bodies, ∀ insn ∈ body, P insn)
      (fun {number scan scan'} feeds holds => ?_) start fed
    -- A line leaves the bodies alone or adds its instruction to the open one.
    rcases feeds.bodies with same | ⟨parts, offset, header, methods, m, rfl, rfl⟩
    · rwa [same]
    · rw [Scan.bodies_add]
      intro body member insn held
      rcases List.mem_append.1 member with closed | last
      · exact holds body (List.mem_append_left _ closed) insn held
      · rw [List.mem_singleton.1 last] at held
        rcases List.mem_append.1 held with earlier | added
        · obtain ⟨body, member, held⟩ := Scan.mem_bodies_of_latest (List.mem_reverse.1 earlier)
          exact holds body member insn held
        · rw [List.mem_singleton.1 added]
          exact each parts offset
  intro m member
  have same := Scan.bodies_finish finished
  exact holds m.instructions (same ▸ List.mem_map_of_mem member)

end ClassMachine.Listing
