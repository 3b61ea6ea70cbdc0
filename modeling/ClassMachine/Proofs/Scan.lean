import ClassMachine.Listing.Scan
import ClassMachine.Proofs.Outcome

/-!
# What scanning a listing gives

`Feeds` says everything that one line can do to what has been read, and
`Scan.feeds_of_feed` proves that a line does nothing else. `MethodCode.Scanned`
is what every method of a scanned class has: code, a well-formed descriptor and
operands of the shapes that a listing can show. It holds of every class that a
listing gives (`parse_scanned`).
-/

namespace ClassMachine

/-- The shapes of operands that a listing can show. -/
def Operand.isScanned : Operand → Bool
  | .int _ | .raw _ | .pool _ => true
  | _ => false

/-- An instruction as it is written in a listing. -/
def Instruction.Scanned (insn : Instruction) : Prop :=
  ∀ operand ∈ insn.operands, operand.isScanned = true

/-- A method as it is written in a listing. -/
structure MethodCode.Scanned (m : MethodCode) : Prop where
  nonempty : m.instructions ≠ []
  descriptor : ∃ descriptor, Descriptor.parse m.descriptor = .ok descriptor
  instructions : ∀ insn ∈ m.instructions, insn.Scanned

namespace Listing

variable {header : Header} {methods methods' : List MethodCode} {stage : Stage} {m m' : Pending}
  {scan scan' : Scan} {number : Nat} {line : List Char}

/-! ## Instruction lines -/

theorem poolToken?_eq_some {token : List Char} {operand : Operand}
    (found : poolToken? token = some operand) : ∃ index, operand = .pool index := by
  unfold poolToken? at found
  split at found
  · obtain ⟨n, _, rfl⟩ := Option.map_eq_some_iff.1 found
    exact ⟨_, rfl⟩
  · cases found

theorem decimalToken?_eq_some {token : List Char} {operand : Operand}
    (found : decimalToken? token = some operand) : ∃ value, operand = .int value := by
  obtain ⟨n, _, rfl⟩ := Option.map_eq_some_iff.1 found
  exact ⟨_, rfl⟩

theorem hexToken?_eq_some {token : List Char} {operand : Operand}
    (found : hexToken? token = some operand) : ∃ value, operand = .int value := by
  unfold hexToken? at found
  split at found
  · split at found
    · split at found
      · split at found
        · cases found
          exact ⟨_, rfl⟩
        · cases found
      · cases found
    · cases found
  · cases found

theorem isScanned_classify (token : List Char) : (classify token).isScanned = true := by
  unfold classify
  cases pool : poolToken? token with
  | some operand =>
      obtain ⟨index, rfl⟩ := poolToken?_eq_some pool
      rfl
  | none =>
      cases decimal : decimalToken? token with
      | some operand =>
          obtain ⟨value, rfl⟩ := decimalToken?_eq_some decimal
          rfl
      | none =>
          cases hex : hexToken? token with
          | some operand =>
              obtain ⟨value, rfl⟩ := hexToken?_eq_some hex
              rfl
          | none => rfl

/-- The instruction of a line has operands of the shapes of a listing. -/
theorem InstructionLine.scanned (parts : InstructionLine) (offset : UInt32) :
    (parts.instruction offset).Scanned := by
  intro operand member
  obtain ⟨token, _, rfl⟩ := List.mem_map.1 member
  exact isScanned_classify token

/-! ## One line -/

/-- The method that is open in a stage. -/
def Stage.pending? : Stage → Option Pending
  | .signature => none
  | .metadata m | .code m => some m

/-- Everything that a line can do to what has been read. -/
inductive Feeds (number : Nat) : Scan → Scan → Prop
  | skip (scan : Scan) : Feeds number scan scan
  /-- The header of the class. -/
  | header (header : Header) : Feeds number .start (.inside header [] .signature)
  /-- The signature of a method. -/
  | opens {header : Header} {methods : List MethodCode} (name : String) :
    Feeds number (.inside header methods .signature)
      (.inside header methods (.metadata { name, line := number }))
  /-- The descriptor or the flags of a method. -/
  | describes {header : Header} {methods : List MethodCode} {m : Pending}
    (descriptor : Option String) (flags : FlagSet) :
    Feeds number (.inside header methods (.metadata m))
      (.inside header methods (.metadata { m with descriptor, flags }))
  /-- The start of the code of a method. -/
  | starts {header : Header} {methods : List MethodCode} {m : Pending} :
    Feeds number (.inside header methods (.metadata m)) (.inside header methods (.code m))
  /-- The metrics of a method. -/
  | measures {header : Header} {methods : List MethodCode} {m : Pending} (size : FrameSize) :
    Feeds number (.inside header methods (.code m)) (.inside header methods (.code { m with size }))
  /-- An instruction. -/
  | adds {header : Header} {methods : List MethodCode} {m : Pending} (parts : InstructionLine)
    (offset : UInt32) : (∀ last, m.latest.head? = some last → last.offset < offset) →
    Feeds number (.inside header methods (.code m))
      (.inside header methods (.code { m with latest := parts.instruction offset :: m.latest }))
  /-- The end of a method. -/
  | closes {header : Header} {methods : List MethodCode} {stage : Stage} {m : Pending}
    {closed : Option MethodCode} : stage.pending? = some m → m.close = .ok closed →
    Feeds number (.inside header methods stage)
      (.inside header (methods ++ closed.toList) .signature)
  /-- The end of a method by the signature of another. -/
  | reopens {header : Header} {methods : List MethodCode} {m : Pending}
    {closed : Option MethodCode} (name : String) : m.close = .ok closed →
    Feeds number (.inside header methods (.metadata m))
      (.inside header (methods ++ closed.toList) (.metadata { name, line := number }))

/-- A method that ends without code is dropped. -/
theorem Pending.close_eq_ok {closed : Option MethodCode} (closing : m.close = .ok closed) :
    (m.latest = [] ∧ closed = none) ∨ ∃ method descriptor,
      m.latest ≠ [] ∧ closed = some method ∧ method.name = m.name ∧
        method.instructions = m.latest.reverse ∧
        Descriptor.parse method.descriptor = .ok descriptor := by
  unfold close at closing
  split at closing
  · rename_i empty
    cases closing
    exact Or.inl ⟨List.isEmpty_iff.1 empty, rfl⟩
  · rename_i occupied
    split at closing
    · cases closing
    · split at closing
      · cases closing
      · rename_i descriptor parsed
        cases closing
        exact Or.inr
          ⟨_, descriptor, fun empty => occupied (List.isEmpty_iff.2 empty), rfl, rfl, rfl, parsed⟩

/-- To the complete methods the open one is added, if there is one. -/
theorem Stage.close_cases (closing : stage.close methods = .ok methods') :
    (stage = .signature ∧ methods' = methods) ∨ ∃ m closed,
      stage.pending? = some m ∧ m.close = .ok closed ∧ methods' = methods ++ closed.toList := by
  cases stage with
  | signature =>
      cases closing
      exact Or.inl ⟨rfl, rfl⟩
  | metadata m | code m =>
      obtain ⟨closed, ended, done⟩ := bind_eq_ok.1 closing
      cases done
      exact Or.inr ⟨m, closed, rfl, ended, rfl⟩

theorem Stage.close_eq_ok (pending : stage.pending? = some m)
    (closing : stage.close methods = .ok methods') :
    ∃ closed, m.close = .ok closed ∧ methods' = methods ++ closed.toList := by
  rcases Stage.close_cases closing with ⟨rfl, _⟩ | ⟨m', closed, pending', ended, rfl⟩
  · cases pending
  · cases pending.symm.trans pending'
    exact ⟨closed, ended, rfl⟩

/-- The class that a scan gives is that of its header. -/
theorem Scan.finish_eq_ok {c : ClassCode} (finished : scan.finish = .ok c) :
    ∃ header methods stage, scan = .inside header methods stage ∧
      c.name = header.name ∧ c.superName = header.superName ∧
      stage.close methods = .ok c.methods := by
  cases scan with
  | start => cases finished
  | inside header methods stage =>
      obtain ⟨methods', closing, done⟩ := bind_eq_ok.1 finished
      cases done
      exact ⟨header, methods, stage, rfl, rfl, rfl, closing⟩

theorem feeds_of_metadataLine (fed : metadataLine header methods m number line = .ok scan') :
    Feeds number (.inside header methods (.metadata m)) scan' := by
  unfold metadataLine at fed
  split at fed
  · obtain ⟨methods', closing, done⟩ := bind_eq_ok.1 fed
    cases done
    obtain ⟨closed, ended, rfl⟩ := Stage.close_eq_ok rfl closing
    exact .closes rfl ended
  · split at fed
    · cases fed
      exact .describes _ m.flags
    · split at fed
      · cases fed
        exact .describes m.descriptor _
      · split at fed
        · cases fed
          exact .starts
        · split at fed
          · rename_i declares
            obtain ⟨methods', closing, done⟩ := bind_eq_ok.1 fed
            cases done
            obtain ⟨closed, ended, rfl⟩ := Stage.close_eq_ok rfl closing
            obtain ⟨name, named⟩ := Option.isSome_iff_exists.1 declares
            rw [signatureLine, named]
            exact .reopens name ended
          · cases fed
            exact .skip _

theorem addInstruction_eq_ok {parts : InstructionLine}
    (added : m.addInstruction number line parts = .ok m') :
    ∃ offset, parts.offset? = some offset ∧
      (∀ last, m.latest.head? = some last → last.offset < offset) ∧
      m' = { m with latest := parts.instruction offset :: m.latest } := by
  unfold Pending.addInstruction at added
  split at added
  · cases added
  · rename_i offset read
    dsimp only at added
    split at added
    · rename_i last rest latest
      split at added
      · cases added
      · rename_i above
        cases added
        refine ⟨offset, read, fun last' first => ?_, rfl⟩
        rw [latest] at first
        cases first
        exact UInt32.not_le.1 above
    · rename_i latest
      cases added
      refine ⟨offset, read, fun last' first => ?_, rfl⟩
      rw [latest] at first
      cases first

theorem feeds_of_codeLine (fed : codeLine header methods m number line = .ok scan') :
    Feeds number (.inside header methods (.code m)) scan' := by
  unfold codeLine at fed
  split at fed
  · obtain ⟨methods', closing, done⟩ := bind_eq_ok.1 fed
    cases done
    obtain ⟨closed, ended, rfl⟩ := Stage.close_eq_ok rfl closing
    exact .closes rfl ended
  · split at fed
    · obtain ⟨size, _, done⟩ := bind_eq_ok.1 fed
      cases done
      exact .measures size
    · split at fed
      · cases fed
        exact .skip _
      · rename_i parts _
        obtain ⟨m', added, done⟩ := bind_eq_ok.1 fed
        cases done
        obtain ⟨offset, _, above, rfl⟩ := addInstruction_eq_ok added
        exact .adds parts offset above

/-- **A line does nothing else.** -/
theorem Scan.feeds_of_feed (fed : scan.feed number line = .ok scan') :
    Feeds number scan scan' := by
  unfold Scan.feed at fed
  split at fed
  · split at fed
    · cases fed
      exact .header _
    · cases fed
      exact .skip _
  · rename_i header methods
    cases fed
    unfold signatureLine
    split
    · exact .opens _
    · exact .skip _
  · exact feeds_of_metadataLine fed
  · exact feeds_of_codeLine fed

/-- What every line keeps, all lines keep. -/
theorem Scan.invariant_feed {I : Scan → Prop} {lines : List (List Char)}
    (keep : ∀ {number line scan scan'}, Scan.feed number line scan = .ok scan' → I scan → I scan')
    (start : I scan) (fed : scan.feedLines number lines = .ok scan') : I scan' := by
  induction lines generalizing number scan with
  | nil =>
      cases fed
      exact start
  | cons line lines ih =>
      obtain ⟨scan₁, first, rest⟩ := bind_eq_ok.1 fed
      exact ih (keep first start) rest

/-- What everything that a line can do keeps, a listing keeps. -/
theorem Scan.invariant_feedLines {I : Scan → Prop} {lines : List (List Char)}
    (keep : ∀ {number scan scan'}, Feeds number scan scan' → I scan → I scan') (start : I scan)
    (fed : scan.feedLines number lines = .ok scan') : I scan' :=
  Scan.invariant_feed (fun fed => keep (feeds_of_feed fed)) start fed

/-! ## Properties of methods -/

/-- What has been read has the properties: the complete methods the one, the open method
the other. -/
def Scan.Holds (M : MethodCode → Prop) (P : Pending → Prop) : Scan → Prop
  | .start => True
  | .inside _ methods stage => (∀ m ∈ methods, M m) ∧ ∀ m, stage.pending? = some m → P m

/-- Properties that no line breaks. That of the open method is one of its instructions. -/
structure Kept (M : MethodCode → Prop) (P : Pending → Prop) : Prop where
  opens : ∀ m, m.latest = [] → P m
  same : ∀ {m m'}, m'.latest = m.latest → P m → P m'
  adds : ∀ {m} (parts : InstructionLine) (offset : UInt32),
    (∀ last, m.latest.head? = some last → last.offset < offset) → P m →
    P { m with latest := parts.instruction offset :: m.latest }
  ends : ∀ {m closed}, P m → m.close = .ok closed → ∀ method ∈ closed.toList, M method

section Kept

variable {M : MethodCode → Prop} {P : Pending → Prop}

theorem Feeds.holds (feeds : Feeds number scan scan') (kept : Kept M P) (holds : scan.Holds M P) :
    scan'.Holds M P := by
  cases feeds with
  | skip => exact holds
  | header => exact ⟨nofun, nofun⟩
  | opens name =>
      refine ⟨holds.1, ?_⟩
      rintro _ ⟨⟩
      exact kept.opens _ rfl
  | @describes _ _ m | @measures _ _ m =>
      refine ⟨holds.1, ?_⟩
      rintro _ ⟨⟩
      exact kept.same (m := m) rfl (holds.2 m rfl)
  | starts => exact holds
  | @adds _ _ m parts offset above =>
      refine ⟨holds.1, ?_⟩
      rintro _ ⟨⟩
      exact kept.adds parts offset above (holds.2 m rfl)
  | closes pending closing =>
      have ended := kept.ends (holds.2 _ pending) closing
      exact ⟨List.forall_mem_append.2 ⟨holds.1, ended⟩, nofun⟩
  | reopens name closing =>
      have ended := kept.ends (holds.2 _ rfl) closing
      refine ⟨List.forall_mem_append.2 ⟨holds.1, ended⟩, ?_⟩
      rintro _ ⟨⟩
      exact kept.opens _ rfl

theorem Scan.Holds.finish {c : ClassCode} (holds : scan.Holds M P) (kept : Kept M P)
    (finished : scan.finish = .ok c) : ∀ m ∈ c.methods, M m := by
  obtain ⟨header, methods, stage, rfl, _, _, closing⟩ := Scan.finish_eq_ok finished
  rcases Stage.close_cases closing with ⟨_, same⟩ | ⟨m, closed, pending, ended, more⟩
  · rw [same]
    exact holds.1
  · rw [more]
    exact List.forall_mem_append.2 ⟨holds.1, kept.ends (holds.2 m pending) ended⟩

end Kept

/-! ## Scanned methods -/

/-- The instructions read so far of an open method. -/
def Pending.Scanned (m : Pending) : Prop :=
  ∀ insn ∈ m.latest, insn.Scanned

/-- What has been read is as it is written in a listing. -/
def Scan.Scanned : Scan → Prop
  | .start => True
  | .inside _ methods stage =>
    (∀ m ∈ methods, m.Scanned) ∧ ∀ m, stage.pending? = some m → m.Scanned

theorem Scan.scanned_iff : scan.Scanned ↔ scan.Holds MethodCode.Scanned Pending.Scanned := by
  cases scan <;> exact Iff.rfl

theorem kept_scanned : Kept MethodCode.Scanned Pending.Scanned where
  opens := by
    intro m empty
    rw [Pending.Scanned, empty]
    nofun
  same := by
    intro m m' same scanned
    rwa [Pending.Scanned, same]
  adds := fun parts offset _ scanned =>
    List.forall_mem_cons.2 ⟨parts.scanned offset, scanned⟩
  ends := by
    intro m closed scanned closing method member
    rcases Pending.close_eq_ok closing with ⟨_, rfl⟩ |
      ⟨complete, descriptor, occupied, rfl, _, instructions, parsed⟩
    · cases member
    · cases Option.mem_toList.1 member
      refine ⟨?_, ⟨descriptor, parsed⟩, ?_⟩
      · rwa [instructions, ne_eq, List.reverse_eq_nil_iff]
      · rw [instructions]
        exact fun insn inside => scanned insn (List.mem_reverse.1 inside)

theorem Feeds.scanned (feeds : Feeds number scan scan') (scanned : scan.Scanned) :
    scan'.Scanned :=
  Scan.scanned_iff.2 (feeds.holds kept_scanned (Scan.scanned_iff.1 scanned))

/-- **Whatever a listing gives has code, a descriptor and plain operands.** -/
theorem parse_scanned {text : String} {c : ClassCode} (parsed : parse text = .ok c) :
    ∀ m ∈ c.methods, m.Scanned := by
  obtain ⟨scan, fed, finished⟩ := bind_eq_ok.1 parsed
  have start : Scan.start.Scanned := trivial
  have scanned : scan.Scanned := Scan.invariant_feedLines Feeds.scanned start fed
  exact (Scan.scanned_iff.1 scanned).finish kept_scanned finished

end Listing

end ClassMachine
