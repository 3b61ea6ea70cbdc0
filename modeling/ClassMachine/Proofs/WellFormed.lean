import Mathlib.Data.List.Chain
import ClassMachine.Proofs.Registers
import ClassMachine.Proofs.Text

/-!
# What the reader of listings accepts is well formed

The stages behind the reader take the shape of names, methods and operands for granted.
Every class that a listing gives has it (`ClassCode.WellFormed`): what has been read is
well formed after every line (`Scan.WellFormed`), whatever the lines are.
-/

namespace ClassMachine

open Text

/-! ## Well-formed classes -/

/-- What the name of a class is made of: no dot, no blank and no opening brace. -/
def IsNameChar (c : Char) : Prop :=
  c ≠ '.' ∧ isBlank c = false ∧ c ≠ '\x7b'

/-- A token is a piece of an operand text: it is not empty and has no comma, no blank and
no two slashes in it. -/
structure IsToken (token : List Char) : Prop where
  nonempty : token ≠ []
  plain : ∀ c ∈ token, c ≠ ',' ∧ isBlank c = false
  uncommented : ¬ ['/', '/'] <:+: token

/-- An operand of a listing is an index of the pool, a word or a token. -/
def Operand.WellFormed : Operand → Prop
  | .pool _ | .int _ => True
  | .raw text => IsToken text.toList
  | _ => False

structure Instruction.WellFormed (insn : Instruction) : Prop where
  opcode : ∃ mnemonic, insn.opcode = .ofMnemonic mnemonic
  operands : ∀ operand ∈ insn.operands, operand.WellFormed
  comment : ∀ comment, insn.comment = some comment → comment ≠ "" ∧
    (∀ c ∈ comment.toList.head?, isBlank c = false) ∧
    ∀ c ∈ comment.toList.getLast?, isBlank c = false

structure MethodCode.WellFormed (m : MethodCode) : Prop where
  nonempty : m.instructions ≠ []
  increasing : m.instructions.Pairwise fun insn later => insn.offset < later.offset
  descriptor : ∃ descriptor, Descriptor.parse m.descriptor = .ok descriptor
  instructions : ∀ insn ∈ m.instructions, insn.WellFormed

structure ClassCode.WellFormed (c : ClassCode) : Prop where
  named : c.name ≠ ""
  name : ∀ a ∈ c.name.toList, IsNameChar a
  superName : '.' ∉ c.superName.toList
  methods : ∀ m ∈ c.methods, m.WellFormed

namespace Listing

variable {header : Header} {methods : List MethodCode} {stage : Stage} {m : Pending}
  {scan scan' : Scan} {number : Nat} {line : List Char}

/-- The names of a class are in canonical form. -/
structure Header.WellFormed (header : Header) : Prop where
  named : header.name ≠ ""
  name : ∀ a ∈ header.name.toList, IsNameChar a
  superName : '.' ∉ header.superName.toList

theorem wellFormed_of_headerAt? {declaration : List Char × List Char}
    (found : headerAt? rootClass declaration = some header) : header.WellFormed := by
  obtain ⟨keyword, cs⟩ := declaration
  simp only [headerAt?, List.span_eq_takeWhile_dropWhile] at found
  split at found
  · cases found
  · rename_i accepted
    cases found
    rw [Bool.or_eq_true, not_or] at accepted
    have nonempty : cs.takeWhile (fun c => !(isBlank c || c == '\x7b')) ≠ [] :=
      fun empty => accepted.2 (List.isEmpty_iff.2 empty)
    refine ⟨canonicalName_ne_empty (by rwa [String.toList_ofList]), fun a member => ?_, ?_⟩
    · obtain ⟨noDot, rfl | there⟩ := mem_canonicalName member
      · exact ⟨by decide, by decide, by decide⟩
      · rw [String.toList_ofList] at there
        have plain := List.mem_takeWhile_imp there
        simp at plain
        exact ⟨noDot, plain⟩
    · have root : '.' ∉ rootClass.toList := by decide
      dsimp only
      split
      · exact root
      · split
        · exact fun member => (mem_canonicalName member).1 rfl
        · exact root

theorem wellFormed_of_header? (found : header? rootClass line = some header) :
    header.WellFormed := by
  obtain ⟨declaration, _, found⟩ := List.exists_of_findSome?_eq_some found
  exact wellFormed_of_headerAt? found

/-! ## Instructions -/

/-- A comment starts at the first two slashes. -/
theorem cutComment?_eq_some {cs before behind : List Char}
    (cut : cutComment? cs = some (before, behind)) :
    cs = before ++ '/' :: '/' :: behind ∧ ¬ ['/', '/'] <:+: before := by
  induction cs using cutComment?.induct generalizing before with
  | case1 => cases cut
  | case2 cs =>
      cases cut
      exact ⟨rfl, by simp⟩
  | case3 c cs other ih =>
      rw [cutComment?] at cut
      · obtain ⟨⟨front, rest⟩, cut, eq⟩ := Option.map_eq_some_iff.1 cut
        cases eq
        obtain ⟨whole, free⟩ := ih cut
        refine ⟨by rw [whole]; rfl, fun slashes => ?_⟩
        rcases List.infix_cons_iff.1 slashes with first | later
        · obtain ⟨rest', eq⟩ := first
          cases eq
          exact other _ rfl whole
        · exact free later
      · exact other

theorem cutComment?_eq_none {cs : List Char} (cut : cutComment? cs = none) :
    ¬ ['/', '/'] <:+: cs := by
  induction cs using cutComment?.induct with
  | case1 => simp
  | case2 cs => cases cut
  | case3 c cs other ih =>
      rw [cutComment?] at cut
      · intro slashes
        rcases List.infix_cons_iff.1 slashes with first | later
        · obtain ⟨behind, eq⟩ := first
          cases eq
          exact other _ rfl rfl
        · exact ih (Option.map_eq_none_iff.1 cut) later
      · exact other

theorem wellFormed_classify {token : List Char} (isToken : IsToken token) :
    (classify token).WellFormed := by
  unfold classify
  cases pool : poolToken? token with
  | some operand =>
      obtain ⟨index, rfl⟩ := poolToken?_eq_some pool
      trivial
  | none =>
      cases decimal : decimalToken? token with
      | some operand =>
          obtain ⟨value, rfl⟩ := decimalToken?_eq_some decimal
          trivial
      | none =>
          cases hex : hexToken? token with
          | some operand =>
              obtain ⟨value, rfl⟩ := hexToken?_eq_some hex
              trivial
          | none =>
              change IsToken (String.ofList token).toList
              rwa [String.toList_ofList]

/-- Operands are read from a text without two slashes. -/
theorem wellFormed_readOperands {cs : List Char} (free : ¬ ['/', '/'] <:+: cs) :
    ∀ operand ∈ readOperands cs, operand.WellFormed := by
  intro operand member
  obtain ⟨token, there, rfl⟩ := List.mem_map.1 member
  obtain ⟨field, nonempty⟩ := List.mem_filter.1 there
  obtain ⟨part, plain⟩ := mem_splitOnP field
  refine wellFormed_classify ⟨?_, fun c inside => ?_, fun slashes => free (slashes.trans part)⟩
  · rintro rfl
    cases nonempty
  · have separates := plain c inside
    simp [isSeparator] at separates
    exact separates

theorem InstructionLine.wellFormed (parts : InstructionLine) (offset : UInt32) :
    (parts.instruction offset).WellFormed := by
  unfold instruction splitComment
  cases cut : cutComment? parts.rest with
  | none =>
      have free := cutComment?_eq_none cut
      refine ⟨⟨_, rfl⟩, wellFormed_readOperands fun slashes => ?_, nofun⟩
      exact free (slashes.trans (isPart_trimOf isBlank _))
  | some pieces =>
      obtain ⟨before, behind⟩ := pieces
      have free := (cutComment?_eq_some cut).2
      refine ⟨⟨_, rfl⟩, wellFormed_readOperands fun slashes => ?_, fun comment eq => ?_⟩
      · exact free (slashes.trans (isPart_trimOf isBlank _))
      · dsimp only at eq
        split at eq
        · cases eq
        · rename_i nonempty
          cases eq
          rw [String.toList_ofList]
          have occupied : trim behind ≠ [] := fun empty => nonempty (List.isEmpty_iff.2 empty)
          exact ⟨ofList_ne_empty occupied, stays_head?_trimOf isBlank _,
            stays_getLast?_trimOf isBlank _⟩

/-! ## Scans -/

/-- The instruction stands behind the other one. -/
def Behind (insn earlier : Instruction) : Prop :=
  earlier.offset < insn.offset

instance : Trans Behind Behind Behind :=
  ⟨fun later earlier => UInt32.lt_trans earlier later⟩

/-- The instructions read so far of an open method: the last one stands behind the
others, and so on. -/
structure Pending.WellFormed (m : Pending) : Prop where
  decreasing : m.latest.IsChain Behind
  instructions : ∀ insn ∈ m.latest, insn.WellFormed

/-- What has been read is well formed. -/
def Scan.WellFormed : Scan → Prop
  | .start => True
  | .inside header methods stage =>
    header.WellFormed ∧ (∀ m ∈ methods, m.WellFormed) ∧
      ∀ m, stage.pending? = some m → m.WellFormed

theorem kept_wellFormed : Kept MethodCode.WellFormed Pending.WellFormed where
  opens := by
    intro m empty
    refine ⟨?_, ?_⟩
    · rw [empty]
      exact .nil
    · rw [empty]
      nofun
  same := by
    rintro m m' same ⟨decreasing, instructions⟩
    rw [← same] at decreasing instructions
    exact ⟨decreasing, instructions⟩
  adds := by
    rintro m parts offset above ⟨decreasing, instructions⟩
    refine ⟨List.isChain_cons.2 ⟨above, decreasing⟩, ?_⟩
    exact List.forall_mem_cons.2 ⟨parts.wellFormed offset, instructions⟩
  ends := by
    intro m closed wellFormed closing method member
    rcases Pending.close_eq_ok closing with ⟨_, rfl⟩ |
      ⟨complete, descriptor, occupied, rfl, _, instructions, parsed⟩
    · cases member
    · cases Option.mem_toList.1 member
      refine ⟨?_, ?_, ⟨descriptor, parsed⟩, ?_⟩
      · rwa [instructions, ne_eq, List.reverse_eq_nil_iff]
      · rw [instructions]
        exact List.pairwise_reverse.2 (List.isChain_iff_pairwise.1 wellFormed.decreasing)
      · rw [instructions]
        exact fun insn inside => wellFormed.instructions insn (List.mem_reverse.1 inside)

theorem Scan.WellFormed.holds (wellFormed : scan.WellFormed) :
    scan.Holds MethodCode.WellFormed Pending.WellFormed := by
  cases scan with
  | start => trivial
  | inside header methods stage => exact wellFormed.2

/-- A line leaves what has been read well formed. -/
theorem Scan.WellFormed.feed (wellFormed : scan.WellFormed)
    (fed : scan.feed number line = .ok scan') : scan'.WellFormed := by
  have feeds := feeds_of_feed fed
  have holds := feeds.holds kept_wellFormed wellFormed.holds
  cases feeds with
  | skip => exact wellFormed
  | header header =>
      refine ⟨?_, holds⟩
      rw [Scan.feed] at fed
      cases found : header? rootClass line with
      | none =>
          rw [found] at fed
          cases fed
      | some header' =>
          rw [found] at fed
          cases fed
          exact wellFormed_of_header? found
  | _ => exact ⟨wellFormed.1, holds⟩

theorem Scan.WellFormed.finish {c : ClassCode} (wellFormed : scan.WellFormed)
    (finished : scan.finish = .ok c) : c.WellFormed := by
  have methods := wellFormed.holds.finish kept_wellFormed finished
  obtain ⟨header, complete, stage, rfl, name, superName, _⟩ := Scan.finish_eq_ok finished
  obtain ⟨header', _⟩ := wellFormed
  refine ⟨?_, ?_, ?_, methods⟩
  · rw [name]
    exact header'.named
  · rw [name]
    exact header'.name
  · rw [superName]
    exact header'.superName

/-- **Everything that is accepted is well formed**, and so is the scan after every line:
the registers are those of the scan, whether the lines are accepted or one is refused,
and they are sound. Without a class there are no methods, and a method is open just
where its lines are read. -/
theorem parse_wellFormed (text : String) :
    (∀ c, parse text = .ok c → c.WellFormed) ∧
    Registers.parse text = parse text ∧
    ∀ count,
      let front := (lines text.toList).take count
      Reads (Scan.start.feedLines 1 front) (Registers.feedLines {} 1 front) ∧
        (Registers.feedLines {} 1 front).1.Sound := by
  refine ⟨fun c parsed => ?_, Registers.parse_eq text, fun count => ?_⟩
  · obtain ⟨scan, fed, finished⟩ := bind_eq_ok.1 parsed
    have start : Scan.start.WellFormed := trivial
    have wellFormed : scan.WellFormed :=
      Scan.invariant_feed (fun fed wellFormed => wellFormed.feed fed) start fed
    exact wellFormed.finish finished
  · have reads := Registers.reads_feedLines .start 1 ((lines text.toList).take count)
    exact ⟨reads, reads.sound⟩

/-- A listing of a class with one method. -/
def tidyListing : String :=
  "class demo.Tidy extends demo.Base \x7b\n  int five();\n    descriptor: ()I\n    Code:\n"
    ++ "      0: bipush  5  // five \n      2: ireturn\n\x7d"

/-- The class of the listing. -/
def tidyClass : ClassCode where
  name := "demo/Tidy"
  superName := "demo/Base"
  methods :=
    [{ name := "five"
       descriptor := "()I"
       flags := .empty
       maxStack := 0
       maxLocals := 0
       argsSize := 0
       instructions :=
        [⟨0, .bipush, [.int 5], some "five"⟩, ⟨2, .returnValue .int, [], none⟩] }]

/-- The class is well formed, and after five lines there is an open method. -/
theorem tidy_wellFormed :
    parse tidyListing = .ok tidyClass ∧ tidyClass.WellFormed ∧
      (Registers.feedLines {} 1 ((lines tidyListing.toList).take 5)).1.state = .code ∧
      (Registers.feedLines {} 1 ((lines tidyListing.toList).take 5)).1.pending?.isSome := by
  have parsed : parse tidyListing = .ok tidyClass := eq_ok_of_toOption (by decide +kernel)
  have inCode : (Registers.feedLines {} 1 ((lines tidyListing.toList).take 5)).1.state = .code := by
    decide +kernel
  obtain ⟨wellFormed, _, scans⟩ := parse_wellFormed tidyListing
  exact ⟨parsed, wellFormed tidyClass parsed, inCode, (scans 5).2.code inCode⟩

end Listing

end ClassMachine
