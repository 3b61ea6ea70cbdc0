import ClassMachine.Proofs.Bodies
import ClassMachine.Proofs.CodeLines
import ClassMachine.Proofs.Normal
import ClassMachine.Sources

/-!
# String constants of a listing

A line `offset: ldc #index // String text` inside the code of a method gives an
instruction that loads `text` without the blanks at its end
(`StringLoad.constant_kept`). So the string arrives as it is written, whatever it
holds, exactly if it does not end in a blank.

The text is cut four times on its way: at either end of the line, at the first two
slashes, at either end of the comment, and behind the keyword. Each cut has a lemma
that says where it falls.
-/

namespace ClassMachine.Listing

open Text

/-! ## The line -/

/-- The parts of a line that loads a string. -/
structure StringLoad where
  indent : List Char
  offset : List Char
  /-- What stands between the colon and the mnemonic. -/
  gap : List Char
  /-- What stands between the mnemonic and the pool token. -/
  space : List Char
  index : List Char
  /-- What stands between the pool token and the comment. -/
  margin : List Char
  text : List Char
  indent_blank : ∀ c ∈ indent, isBlank c = true
  offset_digits : ∀ c ∈ offset, isDecimalDigit c = true
  offset_ne : offset ≠ []
  gap_blank : ∀ c ∈ gap, isBlank c = true
  gap_ne : gap ≠ []
  space_blank : ∀ c ∈ space, isBlank c = true
  space_ne : space ≠ []
  index_digits : ∀ c ∈ index, c.isDigit = true
  margin_blank : ∀ c ∈ margin, isBlank c = true
  text_line : '\n' ∉ text

namespace StringLoad

variable (l : StringLoad)

/-- What stands between the mnemonic and the comment. -/
def operands : List Char :=
  l.space ++ '#' :: (l.index ++ l.margin)

/-- The whole line. -/
def line : List Char :=
  l.indent ++ (l.offset ++ ':' :: (l.gap ++ ("ldc".toList ++ (l.operands
    ++ "// String ".toList ++ l.text))))

/-- The text without the blanks at its end. -/
def kept : List Char :=
  trimEndOf isBlank l.text

/-- The comment without blanks around it. -/
def comment : List Char :=
  "String".toList ++ trimEndOf isBlank (' ' :: l.text)

/-- What stands behind the mnemonic, without the blanks at its end. -/
def rest : List Char :=
  l.operands ++ '/' :: '/' :: ' ' :: l.comment

theorem exists_digit : ∃ d offset, l.offset = d :: offset ∧ isDecimalDigit d = true := by
  rcases digits : l.offset with _ | ⟨d, offset⟩
  · exact (l.offset_ne digits).elim
  · exact ⟨d, offset, rfl, l.offset_digits d (digits ▸ List.mem_cons_self)⟩

/-- The blanks at the end of the line are those at the end of its text. -/
theorem trim_line :
    trim l.line = l.offset ++ ':' :: (l.gap ++ ("ldc".toList ++ l.rest)) := by
  obtain ⟨d, offset, digits, digit⟩ := l.exists_digit
  have solid : isBlank d = false := by
    cases blank : isBlank d with
    | false => rfl
    | true => rw [isDecimalDigit_of_isBlank blank] at digit; cases digit
  have cut : l.line.dropWhile isBlank = (l.offset ++ ':' :: (l.gap ++ ("ldc".toList ++ (l.operands
      ++ "// Strin".toList)))) ++ 'g' :: ' ' :: l.text := by
    rw [line, List.dropWhile_append_of_pos l.indent_blank, digits, List.cons_append,
      List.dropWhile_cons_of_neg (by simp [solid])]
    simp
  rw [trim, trimOf, cut, trimEndOf_append (by decide)]
  rw [List.append_assoc, List.cons_append, List.append_assoc, List.append_assoc, List.append_assoc]
  rfl

/-! ## Reading the line -/

/-- The line starts with a digit, so with no word. -/
theorem isPrefixOf_trim_line {word : List Char}
    (leads : ∃ c ∈ word.head?, isDecimalDigit c = false) :
    word.isPrefixOf (trim l.line) = false := by
  obtain ⟨d, offset, digits, digit⟩ := l.exists_digit
  rw [trim_line, digits]
  exact isPrefixOf_of_digit digit leads

theorem endsCode_line : endsCode (trim l.line) = false := by
  obtain ⟨d, offset, digits, digit⟩ := l.exists_digit
  rw [trim_line, digits]
  exact endsCode_of_digit digit

theorem instructionLine?_line :
    instructionLine? (trim l.line) = some ⟨l.offset, "ldc".toList, l.rest⟩ := by
  have afterOffset : (trim l.line).span isDecimalDigit
      = (l.offset, ':' :: (l.gap ++ ("ldc".toList ++ l.rest))) := by
    rw [trim_line]
    exact span_append_cons l.offset_digits (by decide)
  have afterGap : (l.gap ++ ("ldc".toList ++ l.rest)).span isBlank
      = (l.gap, "ldc".toList ++ l.rest) :=
    span_append_cons l.gap_blank (by decide)
  have afterMnemonic : ("ldc".toList ++ l.rest).span isMnemonicChar = ("ldc".toList, l.rest) := by
    refine span_append (List.all_eq_true.1 (by decide)) fun c first => ?_
    rcases spaced : l.space with _ | ⟨blank, space⟩
    · exact (l.space_ne spaced).elim
    · rw [rest, operands, spaced] at first
      cases first
      exact isMnemonicChar_of_isBlank (l.space_blank c (spaced ▸ List.mem_cons_self))
  have complete : (l.offset.isEmpty || l.gap.isEmpty
      || !("ldc".toList.head?.any isMnemonicLetter)) = false := by
    simp [l.offset_ne, l.gap_ne]
    decide
  simp only [instructionLine?, afterOffset, afterGap, afterMnemonic, complete]
  exact if_neg Bool.false_ne_true

/-! ## Its operands and its comment -/

theorem noSlash_operands : '/' ∉ l.operands := by
  have noBlank : ∀ {cs : List Char}, (∀ c ∈ cs, isBlank c = true) → '/' ∉ cs :=
    fun blank member => ne_slash_of_isBlank (blank _ member) rfl
  have noDigit : '/' ∉ l.index := fun member => absurd (l.index_digits _ member) (by decide)
  simp [operands, noBlank l.space_blank, noBlank l.margin_blank, noDigit]

theorem isBlank_token : ∀ c ∈ '#' :: l.index, isBlank c = false := by
  intro c member
  rcases List.mem_cons.1 member with rfl | digit
  · decide
  · cases blank : isBlank c with
    | false => rfl
    | true =>
        have differs := isDigit_of_isBlank blank
        rw [l.index_digits c digit] at differs
        cases differs

theorem trim_operands : trim l.operands = '#' :: l.index := by
  have front : l.operands.dropWhile isBlank = ('#' :: l.index) ++ l.margin := by
    rw [operands, List.dropWhile_append_of_pos l.space_blank]
    rfl
  rw [trim, trimOf, front, trimEndOf_append_of_all l.margin_blank,
    trimEndOf_of_stay l.isBlank_token]

theorem readOperands_trim : readOperands (trim l.operands) = [classify ('#' :: l.index)] := by
  have noSeparator : ∀ c ∈ '#' :: l.index, isSeparator c = false := by
    intro c member
    have solid := l.isBlank_token c member
    have noComma : c ≠ ',' := by
      rintro rfl
      rcases List.mem_cons.1 member with same | digit
      · exact absurd same (by decide)
      · exact absurd (l.index_digits _ digit) (by decide)
    simp [isSeparator, solid, noComma]
  rw [trim_operands, readOperands, tokens, fields, List.splitOnP_eq_singleton noSeparator]
  rfl

theorem trim_comment : trim (' ' :: l.comment) = l.comment := by
  have front : (' ' :: l.comment).dropWhile isBlank
      = "Strin".toList ++ 'g' :: trimEndOf isBlank (' ' :: l.text) := by
    rw [List.dropWhile_cons_of_pos (by decide)]
    rfl
  rw [trim, trimOf, front, trimEndOf_append (by decide), trimEndOf_trimEndOf]
  rfl

theorem splitComment_rest :
    splitComment l.rest = (trim l.operands, some (String.ofList l.comment)) := by
  have occupied : l.comment.isEmpty = false := rfl
  have free : ¬ ['/', '/'] <:+: l.operands ++ ['/'] := by
    rw [slashes_append l.noSlash_operands]
    decide
  rw [splitComment, rest, cutComment?_append free]
  dsimp only
  rw [trim_comment, occupied, if_neg Bool.false_ne_true]

/-- The instruction of the line. -/
theorem instruction_line (offset : UInt32) :
    InstructionLine.instruction ⟨l.offset, "ldc".toList, l.rest⟩ offset
      = { offset
          opcode := .ldc
          operands := [classify ('#' :: l.index)]
          comment := some (String.ofList l.comment) } := by
  have mnemonic : Opcode.ofMnemonic (String.ofList "ldc".toList) = .ldc := by decide
  rw [InstructionLine.instruction, splitComment_rest]
  dsimp only
  rw [mnemonic, readOperands_trim]

/-! ## Its literal -/

theorem stringConstant?_comment :
    Comment.stringConstant? l.comment = some (.string (String.ofList l.kept)) := by
  have keyword : dropFront? "String".toList l.comment = some (trimEndOf isBlank (' ' :: l.text)) :=
    rfl
  have blank : isBlank ' ' = true := by decide
  have oneLine : '\n' ∉ l.kept := fun member =>
    l.text_line ((List.rdropWhile_prefix isBlank l.text).subset member)
  rw [trimEndOf_cons blank, ← kept] at keyword
  rw [Comment.stringConstant?, keyword]
  by_cases empty : l.kept = []
  · rw [if_pos empty, empty]
  · rw [if_neg empty]
    simp [blank, oneLine]

theorem constant?_comment :
    Comment.constant? (String.ofList l.comment) = some (.string (String.ofList l.kept)) := by
  rw [Comment.constant?, String.toList_ofList, stringConstant?_comment]
  rfl

theorem isReplaceable_token : (classify ('#' :: l.index)).isReplaceable = true := by
  unfold classify
  cases pool : poolToken? ('#' :: l.index) with
  | some operand =>
      obtain ⟨index, rfl⟩ := poolToken?_eq_some pool
      rfl
  | none => rfl

/-- The first pass puts the string in the place of the pool token. -/
theorem operands_normalize (className : String) (offset : UInt32) :
    ((InstructionLine.instruction ⟨l.offset, "ldc".toList, l.rest⟩ offset).normalize
      className).operands = [.constant (.string (String.ofList l.kept))] := by
  have unclassified : (classify ('#' :: l.index)).isConstant = false := by
    have scanned := isScanned_classify ('#' :: l.index)
    cases token : classify ('#' :: l.index) with
    | constant value =>
        rw [token] at scanned
        cases scanned
    | _ => rfl
  rw [instruction_line]
  simp [Instruction.normalize, Opcode.split?, Opcode.family, classifiedOperands, symbolOperands,
    unclassified, isReplaceable_token, constant?_comment]

/-! ## Its place in the class -/

variable {header : Header} {methods : List MethodCode} {m : Pending} {number : Nat} {scan : Scan}

/-- Inside the code of a method the line adds its instruction, or the listing is no class. -/
theorem feed_line (fed : Scan.feed number (trim l.line) (.inside header methods (.code m))
    = .ok scan) :
    ∃ offset, scan = .inside header methods (.code { m with
      latest :=
        InstructionLine.instruction ⟨l.offset, "ldc".toList, l.rest⟩ offset :: m.latest }) := by
  have noMetrics : "stack=".toList.isPrefixOf (trim l.line) = false :=
    l.isPrefixOf_trim_line ⟨'s', rfl, by decide⟩
  rw [Scan.feed, codeLine, endsCode_line, noMetrics, instructionLine?_line] at fed
  obtain ⟨m', added, done⟩ := bind_eq_ok.1 fed
  cases done
  obtain ⟨offset, _, _, rfl⟩ := addInstruction_eq_ok added
  exact ⟨offset, rfl⟩

/-- The instruction of a line that loads a string, at its place in the class as read. -/
theorem instruction_of_parse {text : String} {before after : List (List Char)}
    {c : ClassCode} (cut : lines text.toList = before ++ l.line :: after)
    (inCode : Scan.start.feedLines 1 before = .ok (.inside header methods (.code m)))
    (parsed : parse text = .ok c) :
    ∃ method offset, c.methods[methods.length]? = some method ∧
      method.instructions[m.latest.length]?
        = some (InstructionLine.instruction ⟨l.offset, "ldc".toList, l.rest⟩ offset) := by
  obtain ⟨scan, fed, finished⟩ := bind_eq_ok.1 parsed
  rw [cut, Scan.feedLines_append, inCode] at fed
  obtain ⟨_, same, fed⟩ := bind_eq_ok.1 fed
  cases same
  obtain ⟨scan₁, added, fed⟩ := bind_eq_ok.1 fed
  obtain ⟨offset, rfl⟩ := l.feed_line added
  have there : scan.instruction? methods.length m.latest.length
      = some (InstructionLine.instruction ⟨l.offset, "ldc".toList, l.rest⟩ offset) :=
    Scan.invariant_feedLines Feeds.instruction? (Scan.instruction?_add_last _) fed
  obtain ⟨body, place, found⟩ := Option.bind_eq_some_iff.1 there
  rw [← Scan.bodies_finish finished, List.getElem?_map] at place
  obtain ⟨method, here, rfl⟩ := Option.map_eq_some_iff.1 place
  exact ⟨method, offset, here, found⟩

theorem normalize_instruction {className method : String} {offset : UInt32} {insn : Instruction}
    {code : List Instruction}
    (resolved : ((InstructionLine.instruction ⟨l.offset, "ldc".toList, l.rest⟩ offset).normalize
      className).resolve className method code = .ok insn) :
    insn.opcode = .ldc ∧ insn.operands = [.constant (.string (String.ofList l.kept))] := by
  obtain ⟨opcode, -, mapped⟩ := Instruction.resolve_eq_ok resolved
  constructor
  · rw [opcode, instruction_line]
    rfl
  · rw [operands_normalize] at mapped
    obtain ⟨operand, rest, first, others, done⟩ := mapM_cons_eq_ok.1 mapped
    cases first
    cases others
    exact done

/-- **A string constant arrives without the blanks at its end.** Where the code of a method
has a line that loads a string and the listing is read, the instruction in the place of
that line loads the string without the blanks at its end: the string as it is written
exactly if it does not end in a blank. -/
theorem constant_kept {text : String} {before after : List (List Char)} {c : ClassCode}
    (cut : lines text.toList = before ++ l.line :: after)
    (inCode : Scan.start.feedLines 1 before = .ok (.inside header methods (.code m)))
    (read : readListing text = .ok c) :
    ∃ method insn, c.methods[methods.length]? = some method ∧
      method.instructions[m.latest.length]? = some insn ∧ insn.opcode = .ldc ∧
      insn.operands = [.constant (.string (String.ofList l.kept))] ∧
      (insn.operands = [.constant (.string (String.ofList l.text))] ↔
        ∀ c ∈ l.text.getLast?, isBlank c = false) := by
  obtain ⟨raw, parsed, normal⟩ := bind_eq_ok.1 read
  -- The instruction keeps its place through both passes.
  obtain ⟨method, offset, place, found⟩ := l.instruction_of_parse cut inCode parsed
  obtain ⟨normals, mapped, done⟩ := bind_eq_ok.1 normal
  cases done
  obtain ⟨method', place', normal⟩ := exists_getElem?_of_mapM mapped place
  obtain ⟨code, resolved, done⟩ := bind_eq_ok.1 normal
  cases done
  have found' := congrArg (Option.map (Instruction.normalize (canonicalName raw.name))) found
  rw [← List.getElem?_map] at found'
  obtain ⟨insn, found'', resolved⟩ := exists_getElem?_of_mapM resolved found'
  obtain ⟨opcode, operands⟩ := l.normalize_instruction resolved
  refine ⟨_, insn, place', found'', opcode, operands, ?_⟩
  rw [operands, ← trimEndOf_eq_self_iff]
  constructor
  · intro same
    have texts : String.ofList l.kept = String.ofList l.text := by simpa using same
    exact String.ofList_injective texts
  · intro same
    rw [kept, same]

end StringLoad

/-- A string with blanks at both ends, a comma, quotes and slashes. -/
def paddedLoad : StringLoad where
  indent := "    ".toList
  offset := "0".toList
  gap := " ".toList
  space := "  ".toList
  index := "7".toList
  margin := "  ".toList
  text := "  \"a\", // b ".toList
  indent_blank := List.all_eq_true.1 (by decide)
  offset_digits := List.all_eq_true.1 (by decide)
  offset_ne := by decide
  gap_blank := List.all_eq_true.1 (by decide)
  gap_ne := by decide
  space_blank := List.all_eq_true.1 (by decide)
  space_ne := by decide
  index_digits := List.all_eq_true.1 (by decide)
  margin_blank := List.all_eq_true.1 (by decide)
  text_line := by decide

/-- The lines of a method up to its code. -/
def paddedFront : List (List Char) :=
  ["class A \x7b".toList, "  java.lang.String f();".toList, "  descriptor: ()I".toList,
    "  Code:".toList]

/-- A method whose code is one string constant. -/
def paddedListing : String :=
  "class A \x7b\n  java.lang.String f();\n  descriptor: ()I\n  Code:\n"
    ++ "    0: ldc  #7  // String   \"a\", // b \n\x7d"

/-- What has been read before the code. -/
def paddedPending : Pending where
  name := "f"
  line := 2
  descriptor := some "()I"

/-- The class of the listing. -/
def paddedClass : ClassCode where
  name := "A"
  superName := "java/lang/Object"
  methods :=
    [{ name := "f"
       descriptor := "()I"
       flags := .empty
       maxStack := 0
       maxLocals := 0
       argsSize := 0
       instructions :=
        [⟨0, .ldc, [.constant (.string "  \"a\", // b")], some "String   \"a\", // b"⟩] }]

theorem padded_lines :
    lines paddedListing.toList = paddedFront ++ paddedLoad.line :: ["\x7d".toList] := by
  decide +kernel

theorem padded_inCode : Scan.start.feedLines 1 paddedFront
    = .ok (.inside ⟨"A", "java/lang/Object"⟩ [] (.code paddedPending)) :=
  eq_ok_of_toOption (by decide +kernel)

theorem padded_read : readListing paddedListing = .ok paddedClass :=
  eq_ok_of_toOption (by decide +kernel)

theorem padded_constant_kept :
    lines paddedListing.toList = paddedFront ++ paddedLoad.line :: ["\x7d".toList] ∧
      readListing paddedListing = .ok paddedClass ∧
      ∃ method insn, paddedClass.methods[0]? = some method ∧
        method.instructions[0]? = some insn ∧
        insn.operands = [.constant (.string "  \"a\", // b")] := by
  obtain ⟨method, insn, place, found, -, operands, -⟩ :=
    paddedLoad.constant_kept padded_lines padded_inCode padded_read
  exact ⟨padded_lines, padded_read, method, insn, place, found, operands⟩

/-- A string constant does not arrive as it is written if it ends in a blank. -/
theorem padded_constant_not_verbatim :
    ¬ ∀ (l : StringLoad) (text : String) (before after : List (List Char)) (header : Header)
      (methods : List MethodCode) (m : Pending) (c : ClassCode),
      lines text.toList = before ++ l.line :: after →
      Scan.start.feedLines 1 before = .ok (.inside header methods (.code m)) →
      readListing text = .ok c →
      ∃ method insn, c.methods[methods.length]? = some method ∧
        method.instructions[m.latest.length]? = some insn ∧
        insn.operands = [.constant (.string (String.ofList l.text))] := by
  intro verbatim
  obtain ⟨method, insn, place, found, operands⟩ :=
    verbatim _ _ _ _ _ _ _ _ padded_lines padded_inCode padded_read
  cases place
  cases found
  exact absurd operands (by decide)

end ClassMachine.Listing
