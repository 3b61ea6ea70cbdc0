import ClassMachine.Proofs.Metrics
import ClassMachine.Proofs.WellFormed

/-!
# The lines of a method, laid out

Flag lines, metric lines and instruction lines in the documented layout, and what is read
from them. A layout is a structure that holds the parts of a line along with what the
format asks of them, so every layout is a line of that kind. Numbers may have zeros in
front, and blanks may stand wherever the format has one.

* `readFlags_line`, `readMetrics_line`: the flags and the numbers as they were laid out.
* `InstructionLayout.instructionLine?_line`, `InstructionLayout.instruction_line`: the
  offset, the opcode, the operand of every token and the comment.
-/

namespace ClassMachine

open Text

/-! ## Words -/

namespace Text

variable {cs xs ys word : List Char} {words : List (List Char)} {c : Char}

theorem isSeparator_of_isBlank (blank : isBlank c = true) : isSeparator c = true := by
  rw [isSeparator, blank, Bool.or_true]

theorem tokens_append (separates : isSeparator c = true) (xs ys : List Char) :
    tokens (xs ++ c :: ys) = tokens xs ++ tokens ys := by
  rw [tokens, fields, List.splitOnP_append_cons _ _ separates, List.filter_append]
  rfl

theorem tokens_nil : tokens [] = [] :=
  rfl

theorem tokens_cons (separates : isSeparator c = true) (ys : List Char) :
    tokens (c :: ys) = tokens ys :=
  tokens_append separates [] ys

theorem tokens_word (occupied : word ≠ []) (whole : ∀ c ∈ word, isSeparator c = false) :
    tokens word = [word] := by
  rw [tokens, fields, List.splitOnP_eq_singleton whole]
  simp [occupied]

/-- Separators at the front of a text make no token. -/
theorem tokens_append_left (separate : ∀ c ∈ xs, isSeparator c = true) (ys : List Char) :
    tokens (xs ++ ys) = tokens ys := by
  induction xs with
  | nil => rfl
  | cons c xs ih =>
      obtain ⟨first, rest⟩ := List.forall_mem_cons.1 separate
      rw [List.cons_append, tokens_cons first, ih rest]

/-- Nor do those at its end. -/
theorem tokens_append_right (separate : ∀ c ∈ ys, isSeparator c = true) (xs : List Char) :
    tokens (xs ++ ys) = tokens xs := by
  cases ys with
  | nil => rw [List.append_nil]
  | cons c ys =>
      obtain ⟨first, rest⟩ := List.forall_mem_cons.1 separate
      have none := tokens_append_left rest []
      rw [List.append_nil] at none
      rw [tokens_append first, none, tokens_nil, List.append_nil]

theorem tokens_trim (cs : List Char) : tokens (trim cs) = tokens cs := by
  have front : ∀ c ∈ cs.takeWhile isBlank, isSeparator c = true := fun c member =>
    isSeparator_of_isBlank (List.mem_takeWhile_imp member)
  have back : ∀ c ∈ (cs.dropWhile isBlank).rtakeWhile isBlank, isSeparator c = true :=
    fun c member => isSeparator_of_isBlank (List.mem_rtakeWhile_imp member)
  calc tokens (trim cs)
      = tokens ((cs.dropWhile isBlank).rdropWhile isBlank) := rfl
    _ = tokens (cs.dropWhile isBlank) := by
      rw [← tokens_append_right back, List.rdropWhile_append_rtakeWhile]
    _ = tokens cs := by
      rw [← tokens_append_left front, List.takeWhile_append_dropWhile]

/-- Words behind some blanks, with commas between them. -/
def listed (gap : List Char) (words : List (List Char)) : List Char :=
  if words = [] then [] else gap ++ ", ".toList.intercalate words

theorem tokens_intercalate (occupied : ∀ word ∈ words, word ≠ [])
    (whole : ∀ word ∈ words, ∀ c ∈ word, isSeparator c = false) :
    tokens (", ".toList.intercalate words) = words := by
  induction words with
  | nil => rfl
  | cons word words ih =>
      have first : tokens word = [word] :=
        tokens_word (occupied _ List.mem_cons_self) (whole _ List.mem_cons_self)
      cases words with
      | nil => rw [List.intercalate_singleton, first]
      | cons next words =>
          have rest := ih (fun word member => occupied word (List.mem_cons_of_mem _ member))
            fun word member => whole word (List.mem_cons_of_mem _ member)
          have cut : ", ".toList.intercalate (word :: next :: words)
              = word ++ ',' :: ' ' :: ", ".toList.intercalate (next :: words) := by
            rw [List.intercalate_cons_cons, List.append_assoc]
            rfl
          rw [cut, tokens_append (by decide), tokens_cons (by decide), first, rest]
          rfl

theorem tokens_listed {gap : List Char} (blank : ∀ c ∈ gap, isBlank c = true)
    (occupied : ∀ word ∈ words, word ≠ [])
    (whole : ∀ word ∈ words, ∀ c ∈ word, isSeparator c = false) :
    tokens (listed gap words) = words := by
  unfold listed
  split
  · rename_i none
    rw [none, tokens_nil]
  · rw [tokens_append_left fun c member => isSeparator_of_isBlank (blank c member)]
    exact tokens_intercalate occupied whole

/-- A word may stand in front of the list. -/
theorem tokens_append_listed (occupied : word ≠ []) (whole : ∀ c ∈ word, isSeparator c = false)
    (allOccupied : ∀ word ∈ words, word ≠ [])
    (allWhole : ∀ word ∈ words, ∀ c ∈ word, isSeparator c = false) :
    tokens (word ++ listed [' '] words) = word :: words := by
  unfold listed
  split
  · rename_i none
    rw [none, List.append_nil, tokens_word occupied whole]
  · rw [List.singleton_append, tokens_append (by decide), tokens_word occupied whole,
      tokens_intercalate allOccupied allWhole]
    rfl

/-! ## Classes of characters -/

/-- What no blank is. -/
theorem isBlank_eq_false {holds : Bool} (never : isBlank c = true → holds = false)
    (holds' : holds = true) : isBlank c = false := by
  cases blank : isBlank c with
  | false => rfl
  | true =>
      rw [never blank] at holds'
      cases holds'

theorem isBlank_of_isDigit (digit : c.isDigit = true) : isBlank c = false :=
  isBlank_eq_false isDigit_of_isBlank digit

theorem isDecimalDigit_of_isDigit (digit : c.isDigit = true) : isDecimalDigit c = true := by
  have each : ∀ n ∈ List.range' 48 10, isDecimalDigit (Char.ofNat n) = true := by decide
  have code : c.toNat ∈ List.range' 48 10 := by
    rw [Char.isDigit, Bool.and_eq_true, decide_eq_true_iff, decide_eq_true_iff] at digit
    rw [List.mem_range'_1]
    have least : '0'.val.toNat ≤ c.val.toNat := UInt32.le_iff_toNat_le.1 digit.1
    have greatest : c.val.toNat ≤ '9'.val.toNat := UInt32.le_iff_toNat_le.1 digit.2
    change 48 ≤ c.val.toNat ∧ c.val.toNat < 48 + 10
    change 48 ≤ c.val.toNat at least
    change c.val.toNat ≤ 57 at greatest
    omega
  have digit' := each c.toNat code
  rwa [Char.ofNat_toNat] at digit'

/-! ## Numbers -/

theorem le_ofDigitChars (cs : List Char) (acc : Nat) : acc ≤ Nat.ofDigitChars 10 cs acc := by
  induction cs generalizing acc with
  | nil => exact Nat.le_refl acc
  | cons c cs ih =>
      have rest := ih (10 * acc + (c.toNat - '0'.toNat))
      rw [Nat.ofDigitChars_cons]
      omega

/-- Digits are read up to the end, unless their number leaves the range. -/
theorem Range.readDigits_digits {range : Range} (least : range.least ≤ 0)
    (digits : ∀ c ∈ cs, c.isDigit = true) (acc : Nat)
    (fits : Nat.ofDigitChars 10 cs acc ≤ range.greatest) :
    range.readDigits 1 acc cs = .ok (Nat.ofDigitChars 10 cs acc : Nat) := by
  induction cs generalizing acc with
  | nil => rfl
  | cons c cs ih =>
      obtain ⟨digit, digits⟩ := List.forall_mem_cons.1 digits
      have next : (acc : Int) * 10 + 1 * (c.toNat - '0'.toNat : Nat)
          = (10 * acc + (c.toNat - '0'.toNat) : Nat) := by
        push_cast
        omega
      have grows := le_ofDigitChars cs (10 * acc + (c.toNat - '0'.toNat))
      rw [Nat.ofDigitChars_cons] at fits
      have notLarge : ¬ range.greatest < (10 * acc + (c.toNat - '0'.toNat) : Nat) := by omega
      have notSmall : ¬ ((10 * acc + (c.toNat - '0'.toNat) : Nat) : Int) < range.least := by omega
      rw [readDigits, decimalDigit?, if_pos digit]
      dsimp only
      rw [next, if_neg notLarge, if_neg notSmall, ih digits _ fits, Nat.ofDigitChars_cons]

/-- Decimal digits of a number below a bound. -/
structure Numeral (bound : Nat) where
  digits : List Char
  digits_ne : digits ≠ []
  isDigit : ∀ c ∈ digits, c.isDigit = true
  lt : Nat.ofDigitChars 10 digits 0 < bound

namespace Numeral

variable {bound : Nat} (n : Numeral bound)

def value : Nat :=
  Nat.ofDigitChars 10 n.digits 0

theorem value_lt : n.value < bound :=
  n.lt

theorem exists_digit : ∃ d digits, n.digits = d :: digits ∧ d.isDigit = true := by
  rcases whole : n.digits with _ | ⟨d, digits⟩
  · exact (n.digits_ne whole).elim
  · exact ⟨d, digits, rfl, n.isDigit d (whole ▸ List.mem_cons_self)⟩

theorem read?_digits {range : Range} (least : range.least ≤ 0)
    (greatest : range.greatest + 1 = bound) : range.read? n.digits = some (n.value : Int) := by
  obtain ⟨d, digits, whole, digit⟩ := n.exists_digit
  have fits : (Nat.ofDigitChars 10 n.digits 0 : Int) ≤ range.greatest := by
    have lt := n.lt
    omega
  have noPlus : d ≠ '+' := by
    rintro rfl
    cases digit
  have noMinus : d ≠ '-' := by
    rintro rfl
    cases digit
  have read : range.read n.digits = range.readDigits 1 (0 : Nat) n.digits := by
    rw [whole]
    unfold Range.read
    split <;> simp_all
  rw [Range.read?, read, Range.readDigits_digits least n.isDigit 0 fits]
  rfl

end Numeral

/-- At least one blank. -/
structure Gap where
  blanks : List Char
  blanks_ne : blanks ≠ []
  all_blank : ∀ c ∈ blanks, isBlank c = true

theorem Gap.exists_blank (gap : Gap) :
    ∃ b blanks, gap.blanks = b :: blanks ∧ isBlank b = true := by
  rcases whole : gap.blanks with _ | ⟨b, blanks⟩
  · exact (gap.blanks_ne whole).elim
  · exact ⟨b, blanks, rfl, gap.all_blank b (whole ▸ List.mem_cons_self)⟩

/-! ## What ends in a blank -/

variable {q : Char → Bool}

/-- Text keeps its end if its last part does. -/
theorem trimEndOf_append_eq_self (front : ys = [] → trimEndOf q xs = xs)
    (behind : trimEndOf q ys = ys) : trimEndOf q (xs ++ ys) = xs ++ ys := by
  rw [trimEndOf_eq_self_iff] at behind ⊢
  intro c ends
  cases last : ys.getLast? with
  | some d =>
      rw [List.getLast?_append, last] at ends
      exact behind c (last.trans ends)
  | none =>
      have empty : ys = [] := List.getLast?_eq_none_iff.1 last
      rw [empty, List.append_nil] at ends
      exact trimEndOf_eq_self_iff.1 (front empty) c ends

theorem trim_eq_self (front : ∀ c ∈ cs.head?, isBlank c = false)
    (behind : trimEndOf isBlank cs = cs) : trim cs = cs :=
  trimOf_eq_self front (trimEndOf_eq_self_iff.1 behind)

theorem trim_cons (blank : isBlank c = true) (cs : List Char) : trim (c :: cs) = trim cs := by
  rw [trim, trimOf, List.dropWhile_cons_of_pos blank]
  rfl

theorem trimEndOf_of_trim (trimmed : trim cs = cs) : trimEndOf isBlank cs = cs := by
  rw [trimEndOf_eq_self_iff]
  intro c last
  rw [← trimmed] at last
  exact stays_getLast?_trimOf isBlank cs c last

theorem intercalate_ne_nil (occupied : ∀ word ∈ words, word ≠ []) (some : words ≠ []) :
    ", ".toList.intercalate words ≠ [] := by
  obtain ⟨word, words, rfl⟩ := List.exists_cons_of_ne_nil some
  have first := occupied word List.mem_cons_self
  cases words with
  | nil => rwa [List.intercalate_singleton]
  | cons next words =>
      rw [List.intercalate_cons_cons]
      simp [first]

theorem trimEndOf_intercalate (occupied : ∀ word ∈ words, word ≠ [])
    (solid : ∀ word ∈ words, ∀ c ∈ word, isBlank c = false) :
    trimEndOf isBlank (", ".toList.intercalate words) = ", ".toList.intercalate words := by
  induction words with
  | nil => rfl
  | cons word words ih =>
      have first : trimEndOf isBlank word = word :=
        trimEndOf_of_stay (solid word List.mem_cons_self)
      have others : ∀ word ∈ words, word ≠ [] := fun word member =>
        occupied word (List.mem_cons_of_mem _ member)
      cases words with
      | nil => rw [List.intercalate_singleton, first]
      | cons next words =>
          rw [List.intercalate_cons_cons]
          refine trimEndOf_append_eq_self (fun none => ?_) (ih others fun word member =>
            solid word (List.mem_cons_of_mem _ member))
          exact (intercalate_ne_nil others (List.cons_ne_nil _ _) none).elim

theorem trimEndOf_listed (gap : List Char) (occupied : ∀ word ∈ words, word ≠ [])
    (solid : ∀ word ∈ words, ∀ c ∈ word, isBlank c = false) :
    trimEndOf isBlank (listed gap words) = listed gap words := by
  unfold listed
  split
  · rfl
  · rename_i some
    refine trimEndOf_append_eq_self (fun none => ?_) (trimEndOf_intercalate occupied solid)
    exact (intercalate_ne_nil occupied some none).elim

end Text

namespace Listing

variable {cs xs ys behind word : List Char} {c d : Char}

/-! ## Comments -/

theorem slashes_cons (other : c ≠ '/') (cs : List Char) :
    ['/', '/'] <:+: c :: cs ↔ ['/', '/'] <:+: cs := by
  rw [List.infix_cons_iff, List.cons_prefix_cons]
  simp [Ne.symm other]

/-- Two slashes stand on one side of every other character. -/
theorem slashes_append_cons (other : c ≠ '/') (xs ys : List Char) :
    ['/', '/'] <:+: xs ++ c :: ys ↔ ['/', '/'] <:+: xs ∨ ['/', '/'] <:+: ys := by
  induction xs with
  | nil =>
      rw [List.nil_append, slashes_cons other]
      simp
  | cons a xs ih =>
      have first : ['/', '/'] <+: a :: (xs ++ c :: ys) ↔ ['/', '/'] <+: a :: xs := by
        cases xs with
        | nil => simp [List.cons_prefix_cons, Ne.symm other]
        | cons b xs => simp [List.cons_prefix_cons]
      have here : ['/', '/'] <:+: a :: xs ↔ ['/', '/'] <+: a :: xs ∨ ['/', '/'] <:+: xs :=
        List.infix_cons_iff
      rw [List.cons_append, List.infix_cons_iff, ih, first, here, or_assoc]

theorem slashes_append (other : '/' ∉ xs) (ys : List Char) :
    ['/', '/'] <:+: xs ++ ys ↔ ['/', '/'] <:+: ys := by
  induction xs with
  | nil => rfl
  | cons c xs ih =>
      obtain ⟨first, rest⟩ := not_or.1 (mt List.mem_cons.2 other)
      rw [List.cons_append, slashes_cons (Ne.symm first), ih rest]

/-- Where no two slashes are, no comment starts. -/
theorem cutComment?_of_free (free : ¬ ['/', '/'] <:+: cs) : cutComment? cs = none := by
  cases cut : cutComment? cs with
  | none => rfl
  | some parts =>
      obtain ⟨whole, _⟩ := cutComment?_eq_some cut
      exact (free ⟨parts.1, parts.2, by simp [whole]⟩).elim

/-- A comment starts at two slashes if none stand further in front. -/
theorem cutComment?_append (free : ¬ ['/', '/'] <:+: xs ++ ['/']) (ys : List Char) :
    cutComment? (xs ++ '/' :: '/' :: ys) = some (xs, ys) := by
  induction xs with
  | nil => rfl
  | cons a xs ih =>
      have rest := ih fun slashes => free (List.infix_cons slashes)
      have single : ∀ cs, a = '/' → xs ++ '/' :: '/' :: ys = '/' :: cs → False := by
        intro cs slash next
        apply free
        cases xs with
        | nil => exact ⟨[], [], by simp [slash]⟩
        | cons b xs =>
            cases next
            exact ⟨[], xs ++ ['/'], by simp [slash]⟩
      rw [List.cons_append, cutComment?, rest]
      · rfl
      · exact single

/-! ## The front of a line -/

/-- A line that starts with a digit starts with no word. -/
theorem isPrefixOf_of_digit (digit : isDecimalDigit d = true)
    (leads : ∃ c ∈ word.head?, isDecimalDigit c = false) :
    word.isPrefixOf (d :: behind) = false := by
  obtain ⟨c, first, letter⟩ := leads
  cases word with
  | nil => cases first
  | cons c' word =>
      cases first
      have differ : c ≠ d := by
        rintro rfl
        rw [letter] at digit
        cases digit
      rw [List.isPrefixOf_cons_cons, beq_false_of_ne differ, Bool.false_and]

/-- The code goes on where a line starts as no section header does. -/
theorem endsCode_of_head (other : ∀ header ∈ sectionHeaders, header.head? ≠ some d) :
    endsCode (d :: behind) = false := by
  have occupied : [] ∉ sectionHeaders := by decide
  rw [endsCode, List.isEmpty_cons, Bool.false_or, List.any_eq_false]
  intro header member starts
  obtain ⟨rest, whole⟩ := List.isPrefixOf_iff_prefix.1 starts
  cases header with
  | nil => exact occupied member
  | cons c header =>
      obtain ⟨rfl, _⟩ := List.cons.inj whole
      exact other _ member rfl

theorem endsCode_of_digit (digit : isDecimalDigit d = true) : endsCode (d :: behind) = false := by
  have letters : ∀ header ∈ sectionHeaders, header.head?.any isDecimalDigit = false := by decide
  apply endsCode_of_head
  intro header member first
  have letter := letters header member
  rw [first] at letter
  exact Bool.false_ne_true (letter.symm.trans digit)

/-! ## Instructions -/

/-- Letters, digits and the underscore belong to a mnemonic. -/
theorem isMnemonicChar_of_word (inside : c.isAlphanum = true ∨ c = '_') :
    isMnemonicChar c = true := by
  rcases inside with inside | rfl
  · rcases Bool.or_eq_true_iff.1 inside with letter | digit
    · simp [isMnemonicChar, isMnemonicLetter, letter]
    · simp [isMnemonicChar, digit]
  · decide

theorem isBlank_of_word (inside : c.isAlphanum = true ∨ c = '_') : isBlank c = false :=
  isBlank_eq_false isMnemonicChar_of_isBlank (isMnemonicChar_of_word inside)

/-- The parts of an instruction line. -/
structure InstructionLayout where
  offset : Numeral UInt32.size
  /-- What stands between the colon and the mnemonic. -/
  gap : Gap
  mnemonic : List Char
  /-- What stands in front of the operands. -/
  space : Gap
  words : List (List Char)
  /-- What stands in front of the comment. -/
  margin : Gap
  comment : Option (List Char)
  mnemonic_head : ∃ c ∈ mnemonic.head?, c.isAlpha = true
  mnemonic_chars : ∀ c ∈ mnemonic, c.isAlphanum = true ∨ c = '_'
  isToken : ∀ word ∈ words, IsToken word
  comment_ne : ∀ text ∈ comment, text ≠ []
  comment_trimmed : ∀ text ∈ comment, trim text = text

namespace InstructionLayout

variable (l : InstructionLayout)

/-- The operands, with the blanks in front of them. -/
def operands : List Char :=
  listed l.space.blanks l.words

/-- The comment, with its slashes and the blanks in front of them. -/
def remark : List Char :=
  match l.comment with
  | none => []
  | some text => l.margin.blanks ++ '/' :: '/' :: ' ' :: text

/-- The whole line: an offset, a mnemonic, operands with commas between them and a comment. -/
def line : List Char :=
  l.offset.digits ++ ':' :: (l.gap.blanks ++ (l.mnemonic ++ (l.operands ++ l.remark)))

/-- The instruction on the line. -/
def instruction : Instruction where
  offset := UInt32.ofNat l.offset.value
  opcode := Opcode.ofMnemonic (String.ofList l.mnemonic)
  operands := l.words.map classify
  comment := l.comment.map String.ofList

theorem word_solid : ∀ word ∈ l.words, ∀ c ∈ word, isBlank c = false :=
  fun word member c inside => ((l.isToken word member).plain c inside).2

theorem word_ne : ∀ word ∈ l.words, word ≠ [] :=
  fun word member => (l.isToken word member).nonempty

theorem word_whole : ∀ word ∈ l.words, ∀ c ∈ word, isSeparator c = false := by
  intro word member c inside
  obtain ⟨noComma, solid⟩ := (l.isToken word member).plain c inside
  simp [isSeparator, noComma, solid]

/-- Behind the mnemonic the line ends or has a blank. -/
theorem isBlank_rest : ∀ c ∈ (l.operands ++ l.remark).head?, isBlank c = true := by
  obtain ⟨b, blanks, space, blank⟩ := l.space.exists_blank
  obtain ⟨b', blanks', margin, blank'⟩ := l.margin.exists_blank
  intro c first
  unfold operands remark listed at first
  split at first
  · split at first
    · cases first
    · rw [margin] at first
      cases first
      exact blank'
  · rw [space] at first
    cases first
    exact blank

theorem trimEndOf_remark : trimEndOf isBlank l.remark = l.remark := by
  unfold remark
  split
  · rfl
  · rename_i text there
    have occupied := l.comment_ne text there
    have kept := trimEndOf_of_trim (l.comment_trimmed text there)
    have whole : l.margin.blanks ++ '/' :: '/' :: ' ' :: text
        = (l.margin.blanks ++ ['/', '/', ' ']) ++ text := by simp
    rw [whole]
    exact trimEndOf_append_eq_self (fun none => (occupied none).elim) kept

/-- No blanks stand around the line. -/
theorem trim_line : trim l.line = l.line := by
  obtain ⟨d, digits, whole, digit⟩ := l.offset.exists_digit
  obtain ⟨a, leads, letter⟩ := l.mnemonic_head
  have solid : trimEndOf isBlank l.mnemonic = l.mnemonic :=
    trimEndOf_of_stay fun c member => isBlank_of_word (l.mnemonic_chars c member)
  have rest : trimEndOf isBlank (l.operands ++ l.remark) = l.operands ++ l.remark :=
    trimEndOf_append_eq_self (fun _ => trimEndOf_listed _ l.word_ne l.word_solid)
      l.trimEndOf_remark
  have named : l.mnemonic ++ (l.operands ++ l.remark) ≠ [] := by
    intro none
    rw [(List.append_eq_nil_iff.1 none).1] at leads
    cases leads
  have behind : trimEndOf isBlank (l.mnemonic ++ (l.operands ++ l.remark))
      = l.mnemonic ++ (l.operands ++ l.remark) :=
    trimEndOf_append_eq_self (fun _ => solid) rest
  apply trim_eq_self
  · intro c first
    rw [line, whole] at first
    cases first
    exact isBlank_of_isDigit digit
  · have whole : l.line = (l.offset.digits ++ ':' :: l.gap.blanks)
        ++ (l.mnemonic ++ (l.operands ++ l.remark)) := by simp [line]
    rw [whole]
    exact trimEndOf_append_eq_self (fun none => (named none).elim) behind

theorem endsCode_line : endsCode l.line = false := by
  obtain ⟨d, digits, whole, digit⟩ := l.offset.exists_digit
  rw [line, whole]
  exact endsCode_of_digit (isDecimalDigit_of_isDigit digit)

theorem noMetrics_line : "stack=".toList.isPrefixOf l.line = false := by
  obtain ⟨d, digits, whole, digit⟩ := l.offset.exists_digit
  rw [line, whole]
  exact isPrefixOf_of_digit (isDecimalDigit_of_isDigit digit) ⟨'s', rfl, by decide⟩

theorem instructionLine?_line :
    instructionLine? l.line
      = some ⟨l.offset.digits, l.mnemonic, l.operands ++ l.remark⟩ := by
  obtain ⟨a, leads, letter⟩ := l.mnemonic_head
  have afterOffset : l.line.span isDecimalDigit
      = (l.offset.digits, ':' :: (l.gap.blanks ++ (l.mnemonic ++ (l.operands ++ l.remark)))) :=
    span_append_cons (fun c member => isDecimalDigit_of_isDigit (l.offset.isDigit c member))
      (by decide)
  have afterGap : (l.gap.blanks ++ (l.mnemonic ++ (l.operands ++ l.remark))).span isBlank
      = (l.gap.blanks, l.mnemonic ++ (l.operands ++ l.remark)) := by
    refine span_append l.gap.all_blank fun c first => ?_
    rw [List.head?_append, Option.mem_def.1 leads] at first
    cases first
    exact isBlank_of_word (l.mnemonic_chars a (List.mem_of_mem_head? leads))
  have afterMnemonic : (l.mnemonic ++ (l.operands ++ l.remark)).span isMnemonicChar
      = (l.mnemonic, l.operands ++ l.remark) := by
    refine span_append (fun c member => isMnemonicChar_of_word (l.mnemonic_chars c member)) ?_
    intro c first
    exact isMnemonicChar_of_isBlank (l.isBlank_rest c first)
  have complete : (l.offset.digits.isEmpty || l.gap.blanks.isEmpty
      || !(l.mnemonic.head?.any isMnemonicLetter)) = false := by
    have capital : isMnemonicLetter a = true := by
      rw [isMnemonicLetter, letter]
      rfl
    rw [Option.mem_def.1 leads]
    simp [l.offset.digits_ne, l.gap.blanks_ne, capital]
  simp only [instructionLine?, afterOffset, afterGap, afterMnemonic, complete]
  exact if_neg Bool.false_ne_true

/-! ## Its operands and its comment -/

theorem noSlash_blanks (gap : Gap) : '/' ∉ gap.blanks :=
  fun member => ne_slash_of_isBlank (gap.all_blank _ member) rfl

theorem free_intercalate {tokens : List (List Char)} (isToken : ∀ token ∈ tokens, IsToken token) :
    ¬ ['/', '/'] <:+: ", ".toList.intercalate tokens := by
  induction tokens with
  | nil => simp
  | cons token tokens ih =>
      have first := (isToken token List.mem_cons_self).uncommented
      have rest := ih fun token member => isToken token (List.mem_cons_of_mem _ member)
      cases tokens with
      | nil => rwa [List.intercalate_singleton]
      | cons next tokens =>
          have cut : ", ".toList.intercalate (token :: next :: tokens)
              = token ++ ',' :: ' ' :: ", ".toList.intercalate (next :: tokens) := by
            rw [List.intercalate_cons_cons, List.append_assoc]
            rfl
          rw [cut, slashes_append_cons (by decide), slashes_cons (by decide)]
          exact not_or.2 ⟨first, rest⟩

theorem free_operands : ¬ ['/', '/'] <:+: l.operands := by
  unfold operands listed
  split
  · simp
  · rw [slashes_append (noSlash_blanks l.space)]
    exact free_intercalate l.isToken

/-- The text of the operands, and the comment, as they are divided. -/
theorem splitComment_rest :
    ∃ before, splitComment (l.operands ++ l.remark)
        = (trim before, l.comment.map String.ofList)
      ∧ tokens before = l.words := by
  have words : tokens l.operands = l.words :=
    tokens_listed l.space.all_blank l.word_ne l.word_whole
  unfold remark
  cases written : l.comment with
  | none =>
      refine ⟨l.operands, ?_, words⟩
      dsimp only
      rw [List.append_nil, splitComment, cutComment?_of_free l.free_operands]
      rfl
  | some text =>
      obtain ⟨b, blanks, margin, blank⟩ := l.margin.exists_blank
      -- A blank stands before the comment, so its first slash ends no other pair.
      have noSlash : '/' ∉ blanks := fun member =>
        noSlash_blanks l.margin (margin ▸ List.mem_cons_of_mem _ member)
      have single : ¬ ['/', '/'] <:+: ['/'] := by decide
      have free : ¬ ['/', '/'] <:+: (l.operands ++ l.margin.blanks) ++ ['/'] := by
        rw [List.append_assoc, margin, List.cons_append,
          slashes_append_cons (ne_slash_of_isBlank blank), slashes_append noSlash]
        exact not_or.2 ⟨l.free_operands, single⟩
      have occupied := l.comment_ne text written
      have trimmed : trim (' ' :: text) = text :=
        (trim_cons (by decide) text).trans (l.comment_trimmed text written)
      refine ⟨l.operands ++ l.margin.blanks, ?_, ?_⟩
      · dsimp only
        rw [← List.append_assoc, splitComment, cutComment?_append free]
        dsimp only
        rw [trimmed]
        simp [occupied]
      · rw [tokens_append_right (fun c member =>
          isSeparator_of_isBlank (l.margin.all_blank c member)), words]

/-- The instruction of the line is the one laid out. -/
theorem instruction_line :
    InstructionLine.instruction ⟨l.offset.digits, l.mnemonic, l.operands ++ l.remark⟩
      (UInt32.ofNat l.offset.value) = l.instruction := by
  obtain ⟨before, divided, words⟩ := l.splitComment_rest
  rw [InstructionLine.instruction, divided]
  dsimp only
  rw [readOperands, tokens_trim, words]
  rfl

theorem offset?_line :
    InstructionLine.offset? ⟨l.offset.digits, l.mnemonic, l.operands ++ l.remark⟩
      = some (UInt32.ofNat l.offset.value) := by
  rw [InstructionLine.offset?, l.offset.read?_digits (by decide) (by decide)]
  rfl

end InstructionLayout

/-! ## Flags -/

/-- The line of some flags, with the mask that they make up. -/
def flagsLine (mask : List Char) (flags : List Flag) : List Char :=
  "flags: (0x".toList ++ (mask ++ ')' :: listed [' '] (flags.map (·.token.toList)))

/-- Empty fields are no flags, so only tokens count. -/
theorem readFlags_eq (cs : List Char) :
    readFlags cs = .ofList ((tokens cs).filterMap fun token =>
      Flag.ofToken? (String.ofList (trimOf isParenthesis token))) := by
  have none : Flag.ofToken? (String.ofList (trimOf isParenthesis [])) = none := by decide
  rw [readFlags, tokens, List.filterMap_filter]
  congr 2
  funext field
  cases field with
  | nil => exact none
  | cons c field => rfl

theorem ofToken?_token (flag : Flag) :
    Flag.ofToken? (String.ofList (trimOf isParenthesis flag.token.toList)) = some flag := by
  cases flag <;> decide

theorem filterMap_ofToken? (flags : List Flag) :
    (flags.map (·.token.toList)).filterMap (fun token =>
      Flag.ofToken? (String.ofList (trimOf isParenthesis token))) = flags := by
  induction flags with
  | nil => rfl
  | cons flag flags ih => rw [List.map_cons, List.filterMap_cons, ofToken?_token, ih]

/-- No flag starts with a digit. -/
theorem ofToken?_mask (mask : List Char) :
    Flag.ofToken? (String.ofList (trimOf isParenthesis ("(0x".toList ++ (mask ++ [')'])))) = none := by
  have letters : ∀ flag ∈ Flag.all, flag.token.toList.head? = some 'A' := by decide
  have cut : trimOf isParenthesis ("(0x".toList ++ (mask ++ [')']))
      = '0' :: trimEndOf isParenthesis ('x' :: (mask ++ [')'])) :=
    trimEndOf_append (by decide) [] _
  rw [cut, Flag.ofToken?, List.find?_eq_none]
  intro flag member same
  have first := letters flag member
  rw [beq_iff_eq.1 same, String.toList_ofList] at first
  cases first

theorem token_word (flag : Flag) :
    flag.token.toList ≠ [] ∧ ∀ c ∈ flag.token.toList, isSeparator c = false := by
  cases flag <;> decide

theorem readFlags_line {mask : List Char} (whole : ∀ c ∈ mask, isSeparator c = false)
    (flags : List Flag) :
    ∃ text, dropFront? "flags:".toList (flagsLine mask flags) = some text
      ∧ readFlags text = .ofList flags := by
  have maskWhole : ∀ c ∈ "(0x".toList ++ (mask ++ [')']), isSeparator c = false := by
    intro c member
    rcases List.mem_append.1 member with front | member
    · exact (by decide : ∀ c ∈ "(0x".toList, isSeparator c = false) c front
    · rcases List.mem_append.1 member with inside | behind
      · exact whole c inside
      · cases List.mem_singleton.1 behind
        decide
  have words : tokens ("(0x".toList ++ (mask ++ ')' :: listed [' '] (flags.map (·.token.toList))))
      = ("(0x".toList ++ (mask ++ [')'])) :: flags.map (·.token.toList) := by
    have cut : "(0x".toList ++ (mask ++ ')' :: listed [' '] (flags.map (·.token.toList)))
        = ("(0x".toList ++ (mask ++ [')'])) ++ listed [' '] (flags.map (·.token.toList)) := by
      simp
    rw [cut]
    apply tokens_append_listed (List.cons_ne_nil _ _) maskWhole
    · exact List.forall_mem_map.2 fun flag _ => (token_word flag).1
    · exact List.forall_mem_map.2 fun flag _ => (token_word flag).2
  refine ⟨' ' :: ("(0x".toList ++ (mask ++ ')' :: listed [' '] (flags.map (·.token.toList)))),
    rfl, ?_⟩
  rw [readFlags_eq, tokens_cons (by decide), words, List.filterMap_cons, ofToken?_mask]
  dsimp only
  rw [filterMap_ofToken?]

theorem flagsLine_eq (mask : List Char) (flags : List Flag) :
    flagsLine mask flags
      = (("flags: (0x".toList ++ mask) ++ [')']) ++ listed [' '] (flags.map (·.token.toList)) := by
  unfold flagsLine
  rw [List.append_assoc ("flags: (0x".toList ++ mask), List.append_assoc "flags: (0x".toList,
    List.singleton_append]

theorem trim_flagsLine (mask : List Char) (flags : List Flag) :
    trim (flagsLine mask flags) = flagsLine mask flags := by
  have solid : ∀ flag : Flag, ∀ c ∈ flag.token.toList, isBlank c = false := by
    intro flag
    cases flag <;> decide
  have words : trimEndOf isBlank (listed [' '] (flags.map (·.token.toList)))
      = listed [' '] (flags.map (·.token.toList)) := by
    apply trimEndOf_listed
    · exact List.forall_mem_map.2 fun flag _ => (token_word flag).1
    · exact List.forall_mem_map.2 fun flag _ => solid flag
  have front : trimEndOf isBlank (("flags: (0x".toList ++ mask) ++ [')'])
      = ("flags: (0x".toList ++ mask) ++ [')'] :=
    trimEndOf_append_eq_self (fun none => by cases none) (by decide)
  apply trim_eq_self
  · intro c first
    cases first
    decide
  · rw [flagsLine_eq]
    exact trimEndOf_append_eq_self (fun _ => front) words

/-! ## Metrics -/

/-- The line of the three metrics. -/
def metricsLine (stack locals argsSize : Numeral UInt16.size) : List Char :=
  "stack=".toList ++ (stack.digits ++ (", locals=".toList ++ (locals.digits
    ++ (", args_size=".toList ++ argsSize.digits))))

theorem metricParts_field (key : List Char) (n : Numeral UInt16.size) (noSign : '=' ∉ key) :
    metricParts (key ++ '=' :: n.digits) = (trim key, n.digits) := by
  have trimmed : trim n.digits = n.digits := by
    apply trim_eq_self
    · intro c first
      exact isBlank_of_isDigit (n.isDigit c (List.mem_of_mem_head? first))
    · exact trimEndOf_of_stay fun c member => isBlank_of_isDigit (n.isDigit c member)
  rw [metricParts, cutFirst?_append noSign]
  dsimp only
  rw [trimmed]

theorem noComma_field {key : List Char} (n : Numeral UInt16.size) (noComma : ',' ∉ key) :
    ∀ c ∈ key ++ '=' :: n.digits, (c == ',') = false := by
  intro c member
  apply beq_false_of_ne
  rintro rfl
  rcases List.mem_append.1 member with inside | member
  · exact noComma inside
  · rcases List.mem_cons.1 member with sign | digit
    · cases sign
    · cases n.isDigit _ digit

theorem splitOn_field {key : List Char} (n : Numeral UInt16.size) (noComma : ',' ∉ key)
    (rest : List Char) :
    ((key ++ '=' :: n.digits) ++ ',' :: rest).splitOn ','
      = (key ++ '=' :: n.digits) :: rest.splitOn ',' := by
  rw [List.splitOn_eq_splitOnP, List.splitOnP_append_cons _ _ (by decide),
    List.splitOnP_eq_singleton (noComma_field n noComma), List.splitOn_eq_splitOnP]
  rfl

theorem metricValue?_digits (n : Numeral UInt16.size) :
    metricValue? n.digits = some (UInt16.ofNat n.value) := by
  rw [metricValue?, n.read?_digits (by decide) (by decide)]
  rfl

theorem readMetrics_line (number : Nat) (stack locals argsSize : Numeral UInt16.size) :
    readMetrics number (metricsLine stack locals argsSize)
      = .ok ⟨UInt16.ofNat stack.value, UInt16.ofNat locals.value, UInt16.ofNat argsSize.value⟩ := by
  have fields : (metricsLine stack locals argsSize).splitOn ','
      = ["stack".toList ++ '=' :: stack.digits, " locals".toList ++ '=' :: locals.digits,
          " args_size".toList ++ '=' :: argsSize.digits] := by
    have cut : metricsLine stack locals argsSize
        = ("stack".toList ++ '=' :: stack.digits) ++ ',' :: ((" locals".toList
          ++ '=' :: locals.digits) ++ ',' :: (" args_size".toList ++ '=' :: argsSize.digits)) := by
      rw [List.append_assoc, List.append_assoc]
      rfl
    rw [cut, splitOn_field stack (by decide), splitOn_field locals (by decide),
      List.splitOn_eq_splitOnP, List.splitOnP_eq_singleton (noComma_field argsSize (by decide))]
  have parts : ((metricsLine stack locals argsSize).splitOn ',').map metricParts
      = [("stack".toList, stack.digits), ("locals".toList, locals.digits),
          ("args_size".toList, argsSize.digits)] := by
    rw [fields, List.map_cons, List.map_cons, List.map_singleton,
      metricParts_field _ stack (by decide), metricParts_field _ locals (by decide),
      metricParts_field _ argsSize (by decide)]
    rfl
  exact readMetrics_eq_ok_iff.2 ⟨_, _, _, .of_eq parts, metricValue?_digits stack,
    metricValue?_digits locals, metricValue?_digits argsSize⟩

theorem metricsLine_eq (stack locals argsSize : Numeral UInt16.size) :
    metricsLine stack locals argsSize
      = ("stack=".toList ++ (stack.digits ++ (", locals=".toList ++ (locals.digits
        ++ ", args_size=".toList)))) ++ argsSize.digits := by
  unfold metricsLine
  rw [List.append_assoc "stack=".toList, List.append_assoc stack.digits,
    List.append_assoc ", locals=".toList, List.append_assoc locals.digits]

theorem trim_metricsLine (stack locals argsSize : Numeral UInt16.size) :
    trim (metricsLine stack locals argsSize) = metricsLine stack locals argsSize := by
  have digits : trimEndOf isBlank argsSize.digits = argsSize.digits :=
    trimEndOf_of_stay fun c member => isBlank_of_isDigit (argsSize.isDigit c member)
  apply trim_eq_self
  · intro c first
    cases first
    decide
  · rw [metricsLine_eq]
    exact trimEndOf_append_eq_self (fun none => (argsSize.digits_ne none).elim) digits

end Listing

end ClassMachine
