import ClassMachine.Json.Writer
import ClassMachine.Proofs.Literals
import Mathlib.Tactic.SplitIfs

/-!
# Written JSON reads back

A value of numbers and strings is given back by its indented text
(`Legible.parse?_prettyText`): strings character by character, numbers as the literals
they are, whole ones digit by digit (`numeric?_toString`), arrays and records by
induction on what they hold.

A number has no mark at its end, so a value reads back in front of anything that
does not continue a number (`ReadsBack`). The fuel a reader needs is bounded by the
length of what it reads.
-/

namespace ClassMachine.Json

variable {c : Char} {cs rest : List Char} {value item : Json} {items : List Json}
  {fields : List (String × Json)} {level fuel : Nat} {n : Int} {literal : String}

/-! ## Blanks between tokens -/

theorem skipSpace_append {blanks : List Char} (blank : ∀ c ∈ blanks, isSpace c)
    (cs : List Char) : skipSpace (blanks ++ cs) = skipSpace cs :=
  List.dropWhile_append_of_pos blank

theorem isSpace_newLine : ∀ c ∈ newLine level, isSpace c := by
  intro c member
  rcases List.mem_cons.1 member with rfl | indent
  · decide
  · rw [List.eq_of_mem_replicate indent]
    decide

theorem length_newLine (level : Nat) : (newLine level).length = 2 * level + 1 := by
  simp [newLine]

theorem skipSpace_newLine (level : Nat) (cs : List Char) :
    skipSpace (newLine level ++ cs) = skipSpace cs :=
  skipSpace_append isSpace_newLine cs

theorem skipSpace_cons (visible : isSpace c = false) : skipSpace (c :: cs) = c :: cs := by
  simp [skipSpace, visible]

theorem skipSpace_skipSpace (cs : List Char) : skipSpace (skipSpace cs) = skipSpace cs :=
  List.dropWhile_idempotent isSpace cs

theorem isSpace_comma : isSpace ',' = false := by decide

theorem isSpace_colon : isSpace ':' = false := by decide

theorem isSpace_quote : isSpace '"' = false := by decide

theorem isSpace_bracket : isSpace ']' = false := by decide

theorem isSpace_brace : isSpace '\x7d' = false := by decide

/-! ## Strings -/

theorem hexadecimal_oneDigit : ∀ n < 0x10,
    Text.hexadecimal n = [n.digitChar] ∧ codeUnit? '0' '0' '0' n.digitChar = some n := by
  decide

theorem hexadecimal_twoDigits : ∀ n < 0x20, 0x10 ≤ n →
    Text.hexadecimal n = ['1', (n - 0x10).digitChar]
      ∧ codeUnit? '0' '0' '1' (n - 0x10).digitChar = some n := by
  decide

/-- The code unit of a control is its character. -/
theorem pushUnit_control (read : List Char) (control : c.toNat < 0x20) :
    PartialText.pushUnit ⟨read, true, none⟩ c.toNat = ⟨c :: read, true, none⟩ := by
  have noHigh : isHighSurrogate c.toNat = false := by simp [isHighSurrogate]; omega
  have noLow : isLowSurrogate c.toNat = false := by simp [isLowSurrogate]; omega
  simp [PartialText.pushUnit, noHigh, noLow, Char.ofNat_toNat]

theorem readText_letter (read : List Char) {letter : Char} (meaning : unescape? letter = some c)
    (rest : List Char) :
    readText ⟨read, true, none⟩ ('\\' :: letter :: rest)
      = readText ⟨c :: read, true, none⟩ rest := by
  have noUnit : letter ≠ 'u' := by
    rintro rfl
    cases meaning
  simp [readText, meaning, noUnit, PartialText.push]

theorem readText_plain (read : List Char) (noQuote : c ≠ '"') (noBackslash : c ≠ '\\')
    (noControl : ¬ c.toNat < 0x20) (rest : List Char) :
    readText ⟨read, true, none⟩ (c :: rest) = readText ⟨c :: read, true, none⟩ rest := by
  rw [readText.eq_def]
  split
  · rename_i nothing
    cases nothing
  · rename_i front
    exact (noQuote (List.cons.inj front).1).elim
  · rename_i front
    exact (noBackslash (List.cons.inj front).1).elim
  · rename_i front
    exact (noBackslash (List.cons.inj front).1).elim
  · rename_i front
    obtain ⟨rfl, rfl⟩ := List.cons.inj front
    rw [if_neg (by simp [noBackslash, noControl])]
    rfl

/-- Reading a character as it stands inside a string adds this character. -/
theorem readText_escapedChar (read : List Char) (c : Char) (rest : List Char) :
    readText ⟨read, true, none⟩ (escapedChar c ++ rest)
      = readText ⟨c :: read, true, none⟩ rest := by
  unfold escapedChar
  split_ifs with quote backslash feed tab ret back page low control
  · subst quote
    exact readText_letter read rfl rest
  · subst backslash
    exact readText_letter read rfl rest
  · subst feed
    exact readText_letter read rfl rest
  · subst tab
    exact readText_letter read rfl rest
  · subst ret
    exact readText_letter read rfl rest
  · subst back
    exact readText_letter read rfl rest
  · subst page
    exact readText_letter read rfl rest
  · obtain ⟨digits, unit⟩ := hexadecimal_oneDigit c.toNat low
    simp [digits, readText, unit, pushUnit_control read (show c.toNat < 0x20 by omega)]
  · obtain ⟨digits, unit⟩ := hexadecimal_twoDigits c.toNat control (by omega)
    simp [digits, readText, unit, pushUnit_control read control]
  · exact readText_plain read quote backslash control rest

theorem readText_flatMap (read cs rest : List Char) :
    readText ⟨read, true, none⟩ (cs.flatMap escapedChar ++ '"' :: rest)
      = some (some (String.ofList (read.reverse ++ cs)), rest) := by
  induction cs generalizing read with
  | nil => simp [readText, PartialText.finish]
  | cons c cs ih =>
      rw [List.flatMap_cons, List.append_assoc, readText_escapedChar, ih]
      simp

theorem readText_textLiteral (s : String) (rest : List Char) :
    readText .empty (s.toList.flatMap escapedChar ++ '"' :: rest) = some (some s, rest) := by
  have body := readText_flatMap [] s.toList rest
  simpa [PartialText.empty] using body

/-! ## Numbers -/

/-- The parts of a written whole number. -/
def wholeParts (n : Int) : Literal :=
  ⟨decide (n < 0), Nat.toDigits 10 n.natAbs, [], none⟩

theorem wellFormed_wholeParts (n : Int) : (wholeParts n).WellFormed where
  whole_ne := Nat.toDigits_ne_nil
  leading := Literal.leading_toDigits n.natAbs
  whole := Literal.isDigit_toDigits n.natAbs
  fraction := nofun
  exponent := nofun

theorem toList_toString (n : Int) : (toString n).toList = (wholeParts n).text := by
  rw [Int.toString_eq_repr, Int.repr_eq_if, Literal.text, Literal.fractionText,
    Literal.exponentText, wholeParts]
  split
  · rename_i positive
    rw [Nat.repr_eq_ofList_toDigits, decide_eq_false (by omega)]
    have : n.toNat = n.natAbs := by omega
    simp [this]
  · rename_i negative
    rw [Nat.repr_eq_ofList_toDigits, decide_eq_true (by omega)]
    have : (-n).toNat = n.natAbs := by omega
    simp [this]

theorem foldl_toDigits (n : Nat) :
    (Nat.toDigits 10 n).foldl (fun acc c => acc * 10 + (c.toNat - '0'.toNat)) 0 = n := by
  have value : Nat.ofDigitChars 10 (Nat.toDigits 10 n) 0 = n := Nat.ofDigitChars_ten_toDigits
  rw [Nat.ofDigitChars_eq_foldl] at value
  simpa only [Nat.mul_comm] using value

/-- A whole number of 64 bits, with or without a sign, reads back. -/
theorem numeric?_toString {n : Int} (least : -(UInt64.size / 2 : Nat) ≤ n)
    (greatest : n < UInt64.size) : numeric? (toString n) = some (.whole n) := by
  rw [numeric?, toList_toString, (wellFormed_wholeParts n).takeLiteral?_text]
  simp only [Literal.value?, wholeParts, foldl_toDigits, List.isEmpty_nil, Option.isNone_none,
    Bool.true_and]
  by_cases negative : n < 0
  · have size : n.natAbs ≤ UInt64.size / 2 := by omega
    have positive : 0 < n.natAbs := by omega
    simp only [negative, positive, size, decide_true, Bool.not_true, Bool.false_and, Bool.and_self,
      Bool.false_eq_true, if_false, if_true, Option.some.injEq, Numeric.whole.injEq]
    omega
  · have size : n.natAbs < UInt64.size := by omega
    simp only [negative, size, decide_true, decide_false, Bool.not_false, Bool.and_self, if_true,
      Option.some.injEq, Numeric.whole.injEq]
    omega

/-- What follows a number does not continue it. -/
def EndsNumber (rest : List Char) : Prop :=
  ∀ c ∈ rest.head?, isNumberChar c = false

theorem isNumber_toString (n : Int) : IsNumber (toString n) :=
  ⟨wholeParts n, wellFormed_wholeParts n, toList_toString n⟩

theorem readNumber_literal (number : IsNumber literal) (ends : EndsNumber rest) :
    readNumber (literal.toList ++ rest) = some (.number literal, rest) := by
  obtain ⟨l, wellFormed, written⟩ := number
  have cut : (literal.toList ++ rest).span isNumberChar = (literal.toList, rest) :=
    Text.span_append (written ▸ wellFormed.isNumberChar_text) ends
  have complete : takeLiteral? literal.toList = some (l, []) :=
    written ▸ wellFormed.takeLiteral?_text
  unfold readNumber
  rw [cut]
  simp only [complete, String.ofList_toList]

theorem isSpace_eq_false (number : isNumberChar c) : isSpace c = false := by
  cases space : isSpace c with
  | false => rfl
  | true =>
      simp only [isSpace, Bool.or_eq_true, beq_iff_eq] at space
      rcases space with ((rfl | rfl) | rfl) | rfl <;> exact absurd number (by decide)

/-- A literal has a front, of the characters of numbers. -/
theorem IsNumber.eq_cons (number : IsNumber literal) :
    ∃ c cs, literal.toList = c :: cs ∧ isNumberChar c := by
  obtain ⟨l, wellFormed, written⟩ := number
  rcases parts : l.text with _ | ⟨c, cs⟩
  · have whole := wellFormed.takeLiteral?_text
    rw [parts] at whole
    cases whole
  · exact ⟨c, cs, written.trans parts, wellFormed.isNumberChar_text c (by simp [parts])⟩

/-! ## Values -/

/-- Values that text gives back: numbers, strings, and lists and records of such. -/
inductive Legible : Json → Prop where
  | null : Legible .null
  | bool (value : Bool) : Legible (.bool value)
  | number {literal : String} (number : IsNumber literal) : Legible (.number literal)
  | text (s : String) : Legible (.ofString s)
  | array {items : List Json} (each : ∀ item ∈ items, Legible item) : Legible (.array items)
  | record {fields : List (String × Json)} (each : ∀ field ∈ fields, Legible field.2) :
    Legible (.record fields)

theorem Legible.whole (n : Int) : Legible (.ofInt n) :=
  .number (isNumber_toString n)

/-- The front of a written value is neither a blank nor the end of an array. -/
theorem Legible.pretty_eq_cons (legible : Legible value) (level : Nat) :
    ∃ c cs, value.pretty level = c :: cs ∧ isSpace c = false ∧ c ≠ ']' := by
  cases legible with
  | null => exact ⟨'n', _, rfl, by decide, by decide⟩
  | bool value => cases value with
    | true => exact ⟨'t', _, rfl, by decide, by decide⟩
    | false => exact ⟨'f', _, rfl, by decide, by decide⟩
  | number number =>
      obtain ⟨c, cs, written, front⟩ := number.eq_cons
      refine ⟨c, cs, by rw [← written, pretty], isSpace_eq_false front, ?_⟩
      rintro rfl
      exact absurd front (by decide)
  | text s => exact ⟨'"', _, rfl, by decide, by decide⟩
  | @array items _ => cases items with
    | nil => exact ⟨'[', _, rfl, by decide, by decide⟩
    | cons => exact ⟨'[', _, rfl, by decide, by decide⟩
  | @record fields _ => cases fields with
    | nil => exact ⟨'\x7b', _, rfl, by decide, by decide⟩
    | cons => exact ⟨'\x7b', _, rfl, by decide, by decide⟩

theorem Legible.skipSpace_pretty (legible : Legible value) (level : Nat) (cs : List Char) :
    skipSpace (value.pretty level ++ cs) = value.pretty level ++ cs := by
  obtain ⟨c, tail, front, visible, -⟩ := legible.pretty_eq_cons level
  rw [front, List.cons_append, skipSpace_cons visible]

/-- A value reads back from the front of a text, whatever follows it. -/
def ReadsBack (value : Json) : Prop :=
  ∀ ⦃level fuel : Nat⦄ ⦃cs rest : List Char⦄, (value.pretty level).length ≤ fuel →
    EndsNumber rest → skipSpace cs = value.pretty level ++ rest →
    readValue fuel cs = some (value, rest)

theorem endsNumber_cons (ends : isNumberChar c = false) : EndsNumber (c :: rest) := by
  rintro c ⟨⟩
  exact ends

theorem endsNumber_newLine : EndsNumber (newLine level ++ rest) :=
  endsNumber_cons (by decide)

/-! ### Scalars -/

theorem readValue_scalar (front : skipSpace cs = c :: rest) (noArray : c ≠ '[')
    (noRecord : c ≠ '\x7b') : readValue (fuel + 1) cs = readScalar (c :: rest) := by
  rw [readValue, front]
  split
  · simp_all
  · simp_all
  · rfl

/-- A value on one line reads back if it is read as a scalar. -/
theorem readsBack_of_readScalar {text : List Char} (noArray : c ≠ '[') (noRecord : c ≠ '\x7b')
    (written : ∀ level, value.pretty level = c :: text)
    (back : ∀ rest, EndsNumber rest → readScalar (c :: (text ++ rest)) = some (value, rest)) :
    value.ReadsBack := by
  intro level fuel cs rest enough ends front
  rw [written] at enough front
  cases fuel with
  | zero => cases enough
  | succ fuel =>
      rw [readValue_scalar front noArray noRecord]
      exact back rest ends

theorem readScalar_number (number : isNumberChar c) :
    readScalar (c :: cs) = readNumber (c :: cs) := by
  unfold readScalar
  split
  case h_5 => rfl
  -- No number begins like a word or a string.
  all_goals
    rename_i front
    cases front
    exact absurd number (by decide)

theorem readsBack_number (number : IsNumber literal) : (Json.number literal).ReadsBack := by
  obtain ⟨c, text, written, front⟩ := number.eq_cons
  have noArray : c ≠ '[' := by
    rintro rfl
    exact absurd front (by decide)
  have noRecord : c ≠ '\x7b' := by
    rintro rfl
    exact absurd front (by decide)
  have shown : ∀ level, (Json.number literal).pretty level = c :: text := fun level => by
    rw [pretty, written]
  refine readsBack_of_readScalar noArray noRecord shown fun rest ends => ?_
  rw [readScalar_number front, ← List.cons_append, ← written, readNumber_literal number ends]

theorem readsBack_ofString (s : String) : (ofString s).ReadsBack := by
  refine readsBack_of_readScalar (by decide) (by decide) (fun level => rfl) fun rest _ => ?_
  rw [List.append_eq, List.append_assoc, List.singleton_append, readScalar, readText_textLiteral]
  rfl

/-! ### Arrays -/

theorem prettyItems_cons (item : Json) (items : List Json) (level : Nat) :
    prettyItems (item :: items) level = newLine level ++ (item.pretty level
      ++ if items = [] then [] else ',' :: prettyItems items level) := by
  cases items <;> simp [prettyItems]

/-- The items of an array read back, up to the bracket behind them. -/
theorem readItems_prettyItems (closing : Nat) (rest : List Char)
    (legible : ∀ item ∈ items, Legible item) (each : ∀ item ∈ items, item.ReadsBack)
    (occupied : items ≠ []) (enough : (prettyItems items level).length ≤ fuel)
    (text : skipSpace cs
      = skipSpace (prettyItems items level ++ (newLine closing ++ ']' :: rest))) :
    readItems fuel cs = some (items, rest) := by
  induction items generalizing fuel cs with
  | nil => exact (occupied rfl).elim
  | cons item items ih =>
      rw [prettyItems_cons] at enough text
      simp only [List.length_append, length_newLine] at enough
      obtain ⟨fuel, rfl⟩ : ∃ n, fuel = n + 1 := ⟨fuel - 1, by omega⟩
      simp only [List.append_assoc, skipSpace_newLine,
        (legible item List.mem_cons_self).skipSpace_pretty] at text
      have itemBack : ∀ tail, EndsNumber tail → skipSpace cs = item.pretty level ++ tail →
          readValue fuel cs = some (item, tail) := fun tail =>
        each item List.mem_cons_self (by omega)
      rw [readItems]
      -- The bracket stands behind the last item, a comma behind every other one.
      rcases items with _ | ⟨next, items⟩
      · rw [itemBack _ endsNumber_newLine text]
        simp only [skipSpace_newLine, skipSpace_cons isSpace_bracket]
      · simp only [reduceCtorEq, if_false, List.length_cons, List.cons_append] at enough text
        have others : readItems fuel (prettyItems (next :: items) level
            ++ (newLine closing ++ ']' :: rest)) = some (next :: items, rest) :=
          ih (List.forall_mem_cons.1 legible).2 (List.forall_mem_cons.1 each).2 (by simp)
            (by omega) rfl
        rw [itemBack _ (endsNumber_cons (by decide)) text]
        simp only [skipSpace_cons isSpace_comma, others, Option.map_some]

theorem readValue_items {inner : List Char} (front : skipSpace cs = '[' :: inner)
    (occupied : ∀ tail, skipSpace inner ≠ ']' :: tail) :
    readValue (fuel + 1) cs
      = (readItems fuel (skipSpace inner)).map fun (items, rest) => (.array items, rest) := by
  simp only [readValue, front]

theorem readsBack_array (legible : ∀ item ∈ items, Legible item)
    (each : ∀ item ∈ items, item.ReadsBack) : (array items).ReadsBack := by
  intro level fuel cs rest enough _ text
  rcases items with _ | ⟨item, items⟩
  · cases fuel with
    | zero => cases enough
    | succ fuel =>
        rw [readValue, text]
        rfl
  · obtain ⟨c, tail, front, -, noEnd⟩ :=
      (legible item List.mem_cons_self).pretty_eq_cons (level + 1)
    have written : (array (item :: items)).pretty level
        = '[' :: (prettyItems (item :: items) (level + 1) ++ (newLine level ++ [']'])) := by
      simp [pretty]
    rw [written] at enough text
    simp only [List.length_append, List.length_cons] at enough
    obtain ⟨fuel, rfl⟩ : ∃ n, fuel = n + 1 := ⟨fuel - 1, by omega⟩
    simp only [List.append_assoc, List.cons_append, List.nil_append] at text
    -- No item begins with the bracket, so the array is not taken for an empty one.
    have occupied : ∀ tail, skipSpace (prettyItems (item :: items) (level + 1)
        ++ (newLine level ++ ']' :: rest)) ≠ ']' :: tail := by
      intro tail ended
      rw [prettyItems_cons, List.append_assoc, skipSpace_newLine, List.append_assoc,
        (legible item List.mem_cons_self).skipSpace_pretty, front] at ended
      exact noEnd (List.cons.inj ended).1
    have back : readItems fuel (skipSpace (prettyItems (item :: items) (level + 1)
        ++ (newLine level ++ ']' :: rest))) = some (item :: items, rest) :=
      readItems_prettyItems level rest legible each (by simp) (by omega) (skipSpace_skipSpace _)
    rw [readValue_items text occupied, back]
    rfl

/-! ### Records -/

theorem record_eq (fields : List (String × Json)) :
    record fields = .object (fields.map (Prod.map some id)) :=
  rfl

theorem prettyFields_cons (name : String) (value : Json) (fields : List (String × Json))
    (level : Nat) :
    prettyFields (((name, value) :: fields).map (Prod.map some id)) level
      = newLine level ++ '"' :: (name.toList.flatMap escapedChar ++ '"' :: ':' :: ' ' ::
        (value.pretty level ++ if fields = [] then []
          else ',' :: prettyFields (fields.map (Prod.map some id)) level)) := by
  cases fields <;> simp [prettyFields, textLiteral]

theorem skipSpace_blank (cs : List Char) : skipSpace (' ' :: cs) = skipSpace cs := by
  simp [skipSpace, isSpace]

/-- The fields of an object read back, up to the brace behind them. -/
theorem readFields_prettyFields (closing : Nat) (rest : List Char)
    (legible : ∀ field ∈ fields, Legible field.2) (each : ∀ field ∈ fields, field.2.ReadsBack)
    (occupied : fields ≠ [])
    (enough : (prettyFields (fields.map (Prod.map some id)) level).length ≤ fuel)
    (text : skipSpace cs = skipSpace (prettyFields (fields.map (Prod.map some id)) level
      ++ (newLine closing ++ '\x7d' :: rest))) :
    readFields fuel cs = some (fields.map (Prod.map some id), rest) := by
  induction fields generalizing fuel cs with
  | nil => exact (occupied rfl).elim
  | cons field fields ih =>
      obtain ⟨name, value⟩ := field
      rw [prettyFields_cons] at enough text
      simp only [List.length_append, List.length_cons, length_newLine] at enough
      obtain ⟨fuel, rfl⟩ : ∃ n, fuel = n + 1 := ⟨fuel - 1, by omega⟩
      have atValue : ∀ cs,
          skipSpace (' ' :: (value.pretty level ++ cs)) = value.pretty level ++ cs := fun cs => by
        rw [skipSpace_blank, (legible _ List.mem_cons_self).skipSpace_pretty]
      have valueBack : ∀ cs, EndsNumber cs →
          readValue fuel (' ' :: (value.pretty level ++ cs)) = some (value, cs) := fun cs ends =>
        each _ List.mem_cons_self (by dsimp only; omega) ends (atValue cs)
      simp only [List.append_assoc, List.cons_append, skipSpace_newLine,
        skipSpace_cons isSpace_quote] at text
      rw [readFields, text]
      simp only [readText_textLiteral, skipSpace_cons isSpace_colon]
      -- The brace stands behind the last field, a comma behind every other one.
      rcases fields with _ | ⟨next, fields⟩
      · rw [if_pos rfl, List.nil_append, valueBack _ endsNumber_newLine]
        simp only [skipSpace_newLine, skipSpace_cons isSpace_brace]
        rfl
      · simp only [reduceCtorEq, if_false, List.length_cons, List.cons_append] at enough ⊢
        have others : readFields fuel (prettyFields ((next :: fields).map (Prod.map some id)) level
            ++ (newLine closing ++ '\x7d' :: rest))
            = some ((next :: fields).map (Prod.map some id), rest) :=
          ih (List.forall_mem_cons.1 legible).2 (List.forall_mem_cons.1 each).2 (by simp)
            (by omega) rfl
        rw [valueBack _ (endsNumber_cons (by decide))]
        simp only [skipSpace_cons isSpace_comma, others, Option.map_some]
        rfl

theorem readValue_fields {inner : List Char} (front : skipSpace cs = '\x7b' :: inner)
    (occupied : ∀ tail, skipSpace inner ≠ '\x7d' :: tail) :
    readValue (fuel + 1) cs
      = (readFields fuel (skipSpace inner)).map fun (fields, rest) => (.object fields, rest) := by
  simp only [readValue, front]

theorem readsBack_record (legible : ∀ field ∈ fields, Legible field.2)
    (each : ∀ field ∈ fields, field.2.ReadsBack) : (record fields).ReadsBack := by
  intro level fuel cs rest enough _ text
  rcases fields with _ | ⟨⟨name, value⟩, fields⟩
  · cases fuel with
    | zero => cases enough
    | succ fuel =>
        rw [readValue, text]
        rfl
  · have written : (record ((name, value) :: fields)).pretty level
        = '\x7b' :: (prettyFields (((name, value) :: fields).map (Prod.map some id)) (level + 1)
          ++ (newLine level ++ ['\x7d'])) := by
      simp [record_eq, pretty]
    rw [written] at enough text
    simp only [List.length_append, List.length_cons] at enough
    obtain ⟨fuel, rfl⟩ : ∃ n, fuel = n + 1 := ⟨fuel - 1, by omega⟩
    simp only [List.append_assoc, List.cons_append, List.nil_append] at text
    have occupied : ∀ tail, skipSpace (prettyFields (((name, value) :: fields).map
        (Prod.map some id)) (level + 1) ++ (newLine level ++ '\x7d' :: rest)) ≠ '\x7d' :: tail := by
      intro tail ended
      rw [prettyFields_cons, List.append_assoc, skipSpace_newLine, List.cons_append,
        skipSpace_cons isSpace_quote] at ended
      exact absurd (List.cons.inj ended).1 (by decide)
    have back : readFields fuel (skipSpace (prettyFields (((name, value) :: fields).map
        (Prod.map some id)) (level + 1) ++ (newLine level ++ '\x7d' :: rest)))
        = some (((name, value) :: fields).map (Prod.map some id), rest) :=
      readFields_prettyFields level rest legible each (by simp) (by omega) (skipSpace_skipSpace _)
    rw [readValue_fields text occupied, back]
    rfl

/-! ## Texts -/

theorem Legible.readsBack (legible : Legible value) : value.ReadsBack := by
  induction legible with
  | null => exact readsBack_of_readScalar (by decide) (by decide) (fun _ => rfl) fun _ _ => rfl
  | bool value =>
      cases value with
      | true => exact readsBack_of_readScalar (by decide) (by decide) (fun _ => rfl) fun _ _ => rfl
      | false => exact readsBack_of_readScalar (by decide) (by decide) (fun _ => rfl) fun _ _ => rfl
  | number number => exact readsBack_number number
  | text s => exact readsBack_ofString s
  | array each ih => exact readsBack_array each ih
  | record each ih => exact readsBack_record each ih

/-- **Reading inverts writing.** A legible value reads back from its indented text. -/
theorem Legible.parse?_prettyText (legible : Legible value) :
    parse? value.prettyText = some value := by
  have front : skipSpace (value.pretty 0) = value.pretty 0 ++ [] := by
    simpa using legible.skipSpace_pretty 0 []
  have enough : (value.pretty 0).length ≤ 2 * (value.pretty 0).length + 2 := by omega
  have back : readValue (2 * (value.pretty 0).length + 2) (value.pretty 0) = some (value, []) :=
    legible.readsBack enough (by rintro c ⟨⟩) front
  simp [parse?, prettyText, back, skipSpace]

end ClassMachine.Json
