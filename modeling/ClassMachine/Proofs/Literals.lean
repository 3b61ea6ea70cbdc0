import ClassMachine.Json.Reader
import ClassMachine.Proofs.Text

/-!
# Number literals

A literal set out as text, and its parts read back from this text
(`Literal.takeLiteral?_text`). All characters of the text are those of numbers, so a
literal ends where other text begins.
-/

namespace ClassMachine.Json

variable {c : Char} {digits rest : List Char} {l : Literal}

/-! ## Digits -/

/-- What follows digits does not continue them. -/
def EndsDigits (rest : List Char) : Prop :=
  ∀ c ∈ rest.head?, c.isDigit = false

theorem endsDigits_nil : EndsDigits [] := by
  rintro c ⟨⟩

theorem endsDigits_cons (ends : c.isDigit = false) : EndsDigits (c :: rest) := by
  rintro c ⟨⟩
  exact ends

theorem takeDigits_append (all : ∀ c ∈ digits, c.isDigit = true) (ends : EndsDigits rest) :
    takeDigits (digits ++ rest) = (digits, rest) :=
  Text.span_append all ends

theorem takeDigits_eq (all : ∀ c ∈ digits, c.isDigit = true) :
    takeDigits digits = (digits, []) := by
  simpa using takeDigits_append all endsDigits_nil

namespace Literal

/-- Only zero is written with a leading zero. -/
theorem head?_toDigits_ne {n : Nat} (positive : 0 < n) : (Nat.toDigits 10 n).head? ≠ some '0' := by
  induction n using Nat.strongRecOn with
  | ind n ih =>
      rw [Nat.toDigits_eq_if (by decide)]
      split
      · have nonzero : n.digitChar ≠ '0' := fun zero => by
          have := Nat.digitChar_eq_zero.1 zero
          omega
        simpa using nonzero
      · have front := ih (n / 10) (by omega) (by omega)
        rcases leading : Nat.toDigits 10 (n / 10) with _ | ⟨c, digits⟩
        · exact (Nat.toDigits_ne_nil leading).elim
        · simpa [leading] using front

theorem leading_toDigits (n : Nat) (zero : (Nat.toDigits 10 n).head? = some '0') :
    Nat.toDigits 10 n = ['0'] := by
  rcases Nat.eq_zero_or_pos n with rfl | positive
  · exact Nat.toDigits_zero 10
  · exact (head?_toDigits_ne positive zero).elim

theorem isDigit_toDigits (n : Nat) : ∀ c ∈ Nat.toDigits 10 n, c.isDigit = true := fun _ member =>
  Nat.isDigit_of_mem_toDigits (by decide) (by decide) member

/-! ## Text -/

/-- The point and the digits behind it, if there are any. -/
def fractionText (l : Literal) : List Char :=
  if l.fraction = [] then [] else '.' :: l.fraction

/-- The exponent with its mark and its sign, if there is one. -/
def exponentText (l : Literal) : List Char :=
  match l.exponent with
  | none => []
  | some (negative, digits) => 'e' :: (if negative then '-' else '+') :: digits

/-- A literal as it is written. -/
def text (l : Literal) : List Char :=
  (if l.negative then ['-'] else []) ++ (l.whole ++ (l.fractionText ++ l.exponentText))

/-- Parts that make a literal. Only zero has a zero in front. -/
structure WellFormed (l : Literal) : Prop where
  whole_ne : l.whole ≠ []
  leading : l.whole.head? = some '0' → l.whole = ['0']
  whole : ∀ c ∈ l.whole, c.isDigit = true
  fraction : ∀ c ∈ l.fraction, c.isDigit = true
  exponent : ∀ e ∈ l.exponent, e.2 ≠ [] ∧ ∀ c ∈ e.2, c.isDigit = true

/-! ## Reading -/

theorem endsDigits_exponentText (l : Literal) : EndsDigits l.exponentText := by
  unfold exponentText
  split
  · exact endsDigits_nil
  · exact endsDigits_cons (by decide)

theorem endsDigits_fractionText (l : Literal) : EndsDigits (l.fractionText ++ l.exponentText) := by
  unfold fractionText
  split
  · exact l.endsDigits_exponentText
  · exact endsDigits_cons (by decide)

theorem WellFormed.takeWhole?_append (wellFormed : l.WellFormed) (ends : EndsDigits rest) :
    takeWhole? (l.whole ++ rest) = some (l.whole, rest) := by
  rcases parts : l.whole with _ | ⟨c, cs⟩
  · exact (wellFormed.whole_ne parts).elim
  · by_cases zero : c = '0'
    · subst zero
      have leading := wellFormed.leading (by rw [parts]; rfl)
      rw [parts] at leading
      cases leading
      rfl
    · have digits := takeDigits_append (parts ▸ wellFormed.whole) ends
      rw [List.cons_append] at digits ⊢
      unfold takeWhole?
      split
      · rename_i front
        exact (zero (List.cons.inj front).1).elim
      · rw [digits]

theorem WellFormed.takeFraction?_append (wellFormed : l.WellFormed) :
    takeFraction? (l.fractionText ++ l.exponentText) = some (l.fraction, l.exponentText) := by
  unfold fractionText
  split
  · rename_i none
    rw [none, List.nil_append]
    unfold exponentText
    split <;> rfl
  · rename_i some
    have digits := takeDigits_append wellFormed.fraction l.endsDigits_exponentText
    rw [List.cons_append, takeFraction?, digits]
    split
    · rename_i empty
      exact (some (Prod.mk.inj empty).1).elim
    · rename_i parts
      rw [parts]

theorem WellFormed.takeExponent?_exponentText (wellFormed : l.WellFormed) :
    takeExponent? l.exponentText = some (l.exponent, []) := by
  unfold exponentText
  split
  · rename_i none
    rw [none]
    rfl
  · rename_i negative digits parts
    obtain ⟨digits_ne, all⟩ := wellFormed.exponent _ parts
    have sign : takeSign ((if negative then '-' else '+') :: digits) = (negative, digits) := by
      cases negative <;> rfl
    rw [takeExponent?, if_pos (Or.inl rfl), sign, parts]
    dsimp only
    rw [takeDigits_eq all]
    split
    · rename_i empty
      exact (digits_ne (Prod.mk.inj empty).1).elim
    · rename_i cut
      cases cut
      rfl

/-- **The text of a literal** is taken up as a whole, and gives its parts. -/
theorem WellFormed.takeLiteral?_text (wellFormed : l.WellFormed) :
    takeLiteral? l.text = some (l, []) := by
  have whole := wellFormed.takeWhole?_append l.endsDigits_fractionText
  have unsigned : takeLiteral? l.text
      = (takeWhole? (l.whole ++ (l.fractionText ++ l.exponentText))).bind fun whole =>
        (takeFraction? whole.2).bind fun fraction =>
          (takeExponent? fraction.2).bind fun exponent =>
            some (⟨l.negative, whole.1, fraction.1, exponent.1⟩, exponent.2) := by
    unfold takeLiteral? text
    cases l.negative with
    | true => rfl
    | false =>
        rcases parts : l.whole with _ | ⟨c, cs⟩
        · exact (wellFormed.whole_ne parts).elim
        · -- The text starts with a digit, and no digit is a sign.
          have digit := wellFormed.whole c (parts ▸ List.mem_cons_self)
          have noSign : c ≠ '-' := by
            rintro rfl
            cases digit
          simp [noSign]
  simp only [unsigned, whole, wellFormed.takeFraction?_append,
    wellFormed.takeExponent?_exponentText, Option.bind_some]

theorem isNumberChar_of_isDigit (digit : c.isDigit = true) : isNumberChar c = true := by
  simp [isNumberChar, digit]

theorem WellFormed.isNumberChar_text (wellFormed : l.WellFormed) :
    ∀ c ∈ l.text, isNumberChar c = true := by
  have fraction : ∀ c ∈ l.fractionText, isNumberChar c = true := by
    unfold fractionText
    split
    · nofun
    · refine List.forall_mem_cons.2 ⟨by decide, fun c member => ?_⟩
      exact isNumberChar_of_isDigit (wellFormed.fraction c member)
  have exponent : ∀ c ∈ l.exponentText, isNumberChar c = true := by
    unfold exponentText
    split
    · nofun
    · rename_i negative digits parts
      have sign : isNumberChar (if negative then '-' else '+') = true := by
        cases negative <;> decide
      refine List.forall_mem_cons.2 ⟨by decide, List.forall_mem_cons.2 ⟨sign, fun c member => ?_⟩⟩
      exact isNumberChar_of_isDigit ((wellFormed.exponent _ parts).2 c member)
  refine List.forall_mem_append.2 ⟨?_, List.forall_mem_append.2 ⟨?_,
    List.forall_mem_append.2 ⟨fraction, exponent⟩⟩⟩
  · cases l.negative with
    | true => exact List.forall_mem_singleton.2 (by decide)
    | false => nofun
  · exact fun c member => isNumberChar_of_isDigit (wellFormed.whole c member)

end Literal

/-- A text is the literal of a number. -/
def IsNumber (literal : String) : Prop :=
  ∃ l : Literal, l.WellFormed ∧ literal.toList = l.text

end ClassMachine.Json
