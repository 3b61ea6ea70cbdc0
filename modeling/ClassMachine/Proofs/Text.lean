import ClassMachine.Listing.Line
import Mathlib.Data.List.DropRight
import Mathlib.Data.List.TakeDrop
import Mathlib.Data.List.TakeWhile

/-!
# Cutting text

What is cut off at the front of a text, and at either end of one, when the place
where the cut stops is known; the classes of characters that differ; and the names of
classes in canonical form.
-/

namespace ClassMachine.Text

variable {α : Type} {p : α → Bool} {a : α} {front rest : List α} {c : Char} {cs ys : List Char}

/-- What holds of all characters of a text is decided by looking at these alone. -/
instance decidableForallMem (P : Char → Prop) [DecidablePred P] (cs : List Char) :
    Decidable (∀ c ∈ cs, P c) :=
  List.decidableBAll P cs

/-! ## At the front -/

/-- A run of characters of one class ends where the class is left. -/
theorem span_append (inside : ∀ a ∈ front, p a = true) (leaves : ∀ a ∈ rest.head?, p a = false) :
    (front ++ rest).span p = (front, rest) := by
  have stops : rest.takeWhile p = [] ∧ rest.dropWhile p = rest := by
    cases rest with
    | nil => exact ⟨rfl, rfl⟩
    | cons a rest => simp [leaves a rfl]
  rw [List.span_eq_takeWhile_dropWhile, List.takeWhile_append_of_pos inside,
    List.dropWhile_append_of_pos inside, stops.1, stops.2, List.append_nil]

theorem span_append_cons (inside : ∀ a ∈ front, p a = true) (leaves : p a = false) :
    (front ++ a :: rest).span p = (front, a :: rest) :=
  span_append inside fun b first => by
    cases first
    exact leaves

theorem dropFront?_append (front cs : List Char) : dropFront? front (front ++ cs) = some cs := by
  induction front with
  | nil => cases cs <;> rfl
  | cons f front ih => rw [List.cons_append, dropFront?, if_pos rfl, ih]

/-! ## At the first of a character -/

/-- A text is cut where the character stands for the first time. -/
theorem cutFirst?_append {before : List Char} (first : c ∉ before) (behind : List Char) :
    cutFirst? c (before ++ c :: behind) = some (before, behind) := by
  have cut : (before ++ c :: behind).span (· ≠ c) = (before, c :: behind) := by
    apply span_append_cons
    · intro d member
      apply decide_eq_true
      rintro rfl
      exact first member
    · simp
  rw [cutFirst?, cut]

theorem cutFirst?_eq_some {before behind : List Char}
    (cut : cutFirst? c cs = some (before, behind)) : cs = before ++ c :: behind := by
  unfold cutFirst? at cut
  rw [List.span_eq_takeWhile_dropWhile] at cut
  split at cut
  · rename_i left divider right parts
    cases cut
    obtain ⟨rfl, dropped⟩ := Prod.mk.inj parts
    have stops := List.head?_dropWhile_not (fun x => decide (x ≠ c)) cs
    rw [dropped] at stops
    have divides : divider = c := by simpa using stops
    have parts := List.takeWhile_append_dropWhile (p := fun x => decide (x ≠ c)) (l := cs)
    rw [dropped, divides] at parts
    exact parts.symm
  · cases cut

theorem notMem_of_cutFirst? {before behind : List Char}
    (cut : cutFirst? c cs = some (before, behind)) : c ∉ before := by
  intro member
  unfold cutFirst? at cut
  rw [List.span_eq_takeWhile_dropWhile] at cut
  split at cut
  · rename_i parts
    cases cut
    obtain ⟨rfl, _⟩ := Prod.mk.inj parts
    simpa using List.mem_takeWhile_imp member
  · cases cut

/-! ## At the end -/

variable {q : Char → Bool}

theorem trimEndOf_eq_rdropWhile (q : Char → Bool) (cs : List Char) :
    trimEndOf q cs = cs.rdropWhile q :=
  rfl

theorem trimEndOf_trimEndOf (q : Char → Bool) (cs : List Char) :
    trimEndOf q (trimEndOf q cs) = trimEndOf q cs :=
  List.rdropWhile_idempotent q cs

/-- Nothing is cut off in front of a character that stays. -/
theorem trimEndOf_append (stays : q c = false) (before behind : List Char) :
    trimEndOf q (before ++ c :: behind) = before ++ c :: trimEndOf q behind := by
  unfold trimEndOf
  rw [List.reverse_append, List.reverse_cons, List.append_assoc, List.dropWhile_append]
  split
  · rename_i gone
    rw [List.isEmpty_iff.1 gone]
    simp [stays]
  · simp

/-- A character that may go does so if nothing stays behind it. -/
theorem trimEndOf_cons (goes : q c = true) (cs : List Char) :
    trimEndOf q (c :: cs) = if trimEndOf q cs = [] then [] else c :: trimEndOf q cs := by
  unfold trimEndOf
  rw [List.reverse_cons, List.dropWhile_append]
  split
  · rename_i gone
    rw [List.isEmpty_iff.1 gone]
    simp [goes]
  · rename_i kept
    simpa using kept

theorem trimEndOf_append_of_all (goes : ∀ c ∈ ys, q c = true) (cs : List Char) :
    trimEndOf q (cs ++ ys) = trimEndOf q cs := by
  unfold trimEndOf
  rw [List.reverse_append, List.dropWhile_append_of_pos fun c member =>
    goes c (List.mem_reverse.1 member)]

theorem trimEndOf_eq_self_iff : trimEndOf q cs = cs ↔ ∀ c ∈ cs.getLast?, q c = false := by
  rw [trimEndOf_eq_rdropWhile, List.rdropWhile_eq_self_iff]
  constructor
  · intro stays c last
    have occupied : cs ≠ [] := by
      rintro rfl
      cases last
    rw [List.getLast?_eq_some_getLast occupied] at last
    cases last
    exact Bool.eq_false_iff.2 (stays occupied)
  · intro stays occupied
    rw [stays _ (List.getLast?_eq_some_getLast occupied)]
    exact Bool.false_ne_true

theorem trimEndOf_of_stay (stays : ∀ c ∈ cs, q c = false) : trimEndOf q cs = cs :=
  trimEndOf_eq_self_iff.2 fun c last => stays c (List.mem_of_getLast? last)

/-- Nothing that may go is at the end of a trimmed text. -/
theorem stays_getLast?_trimOf (q : Char → Bool) (cs : List Char) :
    ∀ c ∈ (trimOf q cs).getLast?, q c = false :=
  trimEndOf_eq_self_iff.1 (trimEndOf_trimEndOf q _)

/-- Nor is it at the front. -/
theorem stays_head?_trimOf (q : Char → Bool) (cs : List Char) :
    ∀ c ∈ (trimOf q cs).head?, q c = false := by
  intro c first
  obtain ⟨behind, whole⟩ : trimOf q cs <+: cs.dropWhile q := List.rdropWhile_prefix q _
  have first' : (cs.dropWhile q).head? = some c := by
    rw [← whole, List.head?_append, Option.mem_def.1 first]
    rfl
  have stays := List.head?_dropWhile_not q cs
  rw [first'] at stays
  exact stays

/-- Nothing is cut off where a character that stays is at either end. -/
theorem trimOf_eq_self (first : ∀ c ∈ cs.head?, q c = false)
    (last : ∀ c ∈ cs.getLast?, q c = false) : trimOf q cs = cs := by
  have front : cs.dropWhile q = cs := by
    cases cs with
    | nil => rfl
    | cons c cs => exact List.dropWhile_cons_of_neg (Bool.eq_false_iff.1 (first c rfl))
  rw [trimOf, front, trimEndOf_eq_self_iff.2 last]

/-- What is put around a text goes if all of it may go. -/
theorem trimOf_surround {xs : List Char} (front : ∀ c ∈ xs, q c = true)
    (behind : ∀ c ∈ ys, q c = true) : trimOf q (xs ++ (cs ++ ys)) = trimOf q cs := by
  rw [trimOf, List.dropWhile_append_of_pos front, List.dropWhile_append]
  split
  · rename_i gone
    rw [trimOf, List.isEmpty_iff.1 gone, List.dropWhile_eq_nil_iff.2 behind]
  · rw [trimOf, trimEndOf_append_of_all behind]

theorem isPart_trimOf (q : Char → Bool) (cs : List Char) : trimOf q cs <:+: cs :=
  (List.rdropWhile_prefix q _).isInfix.trans (List.dropWhile_suffix q).isInfix

/-! ## Fields -/

/-- The first field stands at the front, and no field has a separator in it. -/
theorem exists_splitOnP (p : α → Bool) (xs : List α) :
    ∃ first rest, xs.splitOnP p = first :: rest ∧ first <+: xs ∧
      (∀ field ∈ rest, field <:+: xs) ∧ ∀ field ∈ first :: rest, ∀ a ∈ field, p a = false := by
  induction xs with
  | nil => exact ⟨[], [], List.splitOnP_nil, List.nil_prefix, nofun, by simp⟩
  | cons a xs ih =>
      obtain ⟨first, rest, cut, front, behind, free⟩ := ih
      rw [List.splitOnP_cons_eq_if_modifyHead, cut]
      split
      · refine ⟨[], first :: rest, rfl, List.nil_prefix, ?_, ?_⟩
        · rw [List.forall_mem_cons]
          exact ⟨List.infix_cons front.isInfix,
            fun field member => List.infix_cons (behind field member)⟩
        · exact List.forall_mem_cons.2 ⟨nofun, free⟩
      · rename_i inside
        obtain ⟨free, others⟩ := List.forall_mem_cons.1 free
        refine ⟨a :: first, rest, rfl, List.cons_prefix_cons.2 ⟨rfl, front⟩,
          fun field member => List.infix_cons (behind field member), ?_⟩
        exact List.forall_mem_cons.2
          ⟨List.forall_mem_cons.2 ⟨Bool.eq_false_iff.2 inside, free⟩, others⟩

/-- A field is a part of the text without separators. -/
theorem mem_splitOnP {xs field : List α} (member : field ∈ xs.splitOnP p) :
    field <:+: xs ∧ ∀ a ∈ field, p a = false := by
  obtain ⟨first, rest, cut, prefixed, behind, free⟩ := exists_splitOnP p xs
  rw [cut] at member
  refine ⟨?_, free field member⟩
  rcases List.mem_cons.1 member with rfl | member
  · exact prefixed.isInfix
  · exact behind field member

/-! ## Blanks -/

/-- The code points of the blanks, one by one. -/
def blankCodes : List Nat :=
  [9, 10, 11, 12, 13, 32, 133, 160, 5760, 8192, 8193, 8194, 8195, 8196, 8197, 8198, 8199, 8200,
    8201, 8202, 8232, 8233, 8239, 8287, 12288]

theorem toNat_mem_blankCodes (blank : isBlank c = true) : c.toNat ∈ blankCodes := by
  simp [isBlank, blanks, CodePoints.contains, flipped] at blank
  simp [blankCodes]
  omega

/-- What holds of every blank. -/
theorem forall_blank (P : Char → Prop) (each : ∀ n ∈ blankCodes, P (Char.ofNat n))
    (blank : isBlank c = true) : P c := by
  have holds := each c.toNat (toNat_mem_blankCodes blank)
  rwa [Char.ofNat_toNat] at holds

theorem isDecimalDigit_of_isBlank : isBlank c = true → isDecimalDigit c = false :=
  forall_blank (isDecimalDigit · = false) (by decide)

theorem isDigit_of_isBlank : isBlank c = true → c.isDigit = false :=
  forall_blank (Char.isDigit · = false) (by decide)

theorem isMnemonicChar_of_isBlank : isBlank c = true → Listing.isMnemonicChar c = false :=
  forall_blank (Listing.isMnemonicChar · = false) (by decide)

theorem ne_slash_of_isBlank : isBlank c = true → c ≠ '/' :=
  forall_blank (· ≠ '/') (by decide)

end ClassMachine.Text

/-! ## Names -/

namespace ClassMachine

open Text

variable {name : String}

theorem ofList_ne_empty {cs : List Char} (nonempty : cs ≠ []) : String.ofList cs ≠ "" :=
  fun empty => nonempty (String.ofList_injective empty)

theorem mem_canonicalName {c : Char} (member : c ∈ (canonicalName name).toList) :
    c ≠ '.' ∧ (c = '/' ∨ c ∈ name.toList) := by
  rw [canonicalName, substitute, String.toList_ofList] at member
  obtain ⟨a, there, rfl⟩ := List.mem_map.1 member
  split
  · exact ⟨by decide, Or.inl rfl⟩
  · rename_i other
    exact ⟨other, Or.inr there⟩

theorem canonicalName_ne_empty (nonempty : name.toList ≠ []) : canonicalName name ≠ "" :=
  ofList_ne_empty fun empty => nonempty (List.map_eq_nil_iff.1 empty)

theorem canonicalName_eq_self (noDot : '.' ∉ name.toList) : canonicalName name = name := by
  have same : (name.toList.map fun c => if c = '.' then '/' else c) = name.toList := by
    refine (List.map_congr_left fun c member => ?_).trans (List.map_id _)
    apply if_neg
    rintro rfl
    exact noDot member
  rw [canonicalName, substitute, same, String.ofList_toList]

/-- Names are brought into canonical form part by part. -/
theorem canonicalName_append (s t : String) :
    canonicalName (s ++ t) = canonicalName s ++ canonicalName t := by
  apply String.toList_injective
  simp [canonicalName, substitute]

theorem canonicalName_canonicalName (name : String) :
    canonicalName (canonicalName name) = canonicalName name := by
  simp only [canonicalName, substitute, String.toList_ofList, List.map_map]
  refine congrArg String.ofList (List.map_congr_left fun c _ => ?_)
  by_cases dot : c = '.' <;> simp [dot]

end ClassMachine
