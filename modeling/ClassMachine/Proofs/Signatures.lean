import Mathlib.Data.List.Infix
import ClassMachine.Listing.Declaration
import ClassMachine.Proofs.Text

/-!
# Names in signatures

What comes before a signature is read is that lists of type parameters are taken out. This
goes piece by piece, each piece from the depth at which the one in front of it ends
(`stripFrom_append`). Text whose angle brackets come in pairs leaves the depth as it was, so
what is taken out of it does not depend on what stands around it (`stripGenerics_append`).
Then the name is the last word in front of the parameters (`signature?_eq`,
`signatureName?_append`).
-/

namespace ClassMachine.Listing

open Text

variable {cs rest front name params line : List Char} {depth : Nat} {c : Char}

/-! ## Type parameters -/

/-- Angle brackets that come in pairs: no prefix closes more than it opens, and as many
are closed as are opened. -/
structure Balanced (cs : List Char) : Prop where
  opened : ∀ front, front <+: cs → front.count '>' ≤ front.count '<'
  closed : cs.count '>' = cs.count '<'

instance decidableBalanced (cs : List Char) : Decidable (Balanced cs) :=
  decidable_of_iff ((∀ front ∈ cs.inits, front.count '>' ≤ front.count '<')
      ∧ cs.count '>' = cs.count '<') <| by
    simp only [List.mem_inits]
    exact ⟨fun ⟨opened, closed⟩ => ⟨opened, closed⟩, fun ⟨opened, closed⟩ => ⟨opened, closed⟩⟩

theorem balanced_of_not_mem (opening : '<' ∉ cs) (closing : '>' ∉ cs) : Balanced cs where
  opened := fun front inside => by
    rw [List.count_eq_zero_of_not_mem fun member => closing (inside.subset member)]
    exact Nat.zero_le _
  closed := by
    rw [List.count_eq_zero_of_not_mem closing, List.count_eq_zero_of_not_mem opening]

theorem stripFrom_close (depth : Nat) (cs : List Char) :
    stripFrom (depth + 1) ('>' :: cs) = stripFrom depth cs := by
  rw [stripFrom]

/-- Inside a list only brackets count. -/
theorem stripFrom_inside (opens : c ≠ '<') (closes : c ≠ '>') (depth : Nat) (cs : List Char) :
    stripFrom (depth + 1) (c :: cs) = stripFrom (depth + 1) cs := by
  rw [stripFrom]
  · exact opens
  · exact closes

/-- Outside of all lists everything stays but what opens one. -/
theorem stripFrom_outside (opens : c ≠ '<') (cs : List Char) :
    stripFrom 0 (c :: cs) = c :: stripFrom 0 cs := by
  rw [stripFrom]
  exact opens

/-- How deep in lists a text ends that begins at the given depth. -/
def depthBehind : (depth : Nat) → List Char → Nat
  | depth, [] => depth
  | depth, '<' :: cs => depthBehind (depth + 1) cs
  | depth + 1, '>' :: cs => depthBehind depth cs
  | depth, _ :: cs => depthBehind depth cs

theorem depthBehind_outside (opens : c ≠ '<') (cs : List Char) :
    depthBehind 0 (c :: cs) = depthBehind 0 cs := by
  rw [depthBehind]
  · exact opens
  · nofun

theorem depthBehind_other (opens : c ≠ '<') (closes : c ≠ '>') (depth : Nat) (cs : List Char) :
    depthBehind depth (c :: cs) = depthBehind depth cs := by
  rw [depthBehind]
  · exact opens
  · exact fun _ _ => closes

/-- Text is taken out piece by piece. -/
theorem stripFrom_append (depth : Nat) (cs rest : List Char) :
    stripFrom depth (cs ++ rest)
      = stripFrom depth cs ++ stripFrom (depthBehind depth cs) rest := by
  fun_induction stripFrom depth cs with
  | case1 depth => rfl
  | case2 depth cs ih => rw [List.cons_append, stripFrom, depthBehind, ih]
  | case3 cs depth ih => rw [List.cons_append, stripFrom_close, depthBehind, ih]
  | case4 depth c cs opens closes ih =>
      rw [List.cons_append, stripFrom_inside opens closes, depthBehind_other opens closes, ih]
  | case5 c cs opens ih =>
      rw [List.cons_append, stripFrom_outside opens, depthBehind_outside opens, ih,
        List.cons_append]

/-- At the given depth, no prefix of the text closes more than is open. -/
def OpenedFrom (depth : Nat) (cs : List Char) : Prop :=
  ∀ front, front <+: cs → front.count '>' ≤ depth + front.count '<'

namespace OpenedFrom

theorem cons_le (opened : OpenedFrom depth (c :: cs)) {front : List Char} (inside : front <+: cs) :
    (c :: front).count '>' ≤ depth + (c :: front).count '<' :=
  opened (c :: front) (List.cons_prefix_cons.2 ⟨rfl, inside⟩)

theorem of_open (opened : OpenedFrom depth ('<' :: cs)) : OpenedFrom (depth + 1) cs := by
  intro front inside
  have bound := opened.cons_le inside
  simp only [List.count_cons_self, List.count_cons_of_ne (by decide : '<' ≠ '>')] at bound
  omega

/-- A bracket closes one that is open, so the depth in front of it is not zero. -/
theorem of_close (opened : OpenedFrom depth ('>' :: cs)) :
    ∃ outer, depth = outer + 1 ∧ OpenedFrom outer cs := by
  have first := opened.cons_le List.nil_prefix
  simp only [List.count_singleton_self, List.count_cons_of_ne (by decide : '>' ≠ '<'),
    List.count_nil] at first
  refine ⟨depth - 1, by omega, fun front inside => ?_⟩
  have bound := opened.cons_le inside
  simp only [List.count_cons_self, List.count_cons_of_ne (by decide : '>' ≠ '<')] at bound
  omega

theorem of_other (opened : OpenedFrom depth (c :: cs)) (opens : c ≠ '<') (closes : c ≠ '>') :
    OpenedFrom depth cs := by
  intro front inside
  have bound := opened.cons_le inside
  rwa [List.count_cons_of_ne opens, List.count_cons_of_ne closes] at bound

theorem depthBehind_eq (opened : OpenedFrom depth cs) :
    depthBehind depth cs = depth + cs.count '<' - cs.count '>' := by
  induction cs generalizing depth with
  | nil => rfl
  | cons c cs ih =>
      by_cases opens : c = '<'
      · subst opens
        rw [depthBehind, ih opened.of_open, List.count_cons_self,
          List.count_cons_of_ne (by decide : '<' ≠ '>'), Nat.add_right_comm, Nat.add_assoc depth]
      · by_cases closes : c = '>'
        · subst closes
          obtain ⟨outer, rfl, within⟩ := opened.of_close
          rw [depthBehind, ih within, List.count_cons_self,
            List.count_cons_of_ne (by decide : '>' ≠ '<'), Nat.add_right_comm,
            Nat.add_sub_add_right]
        · rw [depthBehind_other opens closes, ih (opened.of_other opens closes),
            List.count_cons_of_ne opens, List.count_cons_of_ne closes]

/-- Inside a list that is not closed nothing stays. -/
theorem stripFrom_eq_nil (opened : OpenedFrom depth cs) : stripFrom (depth + 1) cs = [] := by
  induction cs generalizing depth with
  | nil => rfl
  | cons c cs ih =>
      by_cases opens : c = '<'
      · subst opens
        rw [stripFrom, ih opened.of_open]
      · by_cases closes : c = '>'
        · subst closes
          obtain ⟨outer, rfl, within⟩ := opened.of_close
          rw [stripFrom_close, ih within]
        · rw [stripFrom_inside opens closes, ih (opened.of_other opens closes)]

end OpenedFrom

namespace Balanced

theorem openedFrom (balanced : Balanced cs) (depth : Nat) : OpenedFrom depth cs :=
  fun front inside => (balanced.opened front inside).trans (Nat.le_add_left _ _)

/-- Balanced text ends at the depth at which it begins. -/
theorem depthBehind_eq (balanced : Balanced cs) (depth : Nat) : depthBehind depth cs = depth := by
  rw [(balanced.openedFrom depth).depthBehind_eq, balanced.closed, Nat.add_sub_cancel]

theorem stripFrom_eq_nil (balanced : Balanced cs) (depth : Nat) : stripFrom (depth + 1) cs = [] :=
  (balanced.openedFrom depth).stripFrom_eq_nil

end Balanced

/-- What is taken out of balanced text does not depend on what stands behind it. -/
theorem stripGenerics_append (balanced : Balanced cs) (rest : List Char) :
    stripGenerics (cs ++ rest) = stripGenerics cs ++ stripGenerics rest := by
  rw [stripGenerics, stripFrom_append, balanced.depthBehind_eq]
  rfl

theorem stripGenerics_eq_self (none : '<' ∉ cs) : stripGenerics cs = cs := by
  unfold stripGenerics
  induction cs with
  | nil => rfl
  | cons c cs ih =>
      obtain ⟨first, rest⟩ := not_or.1 (mt List.mem_cons.2 none)
      rw [stripFrom_outside (Ne.symm first), ih rest]

/-- What is left has been there before. -/
theorem mem_of_mem_stripFrom (member : c ∈ stripFrom depth cs) : c ∈ cs := by
  fun_induction stripFrom depth cs with
  | case1 => exact member
  | case2 depth cs ih => exact List.mem_cons_of_mem _ (ih member)
  | case3 cs depth ih => exact List.mem_cons_of_mem _ (ih member)
  | case4 depth a cs _ _ ih => exact List.mem_cons_of_mem _ (ih member)
  | case5 a cs _ ih =>
      rcases List.mem_cons.1 member with rfl | later
      · exact List.mem_cons_self
      · exact List.mem_cons_of_mem _ (ih later)

/-- No bracket that opens a list is left. -/
theorem notMem_stripFrom (depth : Nat) (cs : List Char) : '<' ∉ stripFrom depth cs := by
  fun_induction stripFrom depth cs with
  | case1 => exact List.not_mem_nil
  | case2 depth cs ih => exact ih
  | case3 cs depth ih => exact ih
  | case4 depth c cs _ _ ih => exact ih
  | case5 c cs opens ih => exact List.not_mem_cons_of_ne_of_not_mem (Ne.symm opens) ih

/-- Text without such a bracket is all that stays as it is. -/
theorem stripGenerics_eq_self_iff : stripGenerics cs = cs ↔ '<' ∉ cs :=
  ⟨fun same => same ▸ notMem_stripFrom 0 cs, stripGenerics_eq_self⟩

/-! ## Words of a signature -/

/-- The name is what stands in front of the first parenthesis. -/
theorem signature?_eq (stripped : stripGenerics line = front ++ '(' :: (params ++ [')', ';']))
    (noOpening : '(' ∉ front) (noClosing : ')' ∉ params) :
    signature? line = signatureName? front := by
  have ending : endsSignature [';'] = true := by decide
  rw [signature?, stripped, cutFirst?_append noOpening]
  change (cutFirst? ')' (params ++ ')' :: [';']) >>= _) = _
  rw [cutFirst?_append noClosing]
  change (if endsSignature [';'] = true then signatureName? front else none) = _
  rw [if_pos ending]

/-- The name is the last word. In front of the first word there must be no blank. -/
theorem signatureName?_append (ends : ∀ c ∈ front.getLast?, isBlank c = true)
    (nonempty : name ≠ []) (solid : ∀ c ∈ name, isBlank c = false) :
    signatureName? (front ++ name)
      = if front.head?.any isBlank then none else some name := by
  -- From behind, the word ends at the blank before it.
  have stops : front.reverse.takeWhile (fun c => !isBlank c) = [] := by
    cases reversed : front.reverse with
    | nil => rfl
    | cons c cs =>
        have blank := ends c (by rw [← List.head?_reverse, reversed]; rfl)
        exact List.takeWhile_cons_of_neg (by simp [blank])
  have word : ((front ++ name).reverse.takeWhile fun c => !isBlank c).reverse = name := by
    have inside : ∀ c ∈ name.reverse, (!isBlank c) = true := fun c member => by
      rw [solid c (List.mem_reverse.1 member)]
      rfl
    rw [List.reverse_append, List.takeWhile_append_of_pos inside, stops, List.append_nil,
      List.reverse_reverse]
  have first : (front ++ name).head?.any isBlank = front.head?.any isBlank := by
    cases front with
    | nil =>
        cases name with
        | nil => rfl
        | cons c cs => exact solid c List.mem_cons_self
    | cons c cs => rfl
  rw [signatureName?, word, first]
  simp [nonempty]

/-! ## The class initializer -/

theorem dropFront?_eq_some {front rest : List Char} (cut : dropFront? front cs = some rest) :
    cs = front ++ rest := by
  induction front generalizing cs with
  | nil =>
      cases cut
      rfl
  | cons f front ih =>
      cases cs with
      | nil => cases cut
      | cons c cs =>
          rw [dropFront?] at cut
          split at cut
          · rename_i same
            rw [same, ih cut]
            rfl
          · cases cut

theorem mem_dropWhile {p : Char → Bool} {c : Char} (member : c ∈ cs) (stays : p c = false) :
    c ∈ cs.dropWhile p := by
  rw [← List.takeWhile_append_dropWhile (p := p) (l := cs)] at member
  rcases List.mem_append.1 member with gone | kept
  · have goes := List.mem_takeWhile_imp gone
    rw [stays] at goes
    cases goes
  · exact kept

/-- No other characters than these and blanks declare the class initializer. -/
theorem isClassInitializer_eq_false_of_mem (foreign : c ∈ cs) (solid : isBlank c = false)
    (other : c ∉ "static".toList ++ ['\x7b', '\x7d', ';']) : isClassInitializer cs = false := by
  obtain ⟨noWord, noBrace, noEnd⟩ : c ∉ "static".toList ∧ c ≠ '\x7b' ∧ c ∉ ['\x7d', ';'] := by
    rw [List.mem_append, List.mem_cons, not_or, not_or] at other
    exact other
  unfold isClassInitializer
  split
  · rfl
  · rename_i behind cut
    split
    · rename_i inside brace
      apply beq_false_of_ne
      intro closing
      rw [dropFront?_eq_some cut] at foreign
      have foreign := mem_dropWhile ((List.mem_append.1 foreign).resolve_left noWord) solid
      rw [brace] at foreign
      have foreign := mem_dropWhile ((List.mem_cons.1 foreign).resolve_left noBrace) solid
      rw [closing] at foreign
      exact noEnd foreign
    · rfl

/-- The class initializer is declared without parentheses. -/
theorem isClassInitializer_eq_false (declared : '(' ∈ cs) : isClassInitializer cs = false :=
  isClassInitializer_eq_false_of_mem declared (by decide) (by decide)

end ClassMachine.Listing
