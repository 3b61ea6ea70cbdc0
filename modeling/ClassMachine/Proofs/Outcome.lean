import Mathlib.Data.List.Forall2

/-!
# Computations that may fail

Inversion of the sequencing of computations in `Except`: a sequence that
succeeds is made of parts that succeed, and one that fails has a part that
fails (`FailsWith`). A traversal of a list succeeds if and only if every element
does (`mapM_eq_ok_iff`), and fails at the first one that does not
(`first_of_mapM_eq_error`).
-/

namespace ClassMachine

variable {ε α β : Type}

theorem bind_eq_ok {x : Except ε α} {f : α → Except ε β} {b : β} :
    x >>= f = .ok b ↔ ∃ a, x = .ok a ∧ f a = .ok b := by
  cases x with
  | ok a => simp [bind, Except.bind]
  | error cause => simp [bind, Except.bind]

theorem bind_eq_error {x : Except ε α} {f : α → Except ε β} {cause : ε} :
    x >>= f = .error cause ↔ x = .error cause ∨ ∃ a, x = .ok a ∧ f a = .error cause := by
  cases x with
  | ok a => simp [bind, Except.bind]
  | error cause => simp [bind, Except.bind]

theorem eq_ok_of_toOption {x : Except ε α} {a : α} (found : x.toOption = some a) : x = .ok a := by
  cases x with
  | ok b =>
      cases found
      rfl
  | error cause => cases found

/-! ## Lists -/

/-- What every part of a fold keeps, the fold keeps. -/
theorem foldlM_invariant {f : β → α → Except ε β} {I : β → Prop} {xs : List α} {b b' : β}
    (start : I b) (keep : ∀ x ∈ xs, ∀ b b', I b → f b x = .ok b' → I b')
    (folded : xs.foldlM f b = .ok b') : I b' := by
  induction xs generalizing b with
  | nil =>
      cases folded
      exact start
  | cons x xs ih =>
      rw [List.foldlM_cons] at folded
      obtain ⟨b₁, first, rest⟩ := bind_eq_ok.1 folded
      obtain ⟨here, later⟩ := List.forall_mem_cons.1 keep
      exact ih (here b b₁ start first) later rest

/-- A fold fails at the first element that makes it fail. -/
theorem foldlM_eq_error_iff {f : β → α → Except ε β} {xs : List α} {b : β} {cause : ε} :
    xs.foldlM f b = .error cause ↔ ∃ front x behind b', xs = front ++ x :: behind ∧
      front.foldlM f b = .ok b' ∧ f b' x = .error cause := by
  induction xs generalizing b with
  | nil =>
      refine ⟨nofun, ?_⟩
      rintro ⟨front, x, behind, b', split, _⟩
      cases front <;> cases split
  | cons x xs ih =>
      rw [List.foldlM_cons, bind_eq_error]
      constructor
      · rintro (here | ⟨b₁, first, later⟩)
        · exact ⟨[], x, xs, b, rfl, rfl, here⟩
        · obtain ⟨front, y, behind, b', rfl, folded, fails⟩ := ih.1 later
          exact ⟨x :: front, y, behind, b', rfl, bind_eq_ok.2 ⟨b₁, first, folded⟩, fails⟩
      · rintro ⟨front, y, behind, b', split, folded, fails⟩
        cases front with
        | nil =>
            cases split
            cases folded
            exact Or.inl fails
        | cons z front =>
            cases split
            obtain ⟨b₁, first, folded⟩ := bind_eq_ok.1 folded
            exact Or.inr ⟨b₁, first, ih.2 ⟨front, y, behind, b', rfl, folded, fails⟩⟩

section Traversal

variable {f : α → Except ε β} {x : α} {xs : List α} {y : β} {ys : List β}

theorem mapM_cons_eq_ok : (x :: xs).mapM f = .ok ys ↔
    ∃ y rest, f x = .ok y ∧ xs.mapM f = .ok rest ∧ ys = y :: rest := by
  rw [List.mapM_cons]
  constructor
  · intro mapped
    obtain ⟨y, first, mapped⟩ := bind_eq_ok.1 mapped
    obtain ⟨rest, others, done⟩ := bind_eq_ok.1 mapped
    cases done
    exact ⟨y, rest, first, others, rfl⟩
  · rintro ⟨y, rest, first, others, rfl⟩
    exact bind_eq_ok.2 ⟨y, first, bind_eq_ok.2 ⟨rest, others, rfl⟩⟩

theorem length_of_mapM (mapped : xs.mapM f = .ok ys) : ys.length = xs.length := by
  induction xs generalizing ys with
  | nil =>
      cases mapped
      rfl
  | cons x xs ih =>
      obtain ⟨y, rest, _, others, rfl⟩ := mapM_cons_eq_ok.1 mapped
      rw [List.length_cons, List.length_cons, ih others]

/-- Every result of a traversal is the result of the element at its place. -/
theorem getElem?_of_mapM {i : Nat} (mapped : xs.mapM f = .ok ys) (found : ys[i]? = some y) :
    ∃ x, xs[i]? = some x ∧ f x = .ok y := by
  induction xs generalizing ys i with
  | nil =>
      cases mapped
      cases found
  | cons x xs ih =>
      obtain ⟨y', rest, first, others, rfl⟩ := mapM_cons_eq_ok.1 mapped
      cases i with
      | zero =>
          cases found
          exact ⟨x, rfl, first⟩
      | succ i => exact ih others found

/-- Every element of a traversed list has a result at its place. -/
theorem exists_getElem?_of_mapM {i : Nat} (mapped : xs.mapM f = .ok ys) (found : xs[i]? = some x) :
    ∃ y, ys[i]? = some y ∧ f x = .ok y := by
  obtain ⟨inside, here⟩ := List.getElem?_eq_some_iff.1 found
  have bound : i < ys.length := (length_of_mapM mapped).symm ▸ inside
  have place : ys[i]? = some ys[i] := List.getElem?_eq_getElem bound
  obtain ⟨x', found', done⟩ := getElem?_of_mapM mapped place
  rw [found] at found'
  cases found'
  exact ⟨ys[i], place, done⟩

theorem mem_of_mapM (mapped : xs.mapM f = .ok ys) (member : y ∈ ys) :
    ∃ x ∈ xs, f x = .ok y := by
  obtain ⟨i, found⟩ := List.mem_iff_getElem?.1 member
  obtain ⟨x, source, done⟩ := getElem?_of_mapM mapped found
  exact ⟨x, List.mem_of_getElem? source, done⟩

/-- A traversal gives the results of the elements, one for each. -/
theorem mapM_eq_ok_iff : xs.mapM f = .ok ys ↔ List.Forall₂ (fun x y => f x = .ok y) xs ys := by
  induction xs generalizing ys with
  | nil =>
      constructor
      · intro mapped
        cases mapped
        exact .nil
      · intro pairs
        cases pairs
        rfl
  | cons x xs ih =>
      rw [mapM_cons_eq_ok, List.forall₂_cons_left_iff]
      constructor
      · rintro ⟨y, rest, first, others, rfl⟩
        exact ⟨y, rest, first, ih.1 others, rfl⟩
      · rintro ⟨y, rest, first, others, rfl⟩
        exact ⟨y, rest, first, ih.2 others, rfl⟩

theorem mapM_isOk_iff : (∃ ys, xs.mapM f = .ok ys) ↔ ∀ x ∈ xs, ∃ y, f x = .ok y := by
  induction xs with
  | nil => exact ⟨fun _ => nofun, fun _ => ⟨[], rfl⟩⟩
  | cons x xs ih =>
      rw [List.forall_mem_cons, ← ih]
      constructor
      · rintro ⟨ys, mapped⟩
        obtain ⟨y, rest, first, others, rfl⟩ := mapM_cons_eq_ok.1 mapped
        exact ⟨⟨y, first⟩, rest, others⟩
      · rintro ⟨⟨y, first⟩, rest, others⟩
        exact ⟨y :: rest, mapM_cons_eq_ok.2 ⟨y, rest, first, others, rfl⟩⟩

/-- A traversal that fails does so at the first element that fails. -/
theorem first_of_mapM_eq_error {cause : ε} (failed : xs.mapM f = .error cause) :
    ∃ before x after, xs = before ++ x :: after ∧ (∀ x ∈ before, ∃ y, f x = .ok y) ∧
      f x = .error cause := by
  induction xs with
  | nil => cases failed
  | cons x xs ih =>
      rw [List.mapM_cons] at failed
      rcases bind_eq_error.1 failed with first | ⟨y, first, failed⟩
      · exact ⟨[], x, xs, rfl, nofun, first⟩
      · rcases bind_eq_error.1 failed with others | ⟨_, _, done⟩
        · obtain ⟨before, x', after, rfl, succeed, fails⟩ := ih others
          exact ⟨x :: before, x', after, rfl, List.forall_mem_cons.2 ⟨⟨y, first⟩, succeed⟩, fails⟩
        · cases done

end Traversal

/-! ## Failure -/

/-- Whatever the computation fails with has the property. -/
def FailsWith (P : ε → Prop) (x : Except ε α) : Prop :=
  ∀ cause, x = .error cause → P cause

namespace FailsWith

variable {P Q : ε → Prop}

@[simp]
theorem ok (a : α) : FailsWith P (.ok a) :=
  nofun

@[simp]
theorem pure (a : α) : FailsWith P (Pure.pure a : Except ε α) :=
  nofun

@[simp]
theorem error_iff {cause : ε} : FailsWith P (.error cause : Except ε α) ↔ P cause := by
  refine ⟨fun fails => fails cause rfl, fun holds cause' eq => ?_⟩
  cases eq
  exact holds

@[simp]
theorem throw_iff {cause : ε} : FailsWith P (throw cause : Except ε α) ↔ P cause :=
  error_iff

@[simp]
theorem bind_iff {x : Except ε α} {f : α → Except ε β} :
    FailsWith P (x >>= f) ↔ FailsWith P x ∧ ∀ a, x = .ok a → FailsWith P (f a) := by
  cases x with
  | ok a => simp [bind, Except.bind]
  | error cause => simp [bind, Except.bind]

@[simp]
theorem map_iff {x : Except ε α} {f : α → β} : FailsWith P (f <$> x) ↔ FailsWith P x := by
  cases x with
  | ok a => simp [Functor.map, Except.map]
  | error cause => simp [Functor.map, Except.map]

@[simp]
theorem ite_iff {c : Prop} [Decidable c] {x y : Except ε α} :
    FailsWith P (if c then x else y) ↔ (c → FailsWith P x) ∧ (¬ c → FailsWith P y) := by
  split <;> simp [*]

theorem mapError {δ : Type} {x : Except δ α} {f : δ → ε} (holds : ∀ cause, P (f cause)) :
    FailsWith P (x.mapError f) := by
  cases x with
  | ok a => exact .ok a
  | error cause => exact error_iff.2 (holds cause)

theorem mono {x : Except ε α} (fails : FailsWith P x) (weaken : ∀ {cause}, P cause → Q cause) :
    FailsWith Q x :=
  fun cause eq => weaken (fails cause eq)

end FailsWith

end ClassMachine
