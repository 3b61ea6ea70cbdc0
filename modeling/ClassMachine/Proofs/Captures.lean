import ClassMachine.Proofs.Concatenation

/-!
# Lines and the methods they declare

The signature that a method is declared by gives its name. An open method keeps the name
and the line of its signature (`Scan.Opened`), and once it has code its name stays at its
place among the methods of the class (`Feeds.names`). So a line captures a method under the
name that it declares (`Captures.name`), and every method is captured by a line
(`exists_captures`).
-/

namespace ClassMachine.Listing

open Text

variable {header header' : Header} {methods methods' : List MethodCode} {stage stage' : Stage}
  {m m' : Pending} {scan scan' : Scan} {number : Nat} {line : List Char}
  {front : List (List Char)} {c : ClassCode} {method : MethodCode}

/-! ## Names that a scan has read -/

/-- The name of an open method, if it has code. -/
def Pending.named? (m : Pending) : Option String :=
  if m.latest = [] then none else some m.name

/-- The names of the methods that have code, in order. -/
def Scan.names : Scan → List String
  | .start => []
  | .inside _ methods stage =>
    methods.map MethodCode.name ++ (stage.pending?.bind Pending.named?).toList

theorem Pending.map_name_close {closed : Option MethodCode} (closing : m.close = .ok closed) :
    closed.toList.map MethodCode.name = m.named?.toList := by
  rcases Pending.close_eq_ok closing with ⟨empty, rfl⟩ |
    ⟨method, descriptor, occupied, rfl, name, _, _⟩
  · rw [named?, if_pos empty]
    rfl
  · rw [named?, if_neg occupied, ← name]
    rfl

/-- Everything that a line can do to the names: a method gets its place with its first
instruction. -/
theorem Feeds.names (feeds : Feeds number scan scan') :
    scan'.names = scan.names ∨ ∃ header methods stage m, scan' = .inside header methods stage ∧
      stage.pending? = some m ∧ m.latest ≠ [] ∧ scan.names.length = methods.length ∧
      scan'.names = scan.names ++ [m.name] := by
  cases feeds with
  | skip | header | opens | describes | starts | measures => exact Or.inl rfl
  | @adds header methods m parts offset =>
      by_cases empty : m.latest = []
      · right
        refine ⟨_, _, _, _, rfl, rfl, List.cons_ne_nil _ _, ?_, ?_⟩ <;>
          simp [Scan.names, Stage.pending?, Pending.named?, empty]
      · left
        simp [Scan.names, Stage.pending?, Pending.named?, empty]
  | closes pending closing =>
      left
      rw [Scan.names, Scan.names, pending, List.map_append, Pending.map_name_close closing]
      exact List.append_nil _
  | reopens name closing =>
      left
      simp [Scan.names, Stage.pending?, Pending.named?, Pending.map_name_close closing]

theorem Scan.names_feedLines (fed : scan.feedLines number front = .ok scan') :
    scan.names <+: scan'.names := by
  refine Scan.invariant_feedLines (I := fun scan' => scan.names <+: scan'.names)
    (fun {number scan₁ scan₂} feeds earlier => earlier.trans ?_) List.prefix_rfl fed
  rcases feeds.names with same | ⟨_, _, _, _, _, _, _, _, more⟩
  · exact same ▸ List.prefix_rfl
  · rw [more]
    exact List.prefix_append _ _

theorem Scan.names_finish (finished : scan.finish = .ok c) :
    c.methods.map MethodCode.name = scan.names := by
  obtain ⟨header, methods, stage, rfl, _, _, closing⟩ := Scan.finish_eq_ok finished
  rcases Stage.close_cases closing with ⟨rfl, same⟩ | ⟨m, closed, pending, ended, more⟩
  · simp [names, Stage.pending?, same]
  · simp [names, pending, more, Pending.map_name_close ended]

/-- The open method gets the next place behind the complete ones. -/
theorem Scan.name_of_getElem? (pending : stage.pending? = some m) (occupied : m.latest ≠ [])
    (fed : (inside header methods stage).feedLines number front = .ok scan)
    (finished : scan.finish = .ok c) (found : c.methods[methods.length]? = some method) :
    method.name = m.name := by
  obtain ⟨behind, split⟩ := Scan.names_feedLines fed
  have place : (c.methods.map MethodCode.name)[methods.length]? = some m.name := by
    rw [Scan.names_finish finished, ← split, names, pending, Option.bind_some, Pending.named?,
      if_neg occupied, Option.toList_some, List.append_assoc,
      List.getElem?_append_right (List.length_map _).le, List.length_map, Nat.sub_self]
    rfl
  rw [List.getElem?_map, found] at place
  exact Option.some.inj place

/-! ## Lines that open a method -/

/-- The open method has the name that its line declares. -/
def Scan.Opened (front : List (List Char)) : Scan → Prop
  | .start => True
  | .inside header _ stage => ∀ m, stage.pending? = some m →
      ∃ i raw, m.line = i + 1 ∧ front[i]? = some raw ∧
        methodName? header.name (trim raw) = some m.name

theorem pending?_signatureLine (pending : (signatureLine header number line).pending? = some m) :
    m.line = number ∧ methodName? header.name line = some m.name := by
  unfold signatureLine at pending
  split at pending
  · rename_i declares
    cases pending
    exact ⟨rfl, declares⟩
  · cases pending

/-- What can be open behind a line: a method that was open before, or the one that the
line declares. -/
def OpenBehind (header : Header) (stage : Stage) (number : Nat) (line : List Char)
    (m' : Pending) : Prop :=
  (∃ m, stage.pending? = some m ∧ m'.name = m.name ∧ m'.line = m.line) ∨
    (m'.line = number ∧ methodName? header.name line = some m'.name)

theorem openBehind_metadataLine
    (fed : metadataLine header methods m number line = .ok (.inside header' methods' stage'))
    (pending : stage'.pending? = some m') :
    header' = header ∧ OpenBehind header (.metadata m) number line m' := by
  unfold metadataLine at fed
  split at fed
  · obtain ⟨_, _, done⟩ := bind_eq_ok.1 fed
    cases done
    cases pending
  · split at fed
    · cases fed
      cases pending
      exact ⟨rfl, Or.inl ⟨m, rfl, rfl, rfl⟩⟩
    · split at fed
      · cases fed
        cases pending
        exact ⟨rfl, Or.inl ⟨m, rfl, rfl, rfl⟩⟩
      · split at fed
        · cases fed
          exact ⟨rfl, Or.inl ⟨m', pending, rfl, rfl⟩⟩
        · split at fed
          · obtain ⟨_, _, done⟩ := bind_eq_ok.1 fed
            cases done
            exact ⟨rfl, Or.inr (pending?_signatureLine pending)⟩
          · cases fed
            exact ⟨rfl, Or.inl ⟨m', pending, rfl, rfl⟩⟩

theorem openBehind_codeLine
    (fed : codeLine header methods m number line = .ok (.inside header' methods' stage'))
    (pending : stage'.pending? = some m') :
    header' = header ∧ OpenBehind header (.code m) number line m' := by
  cases feeds_of_codeLine fed with
  | skip => exact ⟨rfl, Or.inl ⟨m', pending, rfl, rfl⟩⟩
  | measures | adds =>
      cases pending
      exact ⟨rfl, Or.inl ⟨m, rfl, rfl, rfl⟩⟩
  | closes => cases pending

theorem Scan.openBehind_feed
    (fed : (inside header methods stage).feed number line = .ok (.inside header' methods' stage'))
    (pending : stage'.pending? = some m') :
    header' = header ∧ OpenBehind header stage number line m' := by
  cases stage with
  | signature =>
      cases fed
      exact ⟨rfl, Or.inr (pending?_signatureLine pending)⟩
  | metadata m => exact openBehind_metadataLine fed pending
  | code m => exact openBehind_codeLine fed pending

theorem Scan.Opened.feed {raw : List Char} (opened : scan.Opened front)
    (fed : scan.feed (front.length + 1) (trim raw) = .ok scan') :
    scan'.Opened (front ++ [raw]) := by
  cases scan' with
  | start => trivial
  | inside header' methods' stage' =>
      intro m' pending
      cases scan with
      | start =>
          cases feeds_of_feed fed with
          | header => cases pending
      | inside header methods stage =>
          obtain ⟨rfl, ⟨m, before, name, place⟩ | ⟨here, declares⟩⟩ :=
            Scan.openBehind_feed fed pending
          · obtain ⟨i, raw', line, there, declares⟩ := opened m before
            have inside : i < front.length := (List.getElem?_eq_some_iff.1 there).1
            refine ⟨i, raw', place.trans line, ?_, name ▸ declares⟩
            rw [List.getElem?_append_left inside, there]
          · refine ⟨front.length, raw, here, ?_, declares⟩
            exact List.getElem?_concat_length

theorem Scan.Opened.feedLines {behind : List (List Char)} (opened : scan.Opened front)
    (fed : scan.feedLines (front.length + 1) behind = .ok scan') :
    scan'.Opened (front ++ behind) := by
  induction behind generalizing front scan with
  | nil =>
      cases fed
      rwa [List.append_nil]
  | cons raw behind ih =>
      obtain ⟨scan₁, first, rest⟩ := bind_eq_ok.1 fed
      have next := ih (opened.feed first) (by rwa [List.length_append])
      rwa [List.append_assoc] at next

/-! ## What a line captures -/

/-- The line of a number captures the method of a class: the method that the line opened got
code while it was open, and so the next place behind those that were complete. -/
def Captures (text : String) (c : ClassCode) (number : Nat) (method : MethodCode) : Prop :=
  ∃ front header methods stage m, front <+: lines text.toList ∧
    Scan.start.feedLines 1 front = .ok (.inside header methods stage) ∧
    stage.pending? = some m ∧ m.line = number ∧ m.latest ≠ [] ∧
    c.methods[methods.length]? = some method

/-- A line captures a method under the name that it declares. -/
theorem Captures.name {text : String} (captured : Captures text c number method)
    (parsed : parse text = .ok c) :
    ∃ i raw, number = i + 1 ∧ (lines text.toList)[i]? = some raw ∧
      methodName? c.name (trim raw) = some method.name := by
  obtain ⟨front, header, methods, stage, m, ⟨behind, split⟩, read, pending, rfl, occupied,
    found⟩ := captured
  obtain ⟨scan, fed, finished⟩ := bind_eq_ok.1 parsed
  obtain ⟨header', methods', stage', rfl, className, -, -⟩ := Scan.finish_eq_ok finished
  rw [← split, Scan.feedLines_append, read] at fed
  have later : Scan.feedLines (1 + front.length) behind (.inside header methods stage)
      = .ok (.inside header' methods' stage') := fed
  -- The header stays, and so do the names that have been read.
  have heading : header' = header := by
    have same := Scan.heading?_feedLines later
    exact Option.some.inj same
  have start : Scan.start.Opened [] := trivial
  obtain ⟨i, raw, line, there, declares⟩ := start.feedLines read m pending
  refine ⟨i, raw, line, ?_, ?_⟩
  · have inside : i < front.length := (List.getElem?_eq_some_iff.1 there).1
    rw [← split, List.getElem?_append_left inside]
    exact there
  · rw [className, heading, Scan.name_of_getElem? pending occupied later finished found]
    exact declares

/-- A method with a place was open behind some of the lines. -/
theorem Scan.exists_open {k : Nat} (fed : Scan.start.feedLines 1 front = .ok scan)
    (below : k < scan.names.length) :
    ∃ before header methods stage m, before <+: front ∧
      Scan.start.feedLines 1 before = .ok (.inside header methods stage) ∧
      stage.pending? = some m ∧ m.latest ≠ [] ∧ methods.length = k := by
  -- By the lines from behind: the place was there before the last line, or this line fills it.
  induction front using List.reverseRecOn generalizing scan with
  | nil =>
      cases fed
      cases below
  | append_singleton front raw ih =>
      have whole := fed
      rw [Scan.feedLines_append] at fed
      obtain ⟨scan₁, read, last⟩ := bind_eq_ok.1 fed
      obtain ⟨_, last, done⟩ := bind_eq_ok.1 last
      cases done
      have earlier (below : k < scan₁.names.length) :
          ∃ before header methods stage m, before <+: front ++ [raw] ∧
            Scan.start.feedLines 1 before = .ok (.inside header methods stage) ∧
            stage.pending? = some m ∧ m.latest ≠ [] ∧ methods.length = k := by
        obtain ⟨before, header, methods, stage, m, inside, opened⟩ := ih read below
        exact ⟨before, header, methods, stage, m, inside.trans (List.prefix_append _ _), opened⟩
      rcases (feeds_of_feed last).names with
        same | ⟨header, methods, stage, m, rfl, pending, occupied, length, more⟩
      · exact earlier (same ▸ below)
      · rw [more, List.length_append, List.length_singleton] at below
        rcases Nat.lt_succ_iff_lt_or_eq.1 below with below | rfl
        · exact earlier below
        · exact ⟨front ++ [raw], header, methods, stage, m, List.prefix_rfl, whole, pending,
            occupied, length.symm⟩

/-- Every method of a class is captured by a line. -/
theorem exists_captures {text : String} {k : Nat} (parsed : parse text = .ok c)
    (found : c.methods[k]? = some method) : ∃ number, Captures text c number method := by
  obtain ⟨scan, fed, finished⟩ := bind_eq_ok.1 parsed
  have below : k < scan.names.length := by
    rw [← Scan.names_finish finished, List.length_map]
    exact (List.getElem?_eq_some_iff.1 found).1
  obtain ⟨front, header, methods, stage, m, inside, read, pending, occupied, rfl⟩ :=
    Scan.exists_open fed below
  exact ⟨m.line, front, header, methods, stage, m, inside, read, pending, rfl, occupied, found⟩

end ClassMachine.Listing
