import Mathlib.Data.List.Sort
import Mathlib.Data.String.Basic
import ClassMachine.Proofs.LastDefinition
import ClassMachine.Sources

/-!
# Sources are read by name

Reading a source gives one class for each name, that of the last listing under it, in
ascending order of the names, or else the failure of the least name whose listing fails
(`Sources.read_lastTexts`). Nothing but the last listings decides it, so sources that
agree on these are read alike, whatever was inserted before them and in whatever order.

The names are a list that is ascending and has the inserted names as its elements, and
there is only one such list (`Sources.names_eq`). What remains is the traversal of it.
-/

namespace ClassMachine.Sources

variable {listings : List (String × String)} {name text : String} {names : List String}
  {classes : List ClassCode}

/-! ## The last listing of a name -/

/-- The text is the last one that was inserted under the name. -/
def IsLastText (listings : List (String × String)) (name text : String) : Prop :=
  ∃ front, IsLast (·.1 = name) listings front (name, text)

theorem exists_isLastText_iff :
    (∃ text, IsLastText listings name text) ↔ name ∈ listings.map Prod.fst := by
  rw [List.mem_map]
  constructor
  · rintro ⟨text, front, behind, rfl, _⟩
    exact ⟨(name, text), List.mem_append_right _ List.mem_cons_self, rfl⟩
  · intro occurs
    obtain ⟨front, ⟨name, text⟩, behind, split, rfl, others⟩ := exists_isLast occurs
    exact ⟨text, front, behind, split, rfl, others⟩

/-- Insertions leave the names that they do not mention. -/
theorem find?_foldl_of_ne (others : ∀ listing ∈ listings, listing.1 ≠ name) (s : Sources) :
    (listings.foldl (fun s (name, text) => s.insert name text) s).listings.find? name
      = s.listings.find? name := by
  induction listings generalizing s with
  | nil => rfl
  | cons listing listings ih =>
      obtain ⟨here, later⟩ := List.forall_mem_cons.1 others
      rw [List.foldl_cons, ih later]
      exact Table.find?_insert_of_ne _ _ (Ne.symm here)

theorem find?_of_isLastText (last : IsLastText listings name text) :
    (ofList listings).listings.find? name = some text := by
  obtain ⟨front, behind, rfl, _, others⟩ := last
  rw [ofList, List.foldl_append, List.foldl_cons, find?_foldl_of_ne others]
  exact Table.find?_insert_self _ _ _

/-- A source holds the last listing of each name. -/
theorem find?_ofList_iff :
    (ofList listings).listings.find? name = some text ↔ IsLastText listings name text := by
  refine ⟨fun found => ?_, find?_of_isLastText⟩
  by_cases named : name ∈ listings.map Prod.fst
  · obtain ⟨text', last⟩ := exists_isLastText_iff.2 named
    cases found.symm.trans (find?_of_isLastText last)
    exact last
  · have others : ∀ listing ∈ listings, listing.1 ≠ name :=
      fun listing member same => named (List.mem_map.2 ⟨listing, member, same⟩)
    rw [ofList, find?_foldl_of_ne others] at found
    cases found

/-! ## Names -/

theorem mem_names_ofList : name ∈ (ofList listings).names ↔ name ∈ listings.map Prod.fst := by
  rw [Sources.names, ascending, List.mem_mergeSort, Table.mem_keys_iff, ← exists_isLastText_iff]
  simp only [find?_ofList_iff]

/-- The names ascend, so none comes twice. -/
theorem pairwise_names (s : Sources) : s.names.Pairwise (· < ·) := by
  have sorted : s.names.Pairwise fun a b => decide (a ≤ b) = true := by
    refine List.pairwise_mergeSort (fun a b c first second => ?_) (fun a b => ?_) _
    · rw [decide_eq_true_iff] at first second ⊢
      exact le_trans first second
    · rw [Bool.or_eq_true, decide_eq_true_iff, decide_eq_true_iff]
      exact le_total a b
  have distinct : s.names.Nodup := (List.mergeSort_perm _ _).nodup_iff.2 s.listings.distinct
  refine (sorted.and distinct).imp fun ⟨ordered, different⟩ => ?_
  exact lt_of_le_of_ne (of_decide_eq_true ordered) different

/-- The list of names is the only one that ascends and has these elements. -/
theorem names_eq (ascends : names.Pairwise (· < ·))
    (same : ∀ name, name ∈ names ↔ name ∈ listings.map Prod.fst) :
    (ofList listings).names = names :=
  (pairwise_names _).eq_of_mem_iff ascends fun name => mem_names_ofList.trans (same name).symm

/-! ## Reading -/

theorem readNamed_of_isLastText (last : IsLastText listings name text) :
    readNamed (ofList listings).text name = (readListing text).mapError (.badListing name) := by
  rw [readNamed, Sources.text, find?_of_isLastText last]
  rfl

theorem readNamed_eq_ok_iff {c : ClassCode} : readNamed (ofList listings).text name = .ok c ↔
    ∃ text, IsLastText listings name text ∧ readListing text = .ok c := by
  constructor
  · intro read
    cases found : (ofList listings).listings.find? name with
    | none =>
        rw [readNamed, Sources.text, found] at read
        cases read
    | some text =>
        have last := find?_ofList_iff.1 found
        rw [readNamed_of_isLastText last] at read
        cases listed : readListing text with
        | ok c' =>
            rw [listed] at read
            cases read
            exact ⟨text, last, listed⟩
        | error cause =>
            rw [listed] at read
            cases read
  · rintro ⟨text, last, listed⟩
    rw [readNamed_of_isLastText last, listed]
    rfl

theorem readNamed_eq_error_iff (named : name ∈ listings.map Prod.fst) {failure : SourceError} :
    readNamed (ofList listings).text name = .error failure ↔
      ∃ text cause, IsLastText listings name text ∧ readListing text = .error cause ∧
        failure = .badListing name cause := by
  constructor
  · intro failed
    obtain ⟨text, last⟩ := exists_isLastText_iff.2 named
    rw [readNamed_of_isLastText last] at failed
    cases listed : readListing text with
    | ok c =>
        rw [listed] at failed
        cases failed
    | error cause =>
        rw [listed] at failed
        cases failed
        exact ⟨text, cause, last, listed, rfl⟩
  · rintro ⟨text, cause, last, listed, rfl⟩
    rw [readNamed_of_isLastText last, listed]
    rfl

/-- The listing of the name can be read. -/
def Readable (listings : List (String × String)) (name : String) : Prop :=
  ∀ text, IsLastText listings name text → ∃ c, readListing text = .ok c

theorem readable_iff (named : name ∈ listings.map Prod.fst) :
    Readable listings name ↔ ∃ c, readNamed (ofList listings).text name = .ok c := by
  simp only [readNamed_eq_ok_iff]
  constructor
  · intro readable
    obtain ⟨text, last⟩ := exists_isLastText_iff.2 named
    obtain ⟨c, listed⟩ := readable text last
    exact ⟨c, text, last, listed⟩
  · rintro ⟨c, text, last, listed⟩ text' last'
    have found := find?_of_isLastText last
    cases found.symm.trans (find?_of_isLastText last')
    exact ⟨c, listed⟩

/-- Each name gives the class of its last listing. -/
theorem read_eq_ok_iff : (ofList listings).read = .ok classes ↔
    List.Forall₂ (fun name c => ∃ text, IsLastText listings name text ∧ readListing text = .ok c)
      (ofList listings).names classes := by
  rw [read, mapM_eq_ok_iff]
  simp only [readNamed_eq_ok_iff]

theorem read_isOk_iff :
    (∃ classes, (ofList listings).read = .ok classes) ↔ ∀ name, Readable listings name := by
  rw [read, mapM_isOk_iff]
  constructor
  · intro each name text last
    have named := exists_isLastText_iff.1 ⟨text, last⟩
    exact (readable_iff named).2 (each name (mem_names_ofList.2 named)) text last
  · intro readable name member
    exact (readable_iff (mem_names_ofList.1 member)).1 (readable name)

/-- The least name whose listing fails is reported. -/
theorem read_eq_error_iff {failure : SourceError} : (ofList listings).read = .error failure ↔
    ∃ name text cause, IsLastText listings name text ∧ readListing text = .error cause ∧
      failure = .badListing name cause ∧ ∀ other, other < name → Readable listings other := by
  have least : ∀ {failure}, (ofList listings).read = .error failure →
      ∃ name text cause, IsLastText listings name text ∧ readListing text = .error cause ∧
        failure = .badListing name cause ∧ ∀ other, other < name → Readable listings other := by
    intro failure failed
    obtain ⟨before, name, after, split, succeed, fails⟩ := first_of_mapM_eq_error failed
    have ascends := pairwise_names (ofList listings)
    have named : name ∈ listings.map Prod.fst := mem_names_ofList.1 (by simp [split])
    obtain ⟨text, cause, last, listed, rfl⟩ := (readNamed_eq_error_iff named).1 fails
    refine ⟨name, text, cause, last, listed, rfl, fun other less text' last' => ?_⟩
    -- A smaller name stands before this one, where every listing can be read.
    have named' := exists_isLastText_iff.1 ⟨text', last'⟩
    have member := mem_names_ofList.2 named'
    rw [split] at member ascends
    rcases List.mem_append.1 member with earlier | later
    · exact (readable_iff named').2 (succeed other earlier) text' last'
    · obtain ⟨behind, -⟩ := List.pairwise_cons.1 (List.pairwise_append.1 ascends).2.1
      rcases List.mem_cons.1 later with rfl | later
      · exact absurd less (lt_irrefl _)
      · exact absurd less (lt_asymm (behind other later))
  refine ⟨least, ?_⟩
  rintro ⟨name, text, cause, last, listed, rfl, smaller⟩
  cases result : (ofList listings).read with
  | ok classes =>
      obtain ⟨c, listed'⟩ := read_isOk_iff.1 ⟨classes, result⟩ name text last
      cases listed.symm.trans listed'
  | error failure =>
      obtain ⟨name', text', cause', last', listed', rfl, smaller'⟩ := least result
      rcases lt_trichotomy name name' with less | rfl | greater
      · obtain ⟨c, read⟩ := smaller' name less text last
        cases listed.symm.trans read
      · cases (find?_of_isLastText last).symm.trans (find?_of_isLastText last')
        cases listed.symm.trans listed'
        rfl
      · obtain ⟨c, read⟩ := smaller name' greater text' last'
        cases listed'.symm.trans read

/-- **Reading is all or nothing, and depends on the last listings alone.** It succeeds if
and only if the last listing of every name can be read, and gives one class for each name
in ascending order, that of this listing. Otherwise it gives the error of the listing with
the least name among those that cannot be read. Sources with the same last listings are
read alike. -/
theorem read_lastTexts (listings : List (String × String)) :
    (∀ classes, (ofList listings).read = .ok classes ↔
      ∃ names : List String, names.Pairwise (· < ·) ∧
        (∀ name, name ∈ names ↔ name ∈ listings.map Prod.fst) ∧
        List.Forall₂ (fun name c => ∃ text, IsLastText listings name text ∧
          readListing text = .ok c) names classes) ∧
    ((∃ classes, (ofList listings).read = .ok classes) ↔
      ∀ name text, IsLastText listings name text → ∃ c, readListing text = .ok c) ∧
    (∀ failure, (ofList listings).read = .error failure ↔
      ∃ name text cause, IsLastText listings name text ∧ readListing text = .error cause ∧
        failure = .badListing name cause ∧
        ∀ other, other < name → ∀ text, IsLastText listings other text →
          ∃ c, readListing text = .ok c) ∧
    ∀ listings', (∀ name text, IsLastText listings' name text ↔ IsLastText listings name text) →
      (ofList listings').read = (ofList listings).read := by
  refine ⟨fun classes => ?_, read_isOk_iff, fun _ => read_eq_error_iff, fun listings' same => ?_⟩
  · rw [read_eq_ok_iff]
    constructor
    · intro pairs
      exact ⟨_, pairwise_names _, fun _ => mem_names_ofList, pairs⟩
    · rintro ⟨names, ascends, members, pairs⟩
      rwa [names_eq ascends members]
  · have named : ∀ name, name ∈ (ofList listings).names ↔ name ∈ listings'.map Prod.fst := by
      intro name
      rw [mem_names_ofList, ← exists_isLastText_iff, ← exists_isLastText_iff]
      simp only [same]
    -- Strictly ascending names are determined by which they are.
    have names : (ofList listings').names = (ofList listings).names :=
      names_eq (pairwise_names _) named
    have texts : (ofList listings').text = (ofList listings).text := by
      funext name
      have found : (ofList listings').listings.find? name = (ofList listings).listings.find? name :=
        Option.ext fun text => by rw [find?_ofList_iff, find?_ofList_iff, same]
      rw [Sources.text, Sources.text, found]
    rw [read, read, names, texts]

/-- The listing of a class without methods. -/
def bareListing (name : String) : String :=
  "class " ++ name ++ " \x7b\n\x7d\n"

/-- Two listings. -/
def twoListings : List (String × String) :=
  [("A", bareListing "A"), ("B", bareListing "B")]

/-- The same two, in another order and behind one that is no class. -/
def overwrittenListings : List (String × String) :=
  [("B", bareListing "B"), ("A", "no class"), ("A", bareListing "A")]

theorem overwritten_isLastText_iff (name text : String) :
    IsLastText overwrittenListings name text ↔ IsLastText twoListings name text := by
  rw [← find?_ofList_iff, ← find?_ofList_iff]
  by_cases first : name = "A"
  · subst first
    rfl
  · by_cases second : name = "B"
    · subst second
      rfl
    · simp [ofList, overwrittenListings, twoListings, insert, Table.find?_insert_of_ne, first, second]

/-- Both sources are read, and alike. -/
theorem overwritten_read_lastTexts :
    (∀ name text, IsLastText overwrittenListings name text ↔ IsLastText twoListings name text) ∧
    (ofList twoListings).read = .ok [⟨"A", rootClass, []⟩, ⟨"B", rootClass, []⟩] ∧
    (ofList overwrittenListings).read = .ok [⟨"A", rootClass, []⟩, ⟨"B", rootClass, []⟩] := by
  obtain ⟨reads, _, _, alike⟩ := read_lastTexts twoListings
  have classA : readListing (bareListing "A") = .ok ⟨"A", rootClass, []⟩ :=
    eq_ok_of_toOption (by decide +kernel)
  have classB : readListing (bareListing "B") = .ok ⟨"B", rootClass, []⟩ :=
    eq_ok_of_toOption (by decide +kernel)
  have lastA : IsLastText twoListings "A" (bareListing "A") := find?_ofList_iff.1 rfl
  have lastB : IsLastText twoListings "B" (bareListing "B") := find?_ofList_iff.1 rfl
  have read : (ofList twoListings).read = .ok [⟨"A", rootClass, []⟩, ⟨"B", rootClass, []⟩] := by
    refine (reads _).2 ⟨["A", "B"], by decide, fun name => Iff.rfl, ?_⟩
    exact .cons ⟨_, lastA, classA⟩ (.cons ⟨_, lastB, classB⟩ .nil)
  exact ⟨overwritten_isLastText_iff, read,
    (alike overwrittenListings overwritten_isLastText_iff).trans read⟩

end ClassMachine.Sources
