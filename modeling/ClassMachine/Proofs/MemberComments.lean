import ClassMachine.Comment
import ClassMachine.Proofs.Text

/-!
# Members in comments

A comment `Field owner.name:descriptor` gives back the three parts that were put into
it, and so does the comment of a method, of an interface or not, whatever quotes stand
around its owner and its name (`memberRef_of_comment`). So nothing inside the owner
moves the dot that divides, and a member without an owner belongs to the class at hand.

A name has no dots and a descriptor has none, so the dot behind the owner is the last
one of the comment (`cutOwner?_append`). That the text behind it is a member is all that
the division depends on, which is said once for both readers of members (`Reads`).
-/

namespace ClassMachine.Comment

open Text

variable {className keyword owner name descriptor spelled : String} {cs front text : List Char}
  {member? : List Char → Option (List Char × List Char)} {member : List Char × List Char}

/-! ## What is put into a comment -/

/-- Text that may stand as an owner. Quotes at its ends could not be told from quotes
around it. -/
structure IsOwner (owner : String) : Prop where
  nonempty : owner ≠ ""
  line : '\n' ∉ owner.toList
  solid : ∀ c ∈ owner.toList.head?, isBlank c = false
  front : '"' ∉ owner.toList.head?
  back : '"' ∉ owner.toList.getLast?

/-- Text that may stand as the name of a member. -/
structure IsName (name : String) : Prop where
  nonempty : name ≠ ""
  free : ∀ c ∈ name.toList, c ≠ '.' ∧ c ≠ ':' ∧ c ≠ '"' ∧ isBlank c = false

/-- Text that may stand as a descriptor. -/
structure IsDescriptor (descriptor : String) : Prop where
  nonempty : descriptor ≠ ""
  free : ∀ c ∈ descriptor.toList, c ≠ '.' ∧ isBlank c = false

/-- The text, bare and in quotes. -/
def spellings (text : String) : List String :=
  [text, "\"" ++ text ++ "\""]

theorem mem_spellings {text : String} (spelling : spelled ∈ spellings text) :
    spelled = text ∨ spelled.toList = '"' :: (text.toList ++ ['"']) := by
  rcases List.mem_pair.1 spelling with rfl | rfl
  · exact Or.inl rfl
  · exact Or.inr (by simp)

theorem toList_ne_nil (nonempty : name ≠ "") : name.toList ≠ [] :=
  mt String.toList_eq_nil_iff.1 nonempty

/-- What stands at the front of a text that goes on. -/
theorem mem_head?_append {P : Char → Prop} (nonempty : front ≠ [])
    (first : ∀ c ∈ front.head?, P c) : ∀ c ∈ (front ++ cs).head?, P c := by
  rwa [List.head?_append_of_ne_nil front nonempty]

theorem IsName.word (n : IsName name) :
    ∀ c ∈ name.toList, (!(c == '.' || c == ':' || isBlank c)) = true := by
  intro c member
  obtain ⟨noDot, noColon, _, solid⟩ := n.free c member
  simp [noDot, noColon, solid]

theorem IsName.noQuote (n : IsName name) : '"' ∉ name.toList :=
  fun member => (n.free _ member).2.2.1 rfl

theorem IsDescriptor.isDescriptorText (d : IsDescriptor descriptor) :
    isDescriptorText descriptor.toList = true := by
  have solid : descriptor.toList.any isBlank = false :=
    List.any_eq_false.2 fun c member => Bool.eq_false_iff.1 (d.free c member).2
  simp [Comment.isDescriptorText, toList_ne_nil d.nonempty, solid]

/-! ## The two readers -/

/-- The text of a member as the reader takes it. It holds no dot, so no owner can end
inside it. -/
structure Reads (member? : List Char → Option (List Char × List Char)) (name descriptor : String)
    (text : List Char) : Prop where
  reads : member? text = some (name.toList, descriptor.toList)
  noDot : '.' ∉ text
  solid : ∀ c ∈ text.head?, isBlank c = false

theorem IsName.reads_bareMember? (n : IsName name) (d : IsDescriptor descriptor) :
    Reads bareMember? name descriptor (name.toList ++ ':' :: descriptor.toList) where
  reads := by
    rw [bareMember?, span_append_cons n.word rfl]
    simp [n.nonempty, d.isDescriptorText]
  noDot member := by
    rcases List.mem_append.1 member with member | member
    · exact (n.free _ member).1 rfl
    · rcases List.mem_cons.1 member with same | member
      · cases same
      · exact (d.free _ member).1 rfl
  solid := mem_head?_append (toList_ne_nil n.nonempty)
    fun c first => (n.free c (List.mem_of_head? first)).2.2.2

/-- The reader of methods takes the name bare and in quotes. -/
theorem IsName.reads_quotedMember? (n : IsName name) (d : IsDescriptor descriptor)
    (spelling : spelled ∈ spellings name) :
    Reads quotedMember? name descriptor (spelled.toList ++ ':' :: descriptor.toList) := by
  have bare := n.reads_bareMember? d
  rcases mem_spellings spelling with rfl | quoted
  · refine { bare with reads := ?_ }
    have unquoted : ∀ c ∈ (spelled.toList ++ ':' :: descriptor.toList).head?, c ≠ '"' :=
      mem_head?_append (toList_ne_nil n.nonempty)
        fun c first => (n.free c (List.mem_of_head? first)).2.2.1
    rw [quotedMember?, bare.reads]
    · simp [n.noQuote]
    · intro rest same
      exact unquoted '"' (same ▸ rfl) rfl
  · rw [quoted, List.cons_append, List.append_assoc, List.singleton_append]
    refine ⟨?_, ?_, ?_⟩
    · rw [quotedMember?, cutFirst?_append n.noQuote]
      simp [n.nonempty, d.isDescriptorText]
    · have noDot := bare.noDot
      simp only [List.mem_append, List.mem_cons, not_or] at noDot ⊢
      exact ⟨by decide, noDot.1, by decide, noDot.2⟩
    · intro c first
      cases first
      decide

/-! ## The dot behind the owner -/

theorem cutOwner?_eq_none (noDot : '.' ∉ cs) : cutOwner? member? cs = none := by
  induction cs with
  | nil => rfl
  | cons c cs ih =>
      obtain ⟨other, noDot⟩ := List.ne_and_not_mem_of_not_mem_cons noDot
      rw [cutOwner?, ih noDot]
      simp [other.symm]

/-- The dot in front of a member divides, if no dot stands in the member. What stands in
front of it does not matter, except for line feeds. -/
theorem cutOwner?_append (line : '\n' ∉ front) (noDot : '.' ∉ cs)
    (reads : member? cs = some member) :
    cutOwner? member? (front ++ '.' :: cs) = some (front, member) := by
  induction front with
  | nil => simp [cutOwner?, cutOwner?_eq_none noDot, reads]
  | cons c front ih =>
      obtain ⟨other, line⟩ := List.ne_and_not_mem_of_not_mem_cons line
      simp [cutOwner?, ih line, other.symm]

/-! ## The owner -/

theorem IsOwner.ownerName (o : IsOwner owner) (spelling : spelled ∈ spellings owner) :
    ownerName spelled.toList = canonicalName owner := by
  have bare : trimOf (· == '"') owner.toList = owner.toList := by
    refine trimOf_eq_self (fun c first => ?_) fun c last => ?_
    · exact beq_eq_false_iff_ne.2 fun same => o.front (same ▸ first)
    · exact beq_eq_false_iff_ne.2 fun same => o.back (same ▸ last)
  have trimmed : trimOf (· == '"') spelled.toList = owner.toList := by
    rcases mem_spellings spelling with rfl | quoted
    · exact bare
    · have surrounded : trimOf (· == '"') (['"'] ++ (owner.toList ++ ['"']))
          = trimOf (· == '"') owner.toList := trimOf_surround (by decide) (by decide)
      rw [quoted]
      exact surrounded.trans bare
  rw [Comment.ownerName, trimmed, String.ofList_toList]

theorem IsOwner.spelled_ne_nil (o : IsOwner owner) (spelling : spelled ∈ spellings owner) :
    spelled.toList ≠ [] := by
  rcases mem_spellings spelling with rfl | quoted
  · exact toList_ne_nil o.nonempty
  · rw [quoted]
    exact List.cons_ne_nil _ _

theorem IsOwner.spelled_solid (o : IsOwner owner) (spelling : spelled ∈ spellings owner) :
    ∀ c ∈ spelled.toList.head?, isBlank c = false := by
  rcases mem_spellings spelling with rfl | quoted
  · exact o.solid
  · rw [quoted]
    intro c first
    cases first
    decide

theorem IsOwner.spelled_line (o : IsOwner owner) (spelling : spelled ∈ spellings owner) :
    '\n' ∉ spelled.toList := by
  rcases mem_spellings spelling with rfl | quoted
  · exact o.line
  · rw [quoted]
    simpa using o.line

/-! ## Behind the keyword -/

/-- One blank behind the keyword is not part of the member. -/
theorem memberBehind?_append (solid : ∀ c ∈ text.head?, isBlank c = false) :
    memberBehind? className keyword member? (keyword.toList ++ ' ' :: text)
      = memberIn? className member? text := by
  have blank : (' ' :: text).span isBlank = ([' '], text) :=
    span_append (List.forall_mem_singleton.2 (by decide)) solid
  rw [memberBehind?, dropFront?_append, Option.bind_eq_bind, Option.bind_some, blank]
  rfl

namespace Reads

/-- A member without an owner belongs to the class at hand. -/
theorem memberBehind?_own (r : Reads member? name descriptor text) (className keyword : String) :
    memberBehind? className keyword member? (keyword.toList ++ ' ' :: text)
      = some ⟨className, name, descriptor⟩ := by
  rw [memberBehind?_append r.solid, memberIn?, cutOwner?_eq_none r.noDot, r.reads]
  simp

theorem memberBehind?_owned (r : Reads member? name descriptor text) (o : IsOwner owner)
    (spelling : spelled ∈ spellings owner) (className keyword : String) :
    memberBehind? className keyword member?
        (keyword.toList ++ ' ' :: (spelled.toList ++ '.' :: text))
      = some ⟨canonicalName owner, name, descriptor⟩ := by
  have occupied := o.spelled_ne_nil spelling
  rw [memberBehind?_append (mem_head?_append occupied (o.spelled_solid spelling)), memberIn?,
    cutOwner?_append (o.spelled_line spelling) r.noDot r.reads]
  simp [occupied, o.ownerName spelling]

end Reads

/-! ## Comments of members -/

/-- The word in front of the keyword of an interface method is passed over. -/
theorem methodRef?_append (listed : keyword ∈ ["Method", "InterfaceMethod"]) (rest : String) :
    methodRef? className (keyword ++ rest)
      = memberBehind? className "Method" quotedMember? ("Method".toList ++ rest.toList) := by
  rw [methodRef?, String.toList_append]
  rcases List.mem_pair.1 listed with rfl | rfl
  · rfl
  · rfl

/-- **A comment gives back the member that was put into it.** Owners may stand in quotes,
and the names of methods as well. -/
theorem memberRef_of_comment (n : IsName name) (d : IsDescriptor descriptor) :
    fieldRef? className ("Field " ++ name ++ ":" ++ descriptor)
      = some ⟨className, name, descriptor⟩ ∧
    (∀ owner, IsOwner owner → ∀ owner' ∈ spellings owner,
      fieldRef? className ("Field " ++ owner' ++ "." ++ name ++ ":" ++ descriptor)
        = some ⟨canonicalName owner, name, descriptor⟩) ∧
    ∀ keyword ∈ ["Method", "InterfaceMethod"], ∀ name' ∈ spellings name,
      methodRef? className (keyword ++ " " ++ name' ++ ":" ++ descriptor)
        = some ⟨className, name, descriptor⟩ ∧
      ∀ owner, IsOwner owner → ∀ owner' ∈ spellings owner,
        methodRef? className (keyword ++ " " ++ owner' ++ "." ++ name' ++ ":" ++ descriptor)
          = some ⟨canonicalName owner, name, descriptor⟩ := by
  have field := n.reads_bareMember? d
  refine ⟨?_, fun owner o owner' spelling => ?_, fun keyword listed name' spelledName => ?_⟩
  · simpa [fieldRef?] using field.memberBehind?_own className "Field"
  · simpa [fieldRef?] using field.memberBehind?_owned o spelling className "Field"
  · have method := n.reads_quotedMember? d spelledName
    refine ⟨?_, fun owner o owner' spelling => ?_⟩
    · simpa [String.append_assoc, methodRef?_append listed]
        using method.memberBehind?_own className "Method"
    · simpa [String.append_assoc, methodRef?_append listed]
        using method.memberBehind?_owned o spelling className "Method"

/-- A dot, a colon and a blank inside the owner do not divide. -/
theorem memberRef_of_comment_initializer :
    methodRef? "Sample" "InterfaceMethod \"[La.b:c d;\".\"<init>\":(I)V"
      = some ⟨"[La/b:c d;", "<init>", "(I)V"⟩ := by
  have name : IsName "<init>" := ⟨by decide, by decide⟩
  have descriptor : IsDescriptor "(I)V" := ⟨by decide, by decide⟩
  have solid : ∀ c ∈ "[La.b:c d;".toList.head?, isBlank c = false := by
    intro c first
    cases first
    decide
  have owner : IsOwner "[La.b:c d;" := ⟨by decide, by decide, solid, by decide, by decide⟩
  have spelledName : "\"<init>\"" ∈ spellings "<init>" := by decide
  have spelledOwner : "\"[La.b:c d;\"" ∈ spellings "[La.b:c d;" := by decide
  have canonical : canonicalName "[La.b:c d;" = "[La/b:c d;" := by decide
  have comment : "InterfaceMethod \"[La.b:c d;\".\"<init>\":(I)V" = "InterfaceMethod" ++ " "
      ++ "\"[La.b:c d;\"" ++ "." ++ "\"<init>\"" ++ ":" ++ "(I)V" := by decide
  rw [comment, ← canonical]
  exact ((memberRef_of_comment name descriptor).2.2 "InterfaceMethod" (by decide) _ spelledName).2
    _ owner _ spelledOwner

end ClassMachine.Comment
