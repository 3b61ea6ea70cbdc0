import ClassMachine.Proofs.Concatenation
import ClassMachine.Proofs.Signatures

/-!
# Lists of type parameters

Declarations are read without lists of type parameters, so one more list changes nothing in
them, wherever it is put and even inside of another one (`parameterList_invisible`).

The text in front of the list may leave any number of brackets open. So the list must leave
nothing, and the depth as it was, at whatever depth it begins
(`IsParameterList.stripFrom_append`).

The blanks at the ends of a line are taken off before the lists are. So a line that begins
with a list, such as `<T> T id(T);`, is left with the blank behind the list at its front. No
signature begins with a blank, and the method of that line is not read (`parse_hidden`).

* `IsParameterList.methodName?_insert`: the one declaration that a list hides is that of the
  class initializer, which is not read without lists.
* `IsParameterList.feed_insert`: a line that is read as a declaration has the same effect on
  the scan with one more list in it, and so has the listing (`Insertion.parse_eq`).
* `IsParameterList.methodName?_front`: a list and a blank in front of a declaration hide it.
-/

namespace ClassMachine.Listing

open Text

variable {g front rest word line line' cs : List Char} {c : Char} {header : Header}
  {methods : List MethodCode} {m : Pending} {scan : Scan} {number : Nat} {text text' : String}

/-- A list of type parameters: text in angle brackets whose own brackets come in pairs. -/
inductive IsParameterList : List Char → Prop
  | intro {body : List Char} (balanced : Balanced body) : IsParameterList ('<' :: (body ++ ['>']))

/-! ## Declarations -/

theorem header?_congr (same : stripGenerics line = stripGenerics line') (root : String) :
    header? root line = header? root line' := by
  rw [header?, header?, same]

theorem signature?_congr (same : stripGenerics line = stripGenerics line') :
    signature? line = signature? line' := by
  rw [signature?, signature?, same]

/-- Every method but the class initializer is declared with a parenthesis. -/
theorem signature?_eq_none (plain : '(' ∉ line) : signature? line = none := by
  have uncut : cutFirst? '(' (stripGenerics line) = none := by
    refine Option.eq_none_iff_forall_ne_some.2 fun parts cut => ?_
    have member : '(' ∈ stripGenerics line := by
      rw [cutFirst?_eq_some cut]
      exact List.mem_append_right _ List.mem_cons_self
    exact plain (mem_of_mem_stripFrom member)
  simp only [signature?, uncut]
  rfl

/-- No signature begins with a blank. -/
theorem signature?_of_blank (blank : isBlank c = true) (cs : List Char) :
    signature? (c :: cs) = none := by
  have opens : c ≠ '<' := by
    rintro rfl
    cases blank
  have stripped : stripGenerics (c :: cs) = c :: stripGenerics cs := stripFrom_outside opens cs
  refine Option.eq_none_iff_forall_ne_some.2 fun name declared => ?_
  rw [signature?, stripped] at declared
  obtain ⟨⟨front, behind⟩, cut, declared⟩ := Option.bind_eq_some_iff.1 declared
  obtain ⟨_, -, declared⟩ := Option.bind_eq_some_iff.1 declared
  have whole := cutFirst?_eq_some cut
  cases front with
  | nil =>
      cases whole
      cases blank
  | cons a front =>
      obtain ⟨rfl, -⟩ := List.cons.inj whole
      simp [signatureName?, blank] at declared

namespace IsParameterList

/-- At any depth the list is taken out as a whole and leaves the depth as it was. -/
theorem stripFrom_append (list : IsParameterList g) (depth : Nat) (rest : List Char) :
    stripFrom depth (g ++ rest) = stripFrom depth rest := by
  obtain @⟨body, balanced⟩ := list
  calc stripFrom depth ('<' :: (body ++ ['>']) ++ rest)
      = stripFrom (depth + 1) (body ++ '>' :: rest) := by
        rw [List.cons_append, List.append_assoc, stripFrom]
        rfl
    _ = stripFrom (depth + 1) body ++ stripFrom (depth + 1) ('>' :: rest) := by
        rw [Listing.stripFrom_append, balanced.depthBehind_eq]
    _ = stripFrom depth rest := by
        rw [balanced.stripFrom_eq_nil, stripFrom_close, List.nil_append]

theorem stripGenerics_insert (list : IsParameterList g) (front rest : List Char) :
    stripGenerics (front ++ g ++ rest) = stripGenerics (front ++ rest) := by
  rw [List.append_assoc, stripGenerics, stripGenerics, Listing.stripFrom_append 0 front,
    Listing.stripFrom_append 0 front, list.stripFrom_append]

theorem mem_insert (list : IsParameterList g) (front rest : List Char) :
    '<' ∈ front ++ g ++ rest := by
  obtain ⟨_⟩ := list
  exact List.mem_append_left _ (List.mem_append_right _ List.mem_cons_self)

/-- A method keeps its name. The class initializer is not recognized any more. -/
theorem methodName?_insert (list : IsParameterList g) (className : String)
    (front rest : List Char) :
    methodName? className (front ++ g ++ rest)
      = if isClassInitializer (front ++ rest) then none
        else methodName? className (front ++ rest) := by
  have other : isClassInitializer (front ++ g ++ rest) = false :=
    isClassInitializer_eq_false_of_mem (list.mem_insert front rest) (by decide) (by decide)
  rw [methodName?, other, if_neg Bool.false_ne_true,
    signature?_congr (list.stripGenerics_insert front rest)]
  cases initializer : isClassInitializer (front ++ rest) with
  | false => rw [methodName?, initializer, if_neg Bool.false_ne_true, if_neg Bool.false_ne_true]
  | true =>
      -- The class initializer has no parentheses, so the line is no other signature either.
      have noParameters : '(' ∉ front ++ rest := fun declared => by
        rw [isClassInitializer_eq_false declared] at initializer
        cases initializer
      rw [signature?_eq_none noParameters, if_pos rfl]
      rfl

/-- A list at the front of a line hides the declaration that a blank divides from it. -/
theorem methodName?_front (list : IsParameterList g) (blank : isBlank c = true)
    (className : String) (cs : List Char) : methodName? className (g ++ c :: cs) = none := by
  have inserted := list.methodName?_insert className [] (c :: cs)
  rw [List.nil_append, List.nil_append] at inserted
  rw [inserted]
  split
  · rfl
  · rename_i ordinary
    rw [methodName?, if_neg ordinary, signature?_of_blank blank]
    rfl

/-! ## Lines -/

/-- The list does not bring a word without brackets to the front of the line. -/
theorem prefix_of_insert (list : IsParameterList g) (plain : '<' ∉ word)
    (starts : word <+: front ++ g ++ rest) : word <+: front ++ rest := by
  obtain ⟨_⟩ := list
  rw [List.append_assoc] at starts
  rcases List.prefix_or_prefix_of_prefix starts (List.prefix_append front _) with short | long
  · exact short.trans (List.prefix_append _ _)
  · -- A longer word would go on with the bracket that opens the list.
    obtain ⟨more, rfl⟩ := long
    cases more with
    | nil =>
        rw [List.append_nil]
        exact List.prefix_append _ _
    | cons c more =>
        have begins := (List.prefix_append_right_inj front).1 starts
        obtain ⟨rfl, -⟩ := List.cons_prefix_cons.1 begins
        exact absurd (List.mem_append_right _ List.mem_cons_self) plain

/-- No blank is at either end of the line with the list in it. -/
theorem trim_insert (list : IsParameterList g)
    (trimmed : trim (front ++ rest) = front ++ rest) :
    trim (front ++ g ++ rest) = front ++ g ++ rest := by
  have first : ∀ c ∈ (front ++ rest).head?, isBlank c = false := by
    rw [← trimmed]
    exact stays_head?_trimOf isBlank _
  have last : ∀ c ∈ (front ++ rest).getLast?, isBlank c = false := by
    rw [← trimmed]
    exact stays_getLast?_trimOf isBlank _
  obtain ⟨_⟩ := list
  apply trimOf_eq_self
  · intro c head
    cases front with
    | nil =>
        cases head
        decide
    | cons a front => exact first c head
  · intro c ends
    rcases List.eq_nil_or_concat rest with rfl | ⟨rest, b, rfl⟩
    · rw [List.append_nil, ← List.cons_append, ← List.append_assoc, List.getLast?_concat] at ends
      cases ends
      decide
    · rw [List.concat_eq_append, ← List.append_assoc, List.getLast?_concat] at ends last
      exact last c ends

end IsParameterList

/-! ## Reading lines -/

/-- The words that the other lines in front of the code of a method begin with. -/
def detailWords : List (List Char) :=
  ["descriptor:", "flags:", "Code:"].map String.toList

/-- The scan looks for a declaration in the line, and it is not that of the class initializer.
Behind a signature it looks for the end and the details of the method first. -/
def Scan.Expects (line : List Char) : Scan → Prop
  | .start => True
  | .inside _ _ .signature => isClassInitializer line = false
  | .inside _ _ (.metadata _) =>
      isClassInitializer line = false ∧ line ≠ [] ∧ ∀ word ∈ detailWords, ¬ word <+: line
  | .inside _ _ (.code _) => False

theorem dropFront?_eq_none (other : ¬ word <+: line) : dropFront? word line = none :=
  Option.eq_none_iff_forall_ne_some.2 fun rest cut =>
    other ⟨rest, (dropFront?_eq_some cut).symm⟩

theorem signatureLine_congr (same : methodName? header.name line = methodName? header.name line') :
    signatureLine header number line = signatureLine header number line' := by
  rw [signatureLine, signatureLine, same]

/-- A line in front of the code that is no detail of the method may open the next one. -/
theorem metadataLine_eq (occupied : line ≠ []) (other : ∀ word ∈ detailWords, ¬ word <+: line) :
    metadataLine header methods m number line
      = if (methodName? header.name line).isSome then do
          let methods ← (Stage.metadata m).close methods
          return .inside header methods (signatureLine header number line)
        else .ok (.inside header methods (.metadata m)) := by
  have noDescriptor := dropFront?_eq_none (other "descriptor:".toList (by decide))
  have noFlags := dropFront?_eq_none (other "flags:".toList (by decide))
  have noCode : ¬ "Code:".toList.isPrefixOf line = true := fun starts =>
    other "Code:".toList (by decide) (List.isPrefixOf_iff_prefix.1 starts)
  simp only [metadataLine, if_neg (mt List.isEmpty_iff.1 occupied), noDescriptor, noFlags,
    if_neg noCode]

/-- One more list in a declaration does not change what the scan makes of it. -/
theorem IsParameterList.feed_insert (list : IsParameterList g)
    (expects : scan.Expects (front ++ rest)) (number : Nat) :
    scan.feed number (front ++ g ++ rest) = scan.feed number (front ++ rest) := by
  cases scan with
  | start =>
      rw [Scan.feed, Scan.feed, header?_congr (list.stripGenerics_insert front rest)]
  | inside header methods stage =>
      have named (other : isClassInitializer (front ++ rest) = false) :
          methodName? header.name (front ++ g ++ rest)
            = methodName? header.name (front ++ rest) := by
        rw [list.methodName?_insert, other, if_neg Bool.false_ne_true]
      cases stage with
      | signature => rw [Scan.feed, Scan.feed, signatureLine_congr (named expects)]
      | metadata m =>
          obtain ⟨ordinary, occupied, other⟩ := expects
          have occupied' : front ++ g ++ rest ≠ [] := List.ne_nil_of_mem (list.mem_insert front rest)
          -- A detail word has no angle bracket, so the list is not part of one.
          have other' : ∀ word ∈ detailWords, ¬ word <+: front ++ g ++ rest :=
            fun word detail starts => by
              have plain : ∀ word ∈ detailWords, '<' ∉ word := by decide
              exact other word detail (list.prefix_of_insert (plain word detail) starts)
          rw [Scan.feed, Scan.feed, metadataLine_eq occupied' other',
            metadataLine_eq occupied other, named ordinary,
            signatureLine_congr (named ordinary)]
      | code m => exact expects.elim

/-! ## Whole listings -/

/-- The second listing is the first one with a list put into a line that is read as a
declaration. The list does not stand among the blanks around the declaration, since the line
would then begin or end with blanks once the list is taken out, as in
`IsParameterList.parse_hidden`. -/
structure Insertion (g : List Char) (text text' : String) where
  before : List (List Char)
  indent : List Char
  front : List Char
  rest : List Char
  margin : List Char
  behind : List (List Char)
  short : lines text.toList = before ++ (indent ++ (front ++ rest ++ margin)) :: behind
  long : lines text'.toList = before ++ (indent ++ (front ++ g ++ rest ++ margin)) :: behind
  indent_blank : ∀ c ∈ indent, isBlank c = true
  margin_blank : ∀ c ∈ margin, isBlank c = true
  trimmed : trim (front ++ rest) = front ++ rest
  expected : ∀ scan, Scan.start.feedLines 1 before = .ok scan → scan.Expects (front ++ rest)

/-- Neither the class that is read changes nor the error. -/
theorem Insertion.parse_eq (i : Insertion g text text') (list : IsParameterList g) :
    parse text' = parse text := by
  have line : trim (i.indent ++ (i.front ++ i.rest ++ i.margin)) = i.front ++ i.rest :=
    (trimOf_surround i.indent_blank i.margin_blank).trans i.trimmed
  have line' : trim (i.indent ++ (i.front ++ g ++ i.rest ++ i.margin)) = i.front ++ g ++ i.rest :=
    (trimOf_surround i.indent_blank i.margin_blank).trans (list.trim_insert i.trimmed)
  rw [parse, parse, i.short, i.long, Scan.feedLines_append, Scan.feedLines_append]
  cases read : Scan.start.feedLines 1 i.before with
  | error cause => rfl
  | ok scan =>
      have same := list.feed_insert (i.expected scan read) (1 + i.before.length)
      change scan.feedLines _ (_ :: i.behind) >>= _ = scan.feedLines _ (_ :: i.behind) >>= _
      rw [Scan.feedLines, Scan.feedLines, line, line', same]

/-- Lines that declare nothing are passed over where a signature is waited for. -/
theorem Scan.feedLines_silent (methods : List MethodCode) (number : Nat)
    {passed : List (List Char)}
    (silent : ∀ line ∈ passed, methodName? header.name (trim line) = none) :
    (inside header methods .signature).feedLines number passed
      = .ok (.inside header methods .signature) := by
  induction passed generalizing number with
  | nil => rfl
  | cons line passed ih =>
      obtain ⟨first, others⟩ := List.forall_mem_cons.1 silent
      rw [feedLines, feed, signatureLine, first]
      exact ih (number + 1) others

/-- **A list at the front of its line hides a method.** Where a signature is waited for and
the line begins with a list and a blank, this line and those of the method might as well be
missing: the same class is read, or the same error on a line so much further down. -/
theorem IsParameterList.parse_hidden (list : IsParameterList g) (blank : isBlank c = true)
    {before details behind : List (List Char)}
    (short : lines text.toList = before ++ behind)
    (long : lines text'.toList = before ++ line :: details ++ behind)
    (waits : Scan.start.feedLines 1 before = .ok (.inside header methods .signature))
    (hidden : trim line = g ++ c :: cs)
    (silent : ∀ line ∈ details, methodName? header.name (trim line) = none) :
    parse text' = moveResult (details.length + 1) id (parse text) := by
  have undeclared : methodName? header.name (trim line) = none := by
    rw [hidden, list.methodName?_front blank]
  have passed := Scan.feedLines_silent methods (1 + before.length)
    (List.forall_mem_cons.2 ⟨undeclared, silent⟩)
  have inside : (Scan.inside header methods .signature).heading? = some header := rfl
  have next := Scan.parse_under [] (details.length + 1) (1 + before.length) behind inside
  rw [parse, parse, short, long, List.append_assoc, Scan.feedLines_append, Scan.feedLines_append,
    waits]
  change Scan.feedLines _ (line :: details ++ behind) (.inside header methods .signature)
    >>= Scan.finish = _
  rw [Scan.feedLines_append, passed]
  exact next

/-- The method `id` is not read. -/
example :
    (parse (String.intercalate "\n"
      ["class Box \x7b", "  <T> T id(T);", "    descriptor: (Ljava/lang/Object;)Ljava/lang/Object;",
        "    Code:", "      0: aload_0", "      1: areturn", "", "  int size();",
        "    descriptor: ()I", "    Code:", "      0: iconst_0", "      1: ireturn",
        "\x7d"])).toOption.map (fun c => c.methods.map MethodCode.name) = some ["size"] := by
  decide +kernel

/-- **Lists of type parameters are invisible.** Wherever one is put into a text, the same is
left of it, and so a header declares the same class and a signature the same method; only the
class initializer is not recognized with a list in it. What is left has no opening bracket,
and only text without one is left as it is. So one more list in a declaration does not change
what is read of a listing. -/
theorem parameterList_invisible (list : IsParameterList g) :
    (∀ cs, '<' ∉ stripGenerics cs ∧ (stripGenerics cs = cs ↔ '<' ∉ cs) ∧
      stripGenerics (stripGenerics cs) = stripGenerics cs) ∧
    (∀ front rest, stripGenerics (front ++ g ++ rest) = stripGenerics (front ++ rest) ∧
      (∀ root, header? root (front ++ g ++ rest) = header? root (front ++ rest)) ∧
      ∀ className, methodName? className (front ++ g ++ rest)
        = if isClassInitializer (front ++ rest) then none
          else methodName? className (front ++ rest)) ∧
    ∀ text text', Insertion g text text' → parse text' = parse text := by
  refine ⟨fun cs => ?_, fun front rest => ?_, fun text text' i => i.parse_eq list⟩
  · have left := notMem_stripFrom 0 cs
    exact ⟨left, stripGenerics_eq_self_iff, stripGenerics_eq_self left⟩
  · have same := list.stripGenerics_insert front rest
    exact ⟨same, header?_congr same, fun className => list.methodName?_insert className front rest⟩

/-- The lines of a class with one method. -/
def sizeLines (list : List Char) : List (List Char) :=
  ["class Box<A> extends Base \x7b".toList,
    " \tint size(Map".toList ++ list ++ ");\t ".toList,
    " descriptor: (Ljava/util/Map;)I".toList, " Code:".toList, " 0: iconst_0".toList,
    " 1: ireturn".toList, ['\x7d']]

def sizeListing (list : List Char) : String :=
  String.ofList ((sizeLines list).flatMap (· ++ ['\n']))

def sizeClass : ClassCode where
  name := "Box"
  superName := "Base"
  methods :=
    [{ name := "size"
       descriptor := "(Ljava/util/Map;)I"
       flags := .empty
       maxStack := 0
       maxLocals := 0
       argsSize := 0
       instructions := [⟨0, .other "ICONST_0", [], none⟩, ⟨1, .returnValue .int, [], none⟩] }]

/-- The list `<K, List<V>>`. -/
def nestedList : List Char :=
  '<' :: ("K, List<V>".toList ++ ['>'])

theorem sizeInsertion_expected {scan : Scan}
    (read : Scan.start.feedLines 1 ((sizeLines []).take 1) = .ok scan) :
    scan.Expects ("int size(Map".toList ++ ");".toList) := by
  have header : Scan.start.feedLines 1 ((sizeLines []).take 1)
      = .ok (.inside ⟨"Box", "Base"⟩ [] .signature) := eq_ok_of_toOption (by decide +kernel)
  cases header.symm.trans read
  exact isClassInitializer_eq_false (by decide)

def sizeInsertion : Insertion nestedList (sizeListing []) (sizeListing nestedList) where
  before := (sizeLines []).take 1
  indent := " \t".toList
  front := "int size(Map".toList
  rest := ");".toList
  margin := "\t ".toList
  behind := (sizeLines []).drop 2
  short := by
    rw [sizeListing, String.toList_ofList]
    decide +kernel
  long := by
    rw [sizeListing, String.toList_ofList]
    decide +kernel
  indent_blank := by decide
  margin_blank := by decide
  trimmed := by decide +kernel
  expected := fun _ => sizeInsertion_expected

/-- A list inside of another one, one in the class initializer, and one in a listing. -/
theorem nested_parameterList_invisible :
    IsParameterList nestedList ∧
    header? rootClass ("class Box<A".toList ++ nestedList ++ "> extends Base \x7b".toList)
      = some ⟨"Box", "Base"⟩ ∧
    methodName? "Box" ("static".toList ++ nestedList ++ " \x7b\x7d;".toList) = none ∧
    parse (sizeListing nestedList) = .ok sizeClass := by
  have paired : Balanced "K, List<V>".toList := by decide +kernel
  have list : IsParameterList nestedList := .intro paired
  obtain ⟨-, declared, parsed⟩ := parameterList_invisible list
  obtain ⟨-, header, -⟩ := declared "class Box<A".toList "> extends Base \x7b".toList
  obtain ⟨-, -, method⟩ := declared "static".toList " \x7b\x7d;".toList
  refine ⟨list, (header rootClass).trans (by decide +kernel), (method "Box").trans ?_,
    (parsed _ _ sizeInsertion).trans ?_⟩
  · exact if_pos (by decide +kernel)
  · have split : lines (sizeListing []).toList = sizeLines [] := by
      rw [sizeListing, String.toList_ofList]
      decide +kernel
    rw [parse, split]
    exact eq_ok_of_toOption (by decide +kernel)

end ClassMachine.Listing
