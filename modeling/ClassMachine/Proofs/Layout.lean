import ClassMachine.Proofs.Bodies
import ClassMachine.Proofs.CodeLines
import ClassMachine.Proofs.Signatures

/-!
# Listings in the documented layout

A listing is a class header and, for every method, a signature, a descriptor, flags, the
word `Code:`, metrics, instructions and a blank line. Every such listing is read in full
(`Layout.parse_text`): the names of the class, and for every method its name, its
descriptor, its flags, its metrics and its instructions with all their parts.

The layouts of the parts hold what the format asks of them. Each kind of line is taken by
the one rule that is meant for it, whatever the texts in it are: `methodName?_line` for
signatures, `header?_line` for headers, and the lemmas on the lines of a method.
-/

namespace ClassMachine

open Text

namespace Listing

variable {cs xs ys : List Char} {className : String}

/-! ## Signatures -/

/-- Text without brackets of a signature. -/
def IsPlain (cs : List Char) : Prop :=
  ∀ c ∈ cs, c ∉ ['(', ')', '<', '>']

theorem IsPlain.noBracket (plain : IsPlain cs) {c : Char} (bracket : c ∈ ['(', ')', '<', '>']) :
    c ∉ cs :=
  fun member => plain c member bracket

/-- The parts of a method signature. -/
structure SignatureLayout where
  modifiers : List Char
  type : List Char
  name : List Char
  params : List Char
  modifiers_plain : IsPlain modifiers
  type_plain : IsPlain type
  name_plain : IsPlain name
  params_plain : IsPlain params
  name_ne : name ≠ []
  name_solid : ∀ c ∈ name, isBlank c = false
  name_noDot : '.' ∉ name

namespace SignatureLayout

variable (l : SignatureLayout)

/-- What stands in front of the name. -/
def front : List Char :=
  l.modifiers ++ ' ' :: (l.type ++ [' '])

/-- The whole line: `modifiers type name(params);`. -/
def line : List Char :=
  l.front ++ (l.name ++ '(' :: (l.params ++ [')', ';']))

/-- What stands in front of the parameters, without blanks at the front. -/
def declaration : List Char :=
  l.front.dropWhile isBlank ++ l.name

theorem exists_name : ∃ c cs, l.name = c :: cs ∧ isBlank c = false := by
  rcases whole : l.name with _ | ⟨c, cs⟩
  · exact (l.name_ne whole).elim
  · exact ⟨c, cs, rfl, l.name_solid c (whole ▸ List.mem_cons_self)⟩

theorem trim_line : trim l.line = l.declaration ++ '(' :: (l.params ++ [')', ';']) := by
  obtain ⟨c, cs, name, solid⟩ := l.exists_name
  have stays : (l.name ++ '(' :: (l.params ++ [')', ';'])).dropWhile isBlank
      = l.name ++ '(' :: (l.params ++ [')', ';']) := by
    rw [name]
    exact List.dropWhile_cons_of_neg (by simp [solid])
  have dropped : l.line.dropWhile isBlank
      = l.declaration ++ '(' :: (l.params ++ [')', ';']) := by
    rw [line, List.dropWhile_append, stays, declaration, List.append_assoc]
    split
    · rename_i gone
      rw [List.isEmpty_iff.1 gone]
      rfl
    · rfl
  have ending : trimEndOf isBlank [')', ';'] = [')', ';'] := by decide
  have whole : l.declaration ++ '(' :: (l.params ++ [')', ';'])
      = (l.declaration ++ '(' :: l.params) ++ [')', ';'] := by simp
  rw [trim, trimOf, dropped, whole]
  exact trimEndOf_append_eq_self (fun none => by cases none) ending

theorem declaration_plain : IsPlain l.declaration := by
  intro c member
  rcases List.mem_append.1 member with front | name
  · have inside := (List.dropWhile_suffix isBlank).mem front
    rcases List.mem_append.1 inside with modifiers | behind
    · exact l.modifiers_plain c modifiers
    · rcases List.mem_cons.1 behind with rfl | behind
      · decide
      · rcases List.mem_append.1 behind with type | blank
        · exact l.type_plain c type
        · cases List.mem_singleton.1 blank
          decide
  · exact l.name_plain c name

/-- The name is the last word. -/
theorem signatureName?_declaration : signatureName? l.declaration = some l.name := by
  have ends : ∀ c ∈ (l.front.dropWhile isBlank).getLast?, isBlank c = true := by
    intro c last
    obtain ⟨before, whole⟩ := List.dropWhile_suffix (l := l.front) isBlank
    have front : l.front.getLast? = some ' ' := by
      rw [SignatureLayout.front, ← List.cons_append, ← List.append_assoc, List.getLast?_concat]
    rw [← whole, List.getLast?_append, Option.mem_def.1 last] at front
    cases front
    decide
  have first : (l.front.dropWhile isBlank).head?.any isBlank = false := by
    have stays := List.head?_dropWhile_not isBlank l.front
    cases front : (l.front.dropWhile isBlank).head? with
    | none => rfl
    | some c =>
        rw [front] at stays
        exact Bool.eq_false_iff.2 (by simpa using stays)
  rw [declaration, signatureName?_append ends l.name_ne l.name_solid, first]
  rfl

theorem signature?_line : signature? (trim l.line) = some l.name := by
  have noBracket : '<' ∉ trim l.line := by
    rw [trim_line]
    intro member
    rcases List.mem_append.1 member with front | member
    · exact l.declaration_plain.noBracket (by decide) front
    · rcases List.mem_cons.1 member with first | member
      · cases first
      · rcases List.mem_append.1 member with params | ending
        · exact l.params_plain.noBracket (by decide) params
        · exact absurd ending (by decide)
  have noOpening : '(' ∉ l.declaration := l.declaration_plain.noBracket (by decide)
  have noClosing : ')' ∉ l.params := l.params_plain.noBracket (by decide)
  rw [signature?_eq ((stripGenerics_eq_self noBracket).trans l.trim_line) noOpening noClosing,
    signatureName?_declaration]

/-- The method that the line declares. -/
theorem methodName?_line (other : String.ofList l.name ≠ className) :
    methodName? className (trim l.line) = some (String.ofList l.name) := by
  have declared : '(' ∈ trim l.line := by
    rw [trim_line]
    exact List.mem_append_right _ List.mem_cons_self
  have plain : canonicalName (String.ofList l.name) = String.ofList l.name :=
    canonicalName_eq_self (by rw [String.toList_ofList]; exact l.name_noDot)
  rw [methodName?, isClassInitializer_eq_false declared, signature?_line]
  simp [plain, other]

end SignatureLayout

/-! ## Words of a header -/

section Words

variable {p : Char → Bool} {word : List Char}

/-- What stands in front of the first separator belongs to the first field. -/
theorem splitOnP_append (whole : ∀ c ∈ xs, p c = false) (ys : List Char) :
    (xs ++ ys).splitOnP p = (ys.splitOnP p).modifyHead (xs ++ ·) := by
  induction xs with
  | nil => exact (congrFun List.modifyHead_id _).symm
  | cons c xs ih =>
      obtain ⟨first, rest⟩ := List.forall_mem_cons.1 whole
      rw [List.cons_append, List.splitOnP_cons_eq_if_modifyHead, first, ih rest,
        List.modifyHead_modifyHead]
      rfl

/-- The fields of a text are among those of a longer one if separators are put in front. -/
theorem mem_splitOnP_append (separate : ∀ c ∈ xs, p c = true) (member : word ∈ ys.splitOnP p) :
    word ∈ (xs ++ ys).splitOnP p := by
  induction xs with
  | nil => exact member
  | cons c xs ih =>
      obtain ⟨first, rest⟩ := List.forall_mem_cons.1 separate
      rw [List.cons_append, List.splitOnP_cons_eq_if_modifyHead, if_pos first]
      exact List.mem_cons_of_mem _ (ih rest)

theorem isHeaderWord_of_isBlank {c : Char} : isBlank c = true → isHeaderWord c = false :=
  forall_blank (isHeaderWord · = false) (by decide +kernel)

theorem solid_head?_word (occupied : word ≠ []) (whole : ∀ c ∈ word, isHeaderWord c = true)
    (rest : List Char) : ∀ c ∈ (word ++ rest).head?, isBlank c = false := by
  obtain ⟨a, cs, rfl⟩ := List.exists_cons_of_ne_nil occupied
  intro c first
  cases first
  exact isBlank_eq_false isHeaderWord_of_isBlank (whole a List.mem_cons_self)

/-- The words at the front of a declaration have blanks around them. -/
theorem mem_splitOnP_of_mem_leadingWords {fuel : Nat} {rest : List Char}
    (member : (word, rest) ∈ leadingWords fuel cs) : word ∈ cs.splitOnP isBlank := by
  induction fuel generalizing cs with
  | zero => cases member
  | succ fuel ih =>
      simp only [leadingWords, List.span_eq_takeWhile_dropWhile] at member
      split at member
      · cases member
      · rename_i occupied
        have gap : (cs.dropWhile isHeaderWord).takeWhile isBlank ≠ [] := fun none =>
          occupied (by rw [none, List.isEmpty_nil, Bool.or_true])
        obtain ⟨b, gap, blanks⟩ := List.exists_cons_of_ne_nil gap
        have allBlank : ∀ c ∈ b :: gap, isBlank c = true := by
          rw [← blanks]
          exact fun c member => List.mem_takeWhile_imp member
        have solid : ∀ c ∈ cs.takeWhile isHeaderWord, isBlank c = false := fun c member =>
          isBlank_eq_false isHeaderWord_of_isBlank (List.mem_takeWhile_imp member)
        have cut : cs = cs.takeWhile isHeaderWord
            ++ b :: (gap ++ (cs.dropWhile isHeaderWord).dropWhile isBlank) := by
          rw [← List.cons_append, ← blanks, List.takeWhile_append_dropWhile,
            List.takeWhile_append_dropWhile]
        rw [cut, List.splitOnP_append_cons _ _ (allBlank b List.mem_cons_self),
          List.splitOnP_eq_singleton solid]
        rcases List.mem_cons.1 member with first | member
        · cases first
          exact List.mem_cons_self
        · refine List.mem_cons_of_mem _ (mem_splitOnP_append (fun c inside => ?_) (ih member))
          exact allBlank c (List.mem_cons_of_mem _ inside)

/-- A word in front of a declaration is read first. -/
theorem leadingWords_cons {fuel : Nat} {rest : List Char} (occupied : word ≠ [])
    (whole : ∀ c ∈ word, isHeaderWord c = true) (solid : ∀ c ∈ rest.head?, isBlank c = false) :
    leadingWords (fuel + 1) (word ++ ' ' :: rest) = (word, rest) :: leadingWords fuel rest := by
  have blank : isHeaderWord ' ' = false := isHeaderWord_of_isBlank (by decide)
  have afterWord : (word ++ ' ' :: rest).span isHeaderWord = (word, ' ' :: rest) :=
    span_append_cons whole blank
  have gap : ∀ c ∈ [' '], isBlank c = true := by decide
  have afterGap : (' ' :: rest).span isBlank = ([' '], rest) := span_append gap solid
  simp only [leadingWords, afterWord, afterGap]
  simp [occupied]

end Words

/-! ## Class headers -/

/-- A name as it may stand in a class header: no blank, no opening brace, no comma and no
angle bracket, and none of the words that introduce a name. -/
structure IsClassName (name : List Char) : Prop where
  nonempty : name ≠ []
  solid : ∀ c ∈ name, isBlank c = false
  plain : ∀ c ∈ name, c ∉ ['\x7b', ',', '<', '>']
  other : isClassKeyword name = false

namespace IsClassName

variable {name : List Char} (named : IsClassName name)
include named

theorem char {c : Char} (member : c ∈ name) :
    isBlank c = false ∧ c ≠ '\x7b' ∧ c ≠ ',' ∧ c ≠ '<' := by
  have plain := named.plain c member
  simp only [List.mem_cons, not_or] at plain
  exact ⟨named.solid c member, plain.1, plain.2.1, plain.2.2.1⟩

theorem solid_head? (rest : List Char) : ∀ c ∈ (name ++ rest).head?, isBlank c = false := by
  intro c first
  obtain ⟨a, cs, whole⟩ := List.exists_cons_of_ne_nil named.nonempty
  have stays := named.solid a (whole ▸ List.mem_cons_self)
  rw [whole] at first
  cases first
  exact stays

end IsClassName

/-- The parts of a class header. -/
structure HeaderLayout where
  modifiers : List (List Char)
  keyword : List Char
  name : List Char
  superName : Option (List Char)
  /-- What stands behind the names, perhaps a brace or the interfaces. -/
  ending : List Char
  modifier_ne : ∀ word ∈ modifiers, word ≠ []
  modifier_word : ∀ word ∈ modifiers, ∀ c ∈ word, isHeaderWord c = true
  isKeyword : isClassKeyword keyword = true
  name_class : IsClassName name
  superName_class : ∀ parent ∈ superName, IsClassName parent
  ending_front : ∀ c ∈ ending.head?, isBlank c = true ∨ c = '\x7b'
  ending_back : ∀ c ∈ ending.getLast?, isBlank c = false
  ending_plain : '<' ∉ ending
  ending_words : ∀ word ∈ ending.splitOnP isBlank,
    isClassKeyword word = false ∧ word ≠ "extends".toList

namespace HeaderLayout

variable (l : HeaderLayout)

/-- The superclass as it is declared. -/
def clause : List Char :=
  match l.superName with
  | none => []
  | some parent => " extends ".toList ++ parent

/-- What stands behind the keyword. -/
def names : List Char :=
  l.name ++ (l.clause ++ l.ending)

/-- The line with other words in front of the keyword. -/
def behind (modifiers : List (List Char)) : List Char :=
  modifiers.flatMap (· ++ [' ']) ++ (l.keyword ++ ' ' :: l.names)

/-- The whole line: `modifiers class Name extends Super`, and an ending. -/
def line : List Char :=
  l.behind l.modifiers

/-- The names on the line. An interface has no other superclass than the root. -/
def header : Header where
  name := canonicalName (String.ofList l.name)
  superName :=
    if l.keyword = "interface".toList then rootClass
    else (l.superName.map fun parent => canonicalName (String.ofList parent)).getD rootClass

/-- Behind a name a header ends or goes on with a blank or a brace. -/
theorem ending_stops : ∀ c ∈ l.ending.head?, (!(isBlank c || c == '\x7b')) = false := by
  intro c first
  rcases l.ending_front c first with blank | rfl
  · simp [blank]
  · decide

theorem clause_stops : ∀ c ∈ (l.clause ++ l.ending).head?, (!(isBlank c || c == '\x7b')) = false := by
  intro c first
  unfold clause at first
  split at first
  · exact l.ending_stops c first
  · cases first
    decide

/-- No word of the ending introduces a superclass. -/
theorem superName?_ending : superName? l.ending = none := by
  cases declared : superName? l.ending with
  | none => rfl
  | some parent =>
      simp only [superName?, List.span_eq_takeWhile_dropWhile] at declared
      split at declared
      · cases declared
      · rename_i gap
        obtain ⟨behind, keyword, declared⟩ := Option.bind_eq_some_iff.1 declared
        split at declared
        · cases declared
        · rename_i found
          have gap' : behind.takeWhile isBlank ≠ [] := fun none =>
            found (by rw [none, List.isEmpty_nil, Bool.true_or])
          obtain ⟨b, blanks, gap'⟩ := List.exists_cons_of_ne_nil gap'
          have blank : isBlank b = true :=
            List.mem_takeWhile_imp (gap'.symm ▸ List.mem_cons_self : b ∈ behind.takeWhile isBlank)
          have cut : behind = b :: (blanks ++ behind.dropWhile isBlank) := by
            rw [← List.cons_append, ← gap', List.takeWhile_append_dropWhile]
          have solid : ∀ c ∈ "extends".toList, isBlank c = false := by decide
          have word : "extends".toList ∈ (l.ending.dropWhile isBlank).splitOnP isBlank := by
            rw [dropFront?_eq_some keyword, cut, List.splitOnP_append_cons _ _ blank,
              List.splitOnP_eq_singleton solid]
            exact List.mem_cons_self
          have member := mem_splitOnP_append
            (fun c inside => List.mem_takeWhile_imp inside : ∀ c ∈ l.ending.takeWhile isBlank,
              isBlank c = true) word
          rw [List.takeWhile_append_dropWhile] at member
          exact ((l.ending_words _ member).2 rfl).elim

theorem superName?_clause :
    superName? (l.clause ++ l.ending) = l.superName := by
  unfold clause
  cases declared : l.superName with
  | none => exact l.superName?_ending
  | some parent =>
      have named := l.superName_class parent declared
      have gap : ∀ c ∈ [' '], isBlank c = true := by decide
      have afterGap : (' ' :: ("extends".toList ++ ' ' :: (parent ++ l.ending))).span isBlank
          = ([' '], "extends".toList ++ ' ' :: (parent ++ l.ending)) :=
        span_append_cons gap (by decide)
      have keyword : dropFront? "extends".toList ("extends".toList ++ ' ' :: (parent ++ l.ending))
          = some (' ' :: (parent ++ l.ending)) := rfl
      have afterKeyword : (' ' :: (parent ++ l.ending)).span isBlank
          = ([' '], parent ++ l.ending) :=
        span_append gap (named.solid_head? l.ending)
      -- The name ends at a blank, a comma or a brace, and so at the rest of the line.
      have name : (parent ++ l.ending).takeWhile (fun c => !(isBlank c || c == '\x7b' || c == ','))
          = parent := by
        have whole : ∀ c ∈ parent, (!(isBlank c || c == '\x7b' || c == ',')) = true := by
          intro c member
          obtain ⟨solid, noBrace, noComma, _⟩ := named.char member
          simp [solid, noBrace, noComma]
        rw [List.takeWhile_append_of_pos whole]
        cases behind : l.ending with
        | nil => simp
        | cons c ending =>
            have stops := l.ending_stops c (by rw [behind]; rfl)
            have stops' : (!(isBlank c || c == '\x7b' || c == ',')) = false := by
              rw [Bool.not_or, stops, Bool.false_and]
            rw [List.takeWhile_cons, stops']
            exact List.append_nil parent
      change superName? (' ' :: ("extends".toList ++ ' ' :: (parent ++ l.ending))) = _
      simp only [superName?, afterGap, keyword, Option.bind_eq_bind, Option.bind_some,
        afterKeyword, name]
      simp [named.nonempty]

theorem headerAt?_line : headerAt? rootClass (l.keyword, l.names) = some l.header := by
  have cut : l.names.span (fun c => !(isBlank c || c == '\x7b'))
      = (l.name, l.clause ++ l.ending) :=
    span_append (fun c member => by
      obtain ⟨solid, noBrace, _⟩ := l.name_class.char member
      simp [solid, noBrace]) l.clause_stops
  have occupied : (!true || l.name.isEmpty) = false := by simp [l.name_class.nonempty]
  simp only [headerAt?, cut, l.isKeyword, l.superName?_clause, occupied]
  rw [if_neg Bool.false_ne_true, header]
  by_cases interface : l.keyword = "interface".toList
  · rw [if_pos interface, if_pos (beq_iff_eq.2 interface)]
  · rw [if_neg interface, if_neg (mt beq_iff_eq.1 interface)]
    cases l.superName <;> rfl

/-- A brace makes no keyword. -/
theorem isClassKeyword_of_brace {word : List Char} (brace : '\x7b' ∈ word) :
    isClassKeyword word = false := by
  cases keyword : isClassKeyword word with
  | false => rfl
  | true =>
      simp only [isClassKeyword, Bool.or_eq_true, beq_iff_eq] at keyword
      rcases keyword with (rfl | rfl) | rfl <;> exact absurd brace (by decide)

/-- A name in front of the ending makes no keyword either. -/
theorem words_name {name word : List Char} (named : IsClassName name)
    (member : word ∈ (name ++ l.ending).splitOnP isBlank) : isClassKeyword word = false := by
  rw [splitOnP_append named.solid] at member
  cases behind : l.ending with
  | nil =>
      rw [behind] at member
      rw [List.eq_of_mem_singleton member]
      simpa using named.other
  | cons c ending =>
      have words := l.ending_words
      rw [behind, List.splitOnP_cons_eq_if_modifyHead] at words
      rw [behind, List.splitOnP_cons_eq_if_modifyHead] at member
      rcases l.ending_front c (by rw [behind]; rfl) with blank | rfl
      · rw [if_pos blank] at member words
        rcases List.mem_cons.1 member with rfl | member
        · simpa using named.other
        · exact (words word (List.mem_cons_of_mem _ member)).1
      · have solid : ¬ isBlank '\x7b' = true := by decide
        obtain ⟨first, rest, cut, _⟩ := exists_splitOnP isBlank ending
        rw [if_neg solid, cut] at member words
        rcases List.mem_cons.1 member with rfl | member
        · exact isClassKeyword_of_brace (List.mem_append_right _ List.mem_cons_self)
        · exact (words word (List.mem_cons_of_mem _ member)).1

/-- Behind the keyword of a header no other keyword stands. -/
theorem words_names {word : List Char} (member : word ∈ l.names.splitOnP isBlank) :
    isClassKeyword word = false := by
  unfold names clause at member
  cases declared : l.superName with
  | none =>
      rw [declared] at member
      exact l.words_name l.name_class member
  | some parent =>
      have solid : ∀ c ∈ "extends".toList, isBlank c = false := by decide
      have cut : l.name ++ ((" extends ".toList ++ parent) ++ l.ending)
          = l.name ++ ' ' :: ("extends".toList ++ ' ' :: (parent ++ l.ending)) := by
        rw [List.append_assoc]
        rfl
      rw [declared] at member
      dsimp only at member
      rw [cut, List.splitOnP_append_cons _ _ (by decide), List.splitOnP_append_cons _ _ (by decide),
        List.splitOnP_eq_singleton l.name_class.solid, List.splitOnP_eq_singleton solid] at member
      rcases List.mem_cons.1 member with rfl | member
      · exact l.name_class.other
      · rcases List.mem_cons.1 member with rfl | member
        · decide
        · exact l.words_name (l.superName_class parent declared) member

theorem keyword_ne : l.keyword ≠ [] := by
  intro none
  have keyword := l.isKeyword
  rw [none] at keyword
  exact absurd keyword (by decide)

theorem keyword_word : ∀ c ∈ l.keyword, isHeaderWord c = true := by
  have keyword := l.isKeyword
  simp only [isClassKeyword, Bool.or_eq_true, beq_iff_eq] at keyword
  rcases keyword with (keyword | keyword) | keyword <;> rw [keyword] <;> decide +kernel

theorem behind_cons (word : List Char) (modifiers : List (List Char)) :
    l.behind (word :: modifiers) = word ++ ' ' :: l.behind modifiers := by
  simp [behind]

theorem length_behind (modifiers : List (List Char)) :
    modifiers.length < (l.behind modifiers).length := by
  induction modifiers with
  | nil =>
      rw [behind, List.length_append, List.length_append, List.length_cons, List.length_nil]
      omega
  | cons word modifiers ih =>
      rw [behind_cons, List.length_append, List.length_cons, List.length_cons]
      omega

theorem solid_behind {modifiers : List (List Char)} (occupied : ∀ word ∈ modifiers, word ≠ [])
    (whole : ∀ word ∈ modifiers, ∀ c ∈ word, isHeaderWord c = true) :
    ∀ c ∈ (l.behind modifiers).head?, isBlank c = false := by
  cases modifiers with
  | nil => exact solid_head?_word l.keyword_ne l.keyword_word _
  | cons word modifiers =>
      rw [behind_cons]
      exact solid_head?_word (occupied word List.mem_cons_self) (whole word List.mem_cons_self) _

/-- The keyword is the last one of the leading words. -/
theorem findSome?_leadingWords {modifiers : List (List Char)} {fuel : Nat}
    (occupied : ∀ word ∈ modifiers, word ≠ [])
    (whole : ∀ word ∈ modifiers, ∀ c ∈ word, isHeaderWord c = true)
    (enough : modifiers.length < fuel) :
    (leadingWords fuel (l.behind modifiers)).reverse.findSome? (headerAt? rootClass)
      = some l.header := by
  obtain ⟨fuel, rfl⟩ : ∃ fewer, fuel = fewer + 1 := ⟨fuel - 1, by omega⟩
  induction modifiers generalizing fuel with
  | nil =>
      have others : (leadingWords fuel l.names).reverse.findSome? (headerAt? rootClass) = none := by
        rw [List.findSome?_eq_none_iff]
        intro ⟨word, rest⟩ member
        have noKeyword := l.words_names
          (mem_splitOnP_of_mem_leadingWords (List.mem_reverse.1 member))
        simp [headerAt?, noKeyword]
      have first : leadingWords (fuel + 1) (l.behind [])
          = (l.keyword, l.names) :: leadingWords fuel l.names :=
        leadingWords_cons l.keyword_ne l.keyword_word (l.name_class.solid_head? _)
      rw [first, List.reverse_cons, List.findSome?_append, others, List.findSome?_singleton,
        l.headerAt?_line]
      rfl
  | cons word modifiers ih =>
      obtain ⟨wordOccupied, occupied⟩ := List.forall_mem_cons.1 occupied
      obtain ⟨wordWhole, whole⟩ := List.forall_mem_cons.1 whole
      rw [List.length_cons] at enough
      obtain ⟨fuel, rfl⟩ : ∃ fewer, fuel = fewer + 1 := ⟨fuel - 1, by omega⟩
      rw [behind_cons, leadingWords_cons wordOccupied wordWhole (l.solid_behind occupied whole),
        List.reverse_cons, List.findSome?_append, ih occupied whole fuel (by omega)]
      rfl

theorem noBracket_clause : '<' ∉ l.clause := by
  unfold clause
  cases declared : l.superName with
  | none => exact List.not_mem_nil
  | some parent =>
      intro member
      rcases List.mem_append.1 member with word | parent'
      · exact absurd word (by decide)
      · exact ((l.superName_class parent declared).char parent').2.2.2 rfl

theorem noBracket_line : '<' ∉ l.line := by
  have noBracket : ∀ {word : List Char}, (∀ c ∈ word, isHeaderWord c = true) → '<' ∉ word :=
    fun whole member => absurd (whole _ member) (by decide +kernel)
  intro member
  rcases List.mem_append.1 member with modifiers | member
  · obtain ⟨word, there, member⟩ := List.mem_flatMap.1 modifiers
    rcases List.mem_append.1 member with inside | blank
    · exact noBracket (l.modifier_word word there) inside
    · cases List.mem_singleton.1 blank
  · rcases List.mem_append.1 member with keyword | member
    · exact noBracket l.keyword_word keyword
    · rcases List.mem_cons.1 member with blank | member
      · cases blank
      · rcases List.mem_append.1 member with name | member
        · exact (l.name_class.char name).2.2.2 rfl
        · rcases List.mem_append.1 member with clause | ending
          · exact l.noBracket_clause clause
          · exact l.ending_plain ending

theorem trimEndOf_clause : trimEndOf isBlank l.clause = l.clause := by
  unfold clause
  cases declared : l.superName with
  | none => rfl
  | some parent =>
      have named := l.superName_class parent declared
      exact trimEndOf_append_eq_self (fun none => (named.nonempty none).elim)
        (trimEndOf_of_stay named.solid)

theorem trimEndOf_names : trimEndOf isBlank l.names = l.names := by
  have name := trimEndOf_of_stay l.name_class.solid
  have ending := trimEndOf_eq_self_iff.2 l.ending_back
  exact trimEndOf_append_eq_self (fun _ => name)
    (trimEndOf_append_eq_self (fun _ => l.trimEndOf_clause) ending)

/-- No blanks stand around the line. -/
theorem trim_line : trim l.line = l.line := by
  apply trim_eq_self
  · exact l.solid_behind l.modifier_ne l.modifier_word
  · have whole : l.line = (l.modifiers.flatMap (· ++ [' ']) ++ (l.keyword ++ [' '])) ++ l.names := by
      simp [line, behind]
    have occupied : l.names ≠ [] := fun none =>
      l.name_class.nonempty (List.append_eq_nil_iff.1 none).1
    rw [whole]
    exact trimEndOf_append_eq_self (fun none => (occupied none).elim) l.trimEndOf_names

/-- The header of the line is the one laid out. -/
theorem header?_line : header? rootClass l.line = some l.header := by
  rw [header?, stripGenerics_eq_self l.noBracket_line]
  exact l.findSome?_leadingWords l.modifier_ne l.modifier_word (l.length_behind l.modifiers)

end HeaderLayout

/-! ## Methods -/

/-- The parts of a method. -/
structure MethodLayout where
  /-- Lines in front of the method that declare none. -/
  front : List (List Char)
  signature : SignatureLayout
  descriptor : List Char
  mask : List Char
  flags : List Flag
  stack : Numeral UInt16.size
  locals : Numeral UInt16.size
  argsSize : Numeral UInt16.size
  code : List InstructionLayout
  front_other : ∀ line ∈ front, ∀ className, methodName? className (trim line) = none
  isDescriptor : ∃ parsed, Descriptor.parse (String.ofList descriptor) = .ok parsed
  descriptor_trimmed : trim descriptor = descriptor
  mask_whole : ∀ c ∈ mask, isSeparator c = false
  code_ne : code ≠ []
  increasing : code.Pairwise fun insn later => insn.offset.value < later.offset.value

namespace MethodLayout

variable (l : MethodLayout)

/-- The lines of the method, from its signature on. -/
def block : List (List Char) :=
  [l.signature.line, "descriptor: ".toList ++ l.descriptor, flagsLine l.mask l.flags,
    "Code:".toList, metricsLine l.stack l.locals l.argsSize]
    ++ (l.code.map (·.line) ++ [[]])

def lines : List (List Char) :=
  l.front ++ l.block

/-- The method that is laid out. -/
def method : MethodCode where
  name := String.ofList l.signature.name
  descriptor := String.ofList l.descriptor
  flags := .ofList l.flags
  maxStack := UInt16.ofNat l.stack.value
  maxLocals := UInt16.ofNat l.locals.value
  argsSize := UInt16.ofNat l.argsSize.value
  instructions := l.code.map (·.instruction)

end MethodLayout

variable {header : Header} {methods : List MethodCode} {m : Pending} {number : Nat}
  {line : List Char} {rest : List (List Char)} {scan scan' : Scan}

theorem Scan.feedLines_cons (fed : scan.feed number (trim line) = .ok scan') :
    scan.feedLines number (line :: rest) = scan'.feedLines (number + 1) rest := by
  rw [feedLines, fed]
  rfl

/-- Every line of code adds its instruction. -/
theorem InstructionLayout.feed_line (l : InstructionLayout)
    (later : ∀ last ∈ m.latest.head?, last.offset < UInt32.ofNat l.offset.value) :
    (Scan.inside header methods (.code m)).feed number (trim l.line)
      = .ok (.inside header methods (.code { m with latest := l.instruction :: m.latest })) := by
  have added : m.addInstruction number l.line
      ⟨l.offset.digits, l.mnemonic, l.operands ++ l.remark⟩
        = .ok { m with latest := l.instruction :: m.latest } := by
    rw [Pending.addInstruction, l.offset?_line]
    dsimp only
    rw [l.instruction_line]
    cases before : m.latest with
    | nil => rfl
    | cons last latest =>
        have increases := later last (by rw [before]; rfl)
        exact if_neg (UInt32.not_le.2 increases)
  rw [l.trim_line, Scan.feed, codeLine, l.endsCode_line, l.noMetrics_line,
    l.instructionLine?_line]
  dsimp only
  rw [added]
  rfl

theorem ofNat_lt_of_value {n later : Numeral UInt32.size} (increases : n.value < later.value) :
    UInt32.ofNat n.value < UInt32.ofNat later.value := by
  rw [UInt32.lt_iff_toNat_lt, UInt32.toNat_ofNat_of_lt' n.value_lt,
    UInt32.toNat_ofNat_of_lt' later.value_lt]
  exact increases

theorem Scan.feedLines_code {code : List InstructionLayout}
    (increasing : code.Pairwise fun insn later => insn.offset.value < later.offset.value)
    (later : ∀ last ∈ m.latest.head?, ∀ insn ∈ code,
      last.offset < UInt32.ofNat insn.offset.value) :
    (inside header methods (.code m)).feedLines number (code.map (·.line) ++ rest)
      = (inside header methods (.code { m with
          latest := (code.map (·.instruction)).reverse ++ m.latest })).feedLines
          (number + code.length) rest := by
  induction code generalizing m number with
  | nil => rfl
  | cons insn code ih =>
      obtain ⟨first, increasing⟩ := List.pairwise_cons.1 increasing
      have fed : (inside header methods (.code m)).feed number (trim insn.line) = _ :=
        insn.feed_line fun last before => later last before insn List.mem_cons_self
      rw [List.map_cons, List.cons_append, feedLines_cons fed, ih increasing]
      · rw [List.map_cons, List.reverse_cons, List.append_assoc, List.length_cons,
          Nat.add_right_comm]
        rfl
      · intro last before insn' member
        cases before
        exact ofNat_lt_of_value (first insn' member)

theorem MethodLayout.descriptor_ne (l : MethodLayout) : l.descriptor ≠ [] := by
  intro none
  obtain ⟨parsed, accepted⟩ := l.isDescriptor
  rw [none] at accepted
  cases accepted

theorem MethodLayout.feed_descriptor (l : MethodLayout) :
    (Scan.inside header methods (.metadata m)).feed number
        (trim ("descriptor: ".toList ++ l.descriptor))
      = .ok (.inside header methods (.metadata
          { m with descriptor := some (String.ofList l.descriptor) })) := by
  have line : trim ("descriptor: ".toList ++ l.descriptor)
      = "descriptor: ".toList ++ l.descriptor := by
    apply trim_eq_self
    · intro c first
      cases first
      decide
    · exact trimEndOf_append_eq_self (fun none => (l.descriptor_ne none).elim)
        (trimEndOf_of_trim l.descriptor_trimmed)
  have text : dropFront? "descriptor:".toList ("descriptor: ".toList ++ l.descriptor)
      = some (' ' :: l.descriptor) := rfl
  have kept : trim (' ' :: l.descriptor) = l.descriptor :=
    (trim_cons (by decide) l.descriptor).trans l.descriptor_trimmed
  rw [line, Scan.feed, metadataLine, if_neg (by simp), text]
  dsimp only
  rw [kept]

theorem MethodLayout.feed_flags (l : MethodLayout) :
    (Scan.inside header methods (.metadata m)).feed number (trim (flagsLine l.mask l.flags))
      = .ok (.inside header methods (.metadata { m with flags := .ofList l.flags })) := by
  obtain ⟨text, cut, flags⟩ := readFlags_line l.mask_whole l.flags
  have noDescriptor : dropFront? "descriptor:".toList (flagsLine l.mask l.flags) = none := rfl
  have occupied : (flagsLine l.mask l.flags).isEmpty = false := rfl
  rw [trim_flagsLine, Scan.feed, metadataLine, occupied, if_neg Bool.false_ne_true, noDescriptor,
    cut]
  dsimp only
  rw [flags]

theorem feed_code : (Scan.inside header methods (.metadata m)).feed number (trim "Code:".toList)
    = .ok (.inside header methods (.code m)) := by
  have line : trim "Code:".toList = "Code:".toList := by decide
  rw [line]
  rfl

theorem MethodLayout.feed_metrics (l : MethodLayout) :
    (Scan.inside header methods (.code m)).feed number
        (trim (metricsLine l.stack l.locals l.argsSize))
      = .ok (.inside header methods (.code { m with
          size := ⟨UInt16.ofNat l.stack.value, UInt16.ofNat l.locals.value,
            UInt16.ofNat l.argsSize.value⟩ })) := by
  have goesOn : endsCode (metricsLine l.stack l.locals l.argsSize) = false :=
    endsCode_of_head (by decide)
  have metrics : "stack=".toList.isPrefixOf (metricsLine l.stack l.locals l.argsSize) = true := rfl
  rw [trim_metricsLine, Scan.feed, codeLine, goesOn, metrics, readMetrics_line]
  rfl

/-- The method as it has been read at the end of its code. -/
def MethodLayout.pending (l : MethodLayout) (number : Nat) : Pending where
  name := String.ofList l.signature.name
  line := number
  descriptor := some (String.ofList l.descriptor)
  flags := .ofList l.flags
  size := ⟨UInt16.ofNat l.stack.value, UInt16.ofNat l.locals.value, UInt16.ofNat l.argsSize.value⟩
  latest := (l.code.map (·.instruction)).reverse

theorem MethodLayout.close_pending (l : MethodLayout) (number : Nat) :
    (l.pending number).close = .ok (some l.method) := by
  obtain ⟨parsed, accepted⟩ := l.isDescriptor
  have occupied : (l.pending number).latest.isEmpty = false := by simp [pending, l.code_ne]
  rw [Pending.close, occupied, if_neg Bool.false_ne_true]
  simp only [pending, accepted, List.reverse_reverse]
  rfl

theorem MethodLayout.feedLines_open (l : MethodLayout)
    (other : String.ofList l.signature.name ≠ header.name) :
    (Scan.inside header methods .signature).feedLines number l.block
      = (Scan.inside header methods (.code (l.pending number))).feedLines
          (number + 5 + l.code.length) [[]] := by
  have signature : (Scan.inside header methods .signature).feed number (trim l.signature.line)
      = .ok (.inside header methods (.metadata
          { name := String.ofList l.signature.name, line := number })) := by
    rw [Scan.feed, signatureLine, l.signature.methodName?_line other]
  unfold block
  rw [List.cons_append, Scan.feedLines_cons signature, List.cons_append,
    Scan.feedLines_cons l.feed_descriptor, List.cons_append, Scan.feedLines_cons l.feed_flags,
    List.cons_append, Scan.feedLines_cons feed_code, List.cons_append,
    Scan.feedLines_cons l.feed_metrics, List.nil_append,
    Scan.feedLines_code l.increasing (fun last none => by cases none)]
  dsimp only
  rw [List.append_nil]
  rfl

/-- The lines of a method add the method, and nothing stays open. -/
theorem MethodLayout.feedLines_block (l : MethodLayout)
    (other : String.ofList l.signature.name ≠ header.name) :
    (Scan.inside header methods .signature).feedLines number l.block
      = .ok (.inside header (methods ++ [l.method]) .signature) := by
  have closed : (Scan.inside header methods (.code (l.pending number))).feed
      (number + 5 + l.code.length) (trim [])
        = .ok (.inside header (methods ++ [l.method]) .signature) := by
    change ((l.pending number).close >>= _) >>= _ = _
    rw [l.close_pending]
    rfl
  rw [l.feedLines_open other, Scan.feedLines_cons closed]
  rfl

/-! ## Listings -/

/-- The parts of a listing. -/
structure Layout where
  /-- Lines in front of the header that declare no class. -/
  preamble : List (List Char)
  header : HeaderLayout
  methods : List MethodLayout
  /-- Lines behind the last method that declare none. -/
  closing : List (List Char)
  preamble_other : ∀ line ∈ preamble, header? rootClass (trim line) = none
  closing_other : ∀ line ∈ closing, ∀ className, methodName? className (trim line) = none
  noConstructor : ∀ m ∈ methods,
    String.ofList m.signature.name ≠ canonicalName (String.ofList header.name)

namespace Layout

def lines (l : Layout) : List (List Char) :=
  l.preamble ++ l.header.line :: (l.methods.flatMap (·.lines) ++ l.closing)

/-- The class that is laid out. -/
def classCode (l : Layout) : ClassCode where
  name := l.header.header.name
  superName := l.header.header.superName
  methods := l.methods.map (·.method)

end Layout

variable {lines lines' : List (List Char)}

/-- Blanks around a line do not matter. -/
theorem Scan.feedLines_congr (same : lines.map trim = lines'.map trim) (number : Nat)
    (scan : Scan) : scan.feedLines number lines = scan.feedLines number lines' := by
  induction lines generalizing lines' number scan with
  | nil =>
      rw [List.map_eq_nil_iff.1 same.symm]
  | cons line lines ih =>
      cases lines' with
      | nil => cases same
      | cons line' lines' =>
          obtain ⟨first, rest⟩ := List.cons.inj same
          rw [feedLines, feedLines, first]
          exact bind_congr fun scan => ih rest _ _

/-- Lines that change nothing are skipped. -/
theorem Scan.feedLines_skip
    (skips : ∀ line ∈ lines, ∀ number, scan.feed number (trim line) = .ok scan) :
    scan.feedLines number lines = .ok scan := by
  induction lines generalizing number with
  | nil => rfl
  | cons line lines ih =>
      obtain ⟨first, others⟩ := List.forall_mem_cons.1 skips
      rw [feedLines_cons (first number), ih others]

theorem Scan.feedLines_of_append (first : scan.feedLines number lines = .ok scan') :
    scan.feedLines number (lines ++ rest) = scan'.feedLines (number + lines.length) rest := by
  rw [feedLines_append, first]
  rfl

theorem Scan.feed_start (other : header? rootClass line = none) :
    start.feed number line = .ok start := by
  rw [feed, other]

theorem Scan.feed_signature (other : ∀ className, methodName? className line = none) :
    (inside header methods .signature).feed number line = .ok (inside header methods .signature) := by
  rw [feed, signatureLine, other]

theorem MethodLayout.feedLines_lines (l : MethodLayout)
    (other : String.ofList l.signature.name ≠ header.name) :
    (Scan.inside header methods .signature).feedLines number l.lines
      = .ok (.inside header (methods ++ [l.method]) .signature) := by
  have skips : ∀ line ∈ l.front, ∀ number,
      (Scan.inside header methods .signature).feed number (trim line)
        = .ok (.inside header methods .signature) :=
    fun line member number => Scan.feed_signature (l.front_other line member)
  rw [MethodLayout.lines, Scan.feedLines_of_append (Scan.feedLines_skip skips),
    l.feedLines_block other]

theorem Scan.feedLines_methods {layouts : List MethodLayout}
    (others : ∀ l ∈ layouts, String.ofList l.signature.name ≠ header.name) :
    (inside header methods .signature).feedLines number (layouts.flatMap (·.lines))
      = .ok (.inside header (methods ++ layouts.map (·.method)) .signature) := by
  induction layouts generalizing methods number with
  | nil =>
      rw [List.map_nil, List.append_nil]
      rfl
  | cons l layouts ih =>
      obtain ⟨first, others⟩ := List.forall_mem_cons.1 others
      rw [List.flatMap_cons, feedLines_of_append (l.feedLines_lines first), ih others,
        List.append_assoc]
      rfl

/-- **Every listing in the documented layout is read in full.** Whatever the parts are and
however its lines are indented, the class has the names of the header and, in order, every
method with its name, descriptor, flags, metrics and instructions. -/
theorem Layout.parse_text (l : Layout) {text : String}
    (laid : (Text.lines text.toList).map trim = l.lines.map trim) :
    parse text = .ok l.classCode := by
  have skips : ∀ line ∈ l.preamble, ∀ number, Scan.start.feed number (trim line) = .ok .start :=
    fun line member number => Scan.feed_start (l.preamble_other line member)
  have header : ∀ number, Scan.start.feed number (trim l.header.line)
      = .ok (.inside l.header.header [] .signature) := by
    intro number
    rw [l.header.trim_line, Scan.feed, l.header.header?_line]
  have closing : ∀ line ∈ l.closing, ∀ number,
      (Scan.inside l.header.header (l.methods.map (·.method)) .signature).feed number (trim line)
        = .ok (.inside l.header.header (l.methods.map (·.method)) .signature) :=
    fun line member number => Scan.feed_signature (l.closing_other line member)
  rw [parse, Scan.feedLines_congr laid, lines, Scan.feedLines_of_append (Scan.feedLines_skip skips),
    Scan.feedLines_cons (header _),
    Scan.feedLines_of_append (Scan.feedLines_methods l.noConstructor), List.nil_append,
    Scan.feedLines_skip closing]
  rfl

/-- A listing with zeros in front of numbers and a comment that has slashes of its own. -/
def adderLines : List (List Char) :=
  ["Compiled from Adder.java".toList, "public class demo.Adder extends demo.Base \x7b".toList,
    "  static int add(java.lang.String);".toList, "    descriptor: (Ljava/lang/String;)I".toList,
    "    flags: (0x0008) ACC_STATIC".toList, "    Code:".toList,
    "      stack=2, locals=01, args_size=1".toList,
    "         0: ldc   #2, 0x1f   // String a // b".toList, "        02: ireturn".toList, [],
    "\x7d".toList]

/-- Its text. -/
def adderListing : String :=
  String.ofList (adderLines.flatMap (· ++ ['\n']))

/-- Its class. -/
def adderClass : ClassCode where
  name := "demo/Adder"
  superName := "demo/Base"
  methods :=
    [{ name := "add"
       descriptor := "(Ljava/lang/String;)I"
       flags := .ofList [.accStatic]
       maxStack := 2
       maxLocals := 1
       argsSize := 1
       instructions :=
         [⟨0, .ldc, [.pool 2, .int 31], some "String a // b"⟩, ⟨2, .returnValue .int, [], none⟩] }]

/-- Its instructions, laid out. -/
def adderCode : List InstructionLayout :=
  [{ offset := ⟨['0'], by decide, by decide, by decide⟩
     gap := ⟨[' '], by decide, by decide⟩
     mnemonic := "ldc".toList
     space := ⟨"   ".toList, by decide, by decide⟩
     words := ["#2".toList, "0x1f".toList]
     margin := ⟨"   ".toList, by decide, by decide⟩
     comment := some "String a // b".toList
     mnemonic_head := ⟨'l', rfl, by decide⟩
     mnemonic_chars := by decide
     isToken := List.forall_mem_cons.2 ⟨⟨by decide, by decide, by decide⟩,
       List.forall_mem_singleton.2 ⟨by decide, by decide, by decide⟩⟩
     comment_ne := by decide
     comment_trimmed := by decide },
   { offset := ⟨"02".toList, by decide, by decide, by decide⟩
     gap := ⟨[' '], by decide, by decide⟩
     mnemonic := "ireturn".toList
     space := ⟨[' '], by decide, by decide⟩
     words := []
     margin := ⟨[' '], by decide, by decide⟩
     comment := none
     mnemonic_head := ⟨'i', rfl, by decide⟩
     mnemonic_chars := by decide
     isToken := nofun
     comment_ne := nofun
     comment_trimmed := nofun }]

/-- Its method, laid out. -/
def adderMethod : MethodLayout where
  front := []
  signature :=
    { modifiers := "static".toList
      type := "int".toList
      name := "add".toList
      params := "java.lang.String".toList
      modifiers_plain := by unfold IsPlain; decide
      type_plain := by unfold IsPlain; decide
      name_plain := by unfold IsPlain; decide
      params_plain := by unfold IsPlain; decide
      name_ne := by decide
      name_solid := by decide
      name_noDot := by decide }
  descriptor := "(Ljava/lang/String;)I".toList
  mask := "0008".toList
  flags := [.accStatic]
  stack := ⟨"2".toList, by decide, by decide, by decide⟩
  locals := ⟨"01".toList, by decide, by decide, by decide⟩
  argsSize := ⟨"1".toList, by decide, by decide, by decide⟩
  code := adderCode
  front_other := nofun
  isDescriptor := ⟨_, rfl⟩
  descriptor_trimmed := by decide
  mask_whole := by decide
  code_ne := by decide
  increasing := by decide

/-- Its header, laid out. -/
def adderHeader : HeaderLayout where
  modifiers := ["public".toList]
  keyword := "class".toList
  name := "demo.Adder".toList
  superName := some "demo.Base".toList
  ending := " \x7b".toList
  modifier_ne := by decide
  modifier_word := by decide +kernel
  isKeyword := by decide
  name_class := ⟨by decide, by decide, by decide, by decide⟩
  superName_class := by
    intro parent declared
    cases declared
    exact ⟨by decide, by decide, by decide, by decide⟩
  ending_front := by
    intro c first
    cases first
    decide
  ending_back := by
    intro c last
    cases last
    decide
  ending_plain := by decide
  ending_words := by decide

/-- The whole listing, laid out. -/
def adderLayout : Layout where
  preamble := ["Compiled from Adder.java".toList]
  header := adderHeader
  methods := [adderMethod]
  closing := ["\x7d".toList]
  preamble_other := by decide +kernel
  closing_other := List.forall_mem_singleton.2 fun className => rfl
  noConstructor := by decide

theorem parse_adder :
    (Text.lines adderListing.toList).map trim = adderLayout.lines.map trim
      ∧ parse adderListing = .ok adderClass := by
  have laid : (Text.lines adderListing.toList).map trim = adderLayout.lines.map trim := by
    rw [adderListing, String.toList_ofList]
    decide +kernel
  have same : adderLayout.classCode = adderClass := by decide +kernel
  exact ⟨laid, by rw [adderLayout.parse_text laid, same]⟩

end Listing

end ClassMachine
