import ClassMachine.Descriptor
import ClassMachine.Proofs.Outcome
import ClassMachine.Proofs.Text

/-!
# The grammar of descriptors

`Ty.Written` and `Descriptor.Written` are the grammar, apart from the reader: which texts
stand for a type, and how a descriptor is made of them. The reader accepts the texts of the
grammar and no others, and gives what they stand for (`Descriptor.parse_eq_ok_iff`). The
written form of a descriptor is such a text, with the class names in canonical form
(`Descriptor.Written.text`, `Descriptor.WellFormed.written`).
-/

namespace ClassMachine

open Text

variable {ty : Ty} {types : List Ty} {cs text rest : List Char} {d d' : Descriptor} {s : String}

/-! ## The grammar -/

/-- The text is that of a field type: a letter, or `L`, a name and `;`, or `[` and the
text of a field type. -/
inductive Ty.Written : Ty → List Char → Prop
  | byte : Written .byte ['B']
  | char : Written .char ['C']
  | short : Written .short ['S']
  | boolean : Written .boolean ['Z']
  | int : Written .int ['I']
  | long : Written .long ['J']
  | float : Written .float ['F']
  | double : Written .double ['D']
  | object {name : List Char} : name ≠ [] → ';' ∉ name →
    Written (.object (canonicalName (String.ofList name))) ('L' :: name ++ [';'])
  | array {component : Ty} {text : List Char} :
    Written component text → Written (.array component) ('[' :: text)

/-- The text is made of those of the field types, in order. -/
inductive Ty.WrittenInRow : List Ty → List Char → Prop
  | nil : WrittenInRow [] []
  | cons {ty : Ty} {types : List Ty} {text rest : List Char} :
    ty.Written text → WrittenInRow types rest → WrittenInRow (ty :: types) (text ++ rest)

/-- The text of a result is that of a field type or `V`. -/
def Ty.WrittenAsResult (ty : Ty) (text : List Char) : Prop :=
  ty.Written text ∨ ty = .void ∧ text = ['V']

/-- The text is `(`, that of the parameters, `)` and that of the result. The parameters
have no `)` in them, and the result is on one line. -/
structure Descriptor.Written (d : Descriptor) (s : String) (params result : List Char) :
    Prop where
  whole : s = "(" ++ String.ofList params ++ ")" ++ String.ofList result
  closed : ')' ∉ params
  params : Ty.WrittenInRow d.params params
  line : '\n' ∉ result
  result : d.result.WrittenAsResult result

/-! ## Field types -/

namespace Ty

theorem Written.ne_void (written : ty.Written text) : ty ≠ .void := by
  cases written <;> exact nofun

theorem Written.ne_nil (written : ty.Written text) : text ≠ [] := by
  cases written <;> exact nofun

/-- A field type can be the type of elements. -/
theorem Written.arrayOf (written : ty.Written text) (rest : List Char) :
    Ty.arrayOf (ty, rest) = .ok (.array ty, rest) := by
  cases written <;> rfl

/-- The text of a field type is read in full, whatever stands behind it. -/
theorem Written.decode (written : ty.Written text) (rest : List Char) :
    Ty.decode (text ++ rest) = .ok (ty, rest) := by
  induction written with
  | @object name nonempty free =>
      have cut : cutFirst? ';' (name ++ ';' :: rest) = some (name, rest) :=
        cutFirst?_append free rest
      have joined : 'L' :: name ++ [';'] ++ rest = 'L' :: (name ++ ';' :: rest) := by simp
      rw [joined, Ty.decode, decodeClass, cut]
      cases name with
      | nil => exact (nonempty rfl).elim
      | cons c name => rfl
  | array component ih =>
      rw [List.cons_append, Ty.decode, ih]
      exact component.arrayOf rest
  | _ => rfl

/-- So is `V`. -/
theorem WrittenAsResult.decode (written : ty.WrittenAsResult text) (rest : List Char) :
    Ty.decode (text ++ rest) = .ok (ty, rest) := by
  rcases written with field | ⟨rfl, rfl⟩
  · exact field.decode rest
  · rfl

theorem writtenAsResult_of_ofCode? {c : Char} (code : ofCode? c = some ty) :
    ty.WrittenAsResult [c] := by
  unfold ofCode? at code
  split at code <;> cases code
  case h_1 => exact Or.inl .byte
  case h_2 => exact Or.inl .char
  case h_3 => exact Or.inl .short
  case h_4 => exact Or.inl .boolean
  case h_5 => exact Or.inl .int
  case h_6 => exact Or.inl .long
  case h_7 => exact Or.inl .float
  case h_8 => exact Or.inl .double
  case h_9 => exact Or.inr ⟨rfl, rfl⟩

theorem written_of_decodeClass (read : decodeClass cs = .ok (ty, rest)) :
    ∃ text, 'L' :: cs = text ++ rest ∧ ty.Written text := by
  unfold decodeClass at read
  split at read
  · cases read
  · cases read
  · rename_i name rest' nonempty cut
    cases read
    have whole := cutFirst?_eq_some cut
    refine ⟨'L' :: name ++ [';'], by rw [whole]; simp, .object ?_ (notMem_of_cutFirst? cut)⟩
    rintro rfl
    exact nonempty rfl

theorem writtenAsResult_of_arrayOf {component : Ty × List Char}
    (written : component.1.WrittenAsResult text) (read : arrayOf component = .ok (ty, rest)) :
    rest = component.2 ∧ ty.WrittenAsResult ('[' :: text) := by
  obtain ⟨component, rest'⟩ := component
  rcases written with field | ⟨rfl, rfl⟩
  · rw [field.arrayOf] at read
    cases read
    exact ⟨rfl, Or.inl field.array⟩
  · cases read

/-- Whatever is read is the text of a field type, or `V`. -/
theorem written_of_decode (read : Ty.decode cs = .ok (ty, rest)) :
    ∃ text, cs = text ++ rest ∧ ty.WrittenAsResult text := by
  induction cs generalizing ty rest with
  | nil => cases read
  | cons c cs ih =>
      unfold Ty.decode at read
      split at read
      · cases read
      · rename_i cs' same
        cases same
        obtain ⟨component, inner, array⟩ := bind_eq_ok.1 read
        obtain ⟨text, rfl, written⟩ := ih inner
        obtain ⟨rfl, written⟩ := writtenAsResult_of_arrayOf written array
        exact ⟨'[' :: text, rfl, written⟩
      · rename_i cs' same
        cases same
        obtain ⟨text, whole, written⟩ := written_of_decodeClass read
        exact ⟨text, whole, Or.inl written⟩
      · rename_i c' cs' _ _ same
        cases same
        split at read
        · rename_i ty' code
          cases read
          exact ⟨[c], rfl, writtenAsResult_of_ofCode? code⟩
        · cases read

end Ty

/-! ## Parameters and results -/

namespace Descriptor

/-- A parameter is read at the front, and the others behind it. -/
theorem decodeParams_cons_eq_ok {fuel : Nat} {c : Char} :
    decodeParams (fuel + 1) (c :: cs) = .ok types ↔
      ∃ ty rest others, Ty.decode (c :: cs) = .ok (ty, rest) ∧ ty ≠ .void ∧
        decodeParams fuel rest = .ok others ∧ types = ty :: others := by
  rw [decodeParams]
  constructor
  · intro read
    split at read
    · cases read
    · cases read
    · rename_i ty rest field first
      cases behind : decodeParams fuel rest with
      | error flaw =>
          rw [behind] at read
          cases read
      | ok others =>
          rw [behind] at read
          cases read
          exact ⟨ty, rest, others, first, field, behind, rfl⟩
  · rintro ⟨ty, rest, others, first, field, behind, rfl⟩
    rw [first]
    split
    · rename_i failed
      cases failed
    · rename_i void
      cases void
      exact (field rfl).elim
    · rename_i same
      cases same
      rw [behind]
      rfl

/-- Parameters are read from their texts in a row, with fuel for every character. -/
theorem decodeParams_eq_ok_iff {fuel : Nat} (enough : cs.length ≤ fuel) :
    decodeParams fuel cs = .ok types ↔ Ty.WrittenInRow types cs := by
  constructor
  · intro read
    -- No parameter is empty, so there are not more of them than characters.
    induction fuel generalizing cs types with
    | zero =>
        obtain rfl := List.eq_nil_of_length_eq_zero (Nat.le_zero.1 enough)
        cases read
        exact .nil
    | succ fuel ih =>
        cases cs with
        | nil =>
            cases read
            exact .nil
        | cons c cs =>
            obtain ⟨ty, rest, others, first, field, behind, rfl⟩ := decodeParams_cons_eq_ok.1 read
            obtain ⟨text, whole, written⟩ := Ty.written_of_decode first
            have written := written.resolve_right fun void => field void.1
            have occupied := List.length_pos_iff.2 written.ne_nil
            have length := congrArg List.length whole
            simp only [List.length_cons, List.length_append] at enough length
            rw [whole]
            exact .cons written (ih (by omega) behind)
  · intro written
    -- Each text is read in front of the others, which are read with one unit less.
    induction written generalizing fuel with
    | nil => cases fuel <;> rfl
    | @cons ty types text rest first others ih =>
        have read := first.decode rest
        obtain ⟨c, text, rfl⟩ := List.exists_cons_of_ne_nil first.ne_nil
        cases fuel with
        | zero => cases enough
        | succ fuel =>
            simp only [List.cons_append, List.length_cons, List.length_append] at enough
            exact decodeParams_cons_eq_ok.2
              ⟨ty, rest, types, read, first.ne_void, ih (by omega), rfl⟩

theorem decodeResult_eq_ok_iff : decodeResult cs = .ok ty ↔ ty.WrittenAsResult cs := by
  unfold decodeResult
  constructor
  · intro read
    split at read
    · cases read
    · rename_i ty' first
      cases read
      obtain ⟨text, rfl, written⟩ := Ty.written_of_decode first
      rwa [List.append_nil]
    · cases read
  · intro written
    have read := written.decode []
    rw [List.append_nil] at read
    rw [read]

/-! ## Descriptors -/

/-- A text is divided at the first `)`. -/
theorem divide?_eq_some_iff {params result : List Char} :
    divide? cs = some (params, result) ↔
      cs = '(' :: params ++ ')' :: result ∧ ')' ∉ params ∧ result ≠ [] ∧ '\n' ∉ result := by
  constructor
  · intro divided
    unfold divide? at divided
    split at divided
    · split at divided
      · rename_i cut
        split at divided
        · cases divided
        · rename_i good
          cases divided
          simp only [Bool.or_eq_true, List.isEmpty_iff, List.contains_iff_mem, not_or] at good
          exact ⟨congrArg _ (cutFirst?_eq_some cut), notMem_of_cutFirst? cut, good⟩
      · cases divided
    · cases divided
  · rintro ⟨rfl, closed, occupied, line⟩
    have cut := cutFirst?_append closed result
    have good : (result.isEmpty || result.contains '\n') = false := by
      simpa [occupied] using line
    simp only [List.cons_append, divide?, cut, good]
    rfl

theorem Written.divide? {params result : List Char} (written : d.Written s params result) :
    divide? s.toList = some (params, result) := by
  have occupied : result ≠ [] := by
    rcases written.result with field | ⟨_, rfl⟩
    · exact field.ne_nil
    · exact nofun
  refine divide?_eq_some_iff.2 ⟨?_, written.closed, occupied, written.line⟩
  rw [written.whole]
  simp

theorem parse_eq_ok_iff : parse s = .ok d ↔ ∃ params result, d.Written s params result := by
  have decoded : parse s = .ok d ↔ decode s.toList = .ok d := by
    unfold parse
    cases decode s.toList <;> simp [Except.mapError]
  rw [decoded]
  constructor
  · intro read
    unfold decode at read
    split at read
    · cases read
    · rename_i params result divided
      obtain ⟨types, first, read⟩ := bind_eq_ok.1 read
      obtain ⟨ty, last, read⟩ := bind_eq_ok.1 read
      cases read
      obtain ⟨whole, closed, _, line⟩ := divide?_eq_some_iff.1 divided
      refine ⟨params, result, ?_, closed, ?_, line, ?_⟩
      · apply String.toList_injective
        simp [whole]
      · exact (decodeParams_eq_ok_iff (Nat.le_refl _)).1 first
      · exact decodeResult_eq_ok_iff.1 last
  · rintro ⟨params, result, written⟩
    unfold decode
    rw [written.divide?]
    exact bind_eq_ok.2 ⟨_, (decodeParams_eq_ok_iff (Nat.le_refl _)).2 written.params,
      bind_eq_ok.2 ⟨_, decodeResult_eq_ok_iff.2 written.result, rfl⟩⟩

/-- A text can be read in one way only. -/
theorem Written.unique {params result params' result' : List Char}
    (written : d.Written s params result) (written' : d'.Written s params' result') :
    d' = d ∧ params' = params ∧ result' = result := by
  have read := parse_eq_ok_iff.2 ⟨params, result, written⟩
  have read' := parse_eq_ok_iff.2 ⟨params', result', written'⟩
  rw [read] at read'
  cases read'
  have divided := written.divide?
  rw [written'.divide?] at divided
  cases divided
  exact ⟨rfl, rfl, rfl⟩

end Descriptor

/-! ## The written form -/

namespace Ty

theorem Written.text_eq (written : ty.Written text) :
    ty.text = canonicalName (String.ofList text) := by
  induction written with
  | @object name nonempty free =>
      have whole : String.ofList ('L' :: name ++ [';']) = "L" ++ String.ofList name ++ ";" := by
        apply String.toList_injective
        simp
      rw [whole, canonicalName_append, canonicalName_append]
      rfl
  | @array component text written ih =>
      have whole : String.ofList ('[' :: text) = "[" ++ String.ofList text := by
        apply String.toList_injective
        simp
      rw [whole, canonicalName_append, ← ih]
      rfl
  | _ => rfl

theorem WrittenAsResult.text_eq (written : ty.WrittenAsResult text) :
    ty.text = canonicalName (String.ofList text) := by
  rcases written with field | ⟨rfl, rfl⟩
  · exact field.text_eq
  · rfl

theorem WrittenInRow.text_eq (written : WrittenInRow types text) :
    String.join (types.map Ty.text) = canonicalName (String.ofList text) := by
  induction written with
  | nil => rfl
  | cons first _ ih =>
      rw [List.map_cons, String.join_cons, ih, first.text_eq, ← canonicalName_append,
        String.ofList_append]

/-- What a type can be that stands for a value: its class names are in canonical form. -/
def IsField : Ty → Prop
  | .void => False
  | .object name => name ≠ "" ∧ ';' ∉ name.toList ∧ '.' ∉ name.toList
  | .array component => component.IsField
  | _ => True

theorem Written.isField (written : ty.Written text) : ty.IsField := by
  induction written with
  | @object name nonempty free =>
      have named : (String.ofList name).toList ≠ [] := by
        rwa [String.toList_ofList]
      refine ⟨canonicalName_ne_empty named, fun member => ?_, fun member => ?_⟩
      · rcases (mem_canonicalName member).2 with slash | inside
        · cases slash
        · rw [String.toList_ofList] at inside
          exact free inside
      · exact (mem_canonicalName member).1 rfl
  | array _ ih => exact ih
  | _ => trivial

/-- A type that stands for a value has a text, its written form. -/
theorem IsField.written (field : ty.IsField) : ty.Written ty.text.toList := by
  induction ty with
  | void => exact field.elim
  | object name =>
      obtain ⟨named, free, noDot⟩ := field
      have nonempty : name.toList ≠ [] := by
        simpa using named
      have written := Written.object nonempty free
      rw [String.ofList_toList, canonicalName_eq_self noDot] at written
      simpa [Ty.text] using written
  | array component ih =>
      have written := (ih field).array
      simpa [Ty.text] using written
  | byte => exact .byte
  | char => exact .char
  | short => exact .short
  | boolean => exact .boolean
  | int => exact .int
  | long => exact .long
  | float => exact .float
  | double => exact .double

theorem writtenInRow_of_isField (fields : ∀ ty ∈ types, ty.IsField) :
    WrittenInRow types (String.join (types.map Ty.text)).toList := by
  induction types with
  | nil => exact .nil
  | cons ty types ih =>
      obtain ⟨first, others⟩ := List.forall_mem_cons.1 fields
      rw [List.map_cons, String.join_cons, String.toList_append]
      exact .cons first.written (ih others)

/-- The types in a row are field types, and whatever is in the written form of one of them
but a slash is in the text. -/
theorem WrittenInRow.each (written : WrittenInRow types text) :
    ∀ ty ∈ types, ty.IsField ∧ ∀ c ∈ ty.text.toList, c = '/' ∨ c ∈ text := by
  induction written with
  | nil => exact nofun
  | @cons ty types text rest first _ ih =>
      rw [List.forall_mem_cons]
      refine ⟨⟨first.isField, fun c member => ?_⟩, fun ty member => ?_⟩
      · rw [first.text_eq] at member
        rcases (mem_canonicalName member).2 with slash | inside
        · exact Or.inl slash
        · rw [String.toList_ofList] at inside
          exact Or.inr (List.mem_append_left rest inside)
      · obtain ⟨field, chars⟩ := ih ty member
        exact ⟨field, fun c inside => (chars c inside).imp_right (List.mem_append_right text)⟩

/-- Longs and doubles take one slot more than the others. -/
theorem slots_of_isField (field : ty.IsField) :
    ty.slots = if ty = .long ∨ ty = .double then 2 else 1 := by
  cases ty with
  | void => exact field.elim
  | _ => rfl

end Ty

namespace Descriptor

/-- A descriptor that has a written form: the parameters stand for values, with no `)` in
them, and so does the result, on one line, unless it is void. -/
structure WellFormed (d : Descriptor) : Prop where
  params : ∀ ty ∈ d.params, ty.IsField ∧ ')' ∉ ty.text.toList
  result : d.result = .void ∨ d.result.IsField ∧ '\n' ∉ d.result.text.toList

theorem Written.text_eq {params result : List Char} (written : d.Written s params result) :
    d.text = canonicalName s := by
  rw [written.whole, canonicalName_append, canonicalName_append, canonicalName_append,
    ← written.params.text_eq, ← written.result.text_eq]
  rfl

theorem Written.wellFormed {params result : List Char} (written : d.Written s params result) :
    d.WellFormed where
  params := by
    intro ty member
    obtain ⟨field, chars⟩ := written.params.each ty member
    refine ⟨field, fun closing => ?_⟩
    rcases chars ')' closing with slash | inside
    · cases slash
    · exact written.closed inside
  result := by
    rcases written.result with field | ⟨void, _⟩
    · refine Or.inr ⟨field.isField, fun feed => ?_⟩
      rw [field.text_eq] at feed
      rcases (mem_canonicalName feed).2 with slash | inside
      · cases slash
      · rw [String.toList_ofList] at inside
        exact written.line inside
    · exact Or.inl void

theorem WellFormed.written (formed : d.WellFormed) :
    ∃ params result, d.Written d.text params result := by
  refine ⟨(String.join (d.params.map Ty.text)).toList, d.result.text.toList, ?_, ?_,
    Ty.writtenInRow_of_isField fun ty member => (formed.params ty member).1, ?_, ?_⟩
  · rw [String.ofList_toList, String.ofList_toList, text]
  · rw [String.toList_join]
    intro closing
    obtain ⟨part, member, inside⟩ := List.mem_flatMap.1 closing
    obtain ⟨ty, there, rfl⟩ := List.mem_map.1 member
    exact (formed.params ty there).2 inside
  · rcases formed.result with void | ⟨_, line⟩
    · rw [void]
      decide
    · exact line
  · rcases formed.result with void | ⟨field, _⟩
    · exact Or.inr ⟨void, by rw [void]; rfl⟩
    · exact Or.inl field.written

theorem argSlots_eq (fields : ∀ ty ∈ d.params, ty.IsField) :
    d.argSlots = d.params.length + d.params.countP fun ty => ty = .long ∨ ty = .double := by
  rw [argSlots]
  generalize d.params = types at fields
  induction types with
  | nil => rfl
  | cons ty types ih =>
      obtain ⟨first, others⟩ := List.forall_mem_cons.1 fields
      rw [List.foldr_cons, ih others, Ty.slots_of_isField first, List.countP_cons,
        List.length_cons]
      by_cases wide : ty = .long ∨ ty = .double <;> simp [wide] <;> omega

/-- **Descriptors are read by their grammar, and printing inverts reading.** A text is read
as a descriptor if and only if it is `(`, texts of field types without `)`, `)` and, on one
line, the text of a field type or `V`; then it is so in one way only. The parameters are
those of the text, in order, and take one slot each and one more for each long or double;
the written form is the text with slashes in the place of dots. The descriptors that are
read are those that are well formed, and each of them is read back from its written form. -/
theorem parse_grammar (s : String) :
    (∀ d, parse s = .ok d ↔ ∃ params result, d.Written s params result) ∧
    (∀ (d d' : Descriptor) params result params' result', d.Written s params result →
      d'.Written s params' result' → d' = d ∧ params' = params ∧ result' = result) ∧
    (∀ d, parse s = .ok d → d.WellFormed ∧ d.argCount = d.params.length ∧
      d.argSlots = d.params.length + (d.params.countP fun ty => ty = .long ∨ ty = .double) ∧
      d.text = Text.substitute '.' '/' s) ∧
    ∀ d : Descriptor, d.WellFormed → parse d.text = .ok d := by
  refine ⟨fun d => parse_eq_ok_iff, fun d d' _ _ _ _ => Written.unique, fun d read => ?_,
    fun d formed => parse_eq_ok_iff.2 formed.written⟩
  obtain ⟨params, result, written⟩ := parse_eq_ok_iff.1 read
  have formed := written.wellFormed
  exact ⟨formed, rfl, argSlots_eq fun ty member => (formed.params ty member).1, written.text_eq⟩

/-- A class in dots, an array of wide elements and a wide parameter. -/
theorem mixed_parse_grammar :
    ∃ d, parse "(JLa.b;[[D)La.c;" = .ok d ∧
      d.params = [.long, .object "a/b", .array (.array .double)] ∧ d.argSlots = 4 ∧
      d.text = "(JLa/b;[[D)La/c;" ∧ parse d.text = .ok d := by
  have read : parse "(JLa.b;[[D)La.c;" =
      .ok ⟨[.long, .object "a/b", .array (.array .double)], .object "a/c"⟩ := by
    rfl
  obtain ⟨_, _, reads, prints⟩ := parse_grammar "(JLa.b;[[D)La.c;"
  obtain ⟨formed, _, slots, text⟩ := reads _ read
  exact ⟨_, read, rfl, slots, text, prints _ formed⟩

end Descriptor

end ClassMachine
