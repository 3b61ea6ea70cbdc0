import ClassMachine.Proofs.Captures
import ClassMachine.Proofs.LastDefinition
import ClassMachine.Proofs.Signatures
import ClassMachine.Normal

/-!
# Methods and constructors

A method is recorded under the name in its signature, and as `<init>` exactly if that is the
name of the class (`MethodHeading.captured_name`). Constructors are written so, but a method
of the same name is taken for one too. This can only happen to a class without a package,
since no simple name is the name of a class with one. Every other method is found beside the
constructors once the class is loaded (`StandsApart`).

The name is the last word of what is left of the signature in front of its parameters, so
neither modifiers nor the return type nor type parameters in them matter
(`MethodHeading.methodName?_line`).
-/

namespace ClassMachine.Listing

open Text

variable {className : String} {c n : ClassCode} {method : MethodCode}

/-! ## Signatures of methods -/

/-- A simple name. -/
structure IsSimpleName (name : List Char) : Prop where
  nonempty : name ≠ []
  solid : ∀ c ∈ name, isBlank c = false
  plain : ∀ c ∈ name, c ∉ ['(', ')', '<', '>', '.', '/']

/-- The words that may stand before a return type. -/
def modifierWords : List String :=
  ["public", "protected", "private", "static", "final", "abstract", "synchronized", "native",
    "default", "strictfp"]

/-- A return type: one word that is no modifier, with lists of type parameters in it. -/
structure IsReturnType (type : List Char) : Prop where
  paired : Balanced type
  plain : '(' ∉ type
  solid : ∀ c ∈ stripGenerics type, isBlank c = false
  word : String.ofList (stripGenerics type) ∉ "" :: modifierWords

/-- The parts of a signature that has a return type. The modifiers, lists of type
parameters among them, end in a blank. -/
structure MethodHeading where
  modifiers : List Char
  type : List Char
  name : List Char
  params : List Char
  modifiers_paired : Balanced modifiers
  modifiers_plain : '(' ∉ modifiers
  modifiers_end : modifiers.getLast?.all isBlank = true
  returns : IsReturnType type
  simple : IsSimpleName name
  params_paired : Balanced params
  params_plain : ')' ∉ params

namespace MethodHeading

variable (l : MethodHeading)

/-- What stands in front of the name. -/
def front : List Char :=
  l.modifiers ++ l.type

/-- The whole line: `modifiers type name(params);`. -/
def line : List Char :=
  l.front ++ ' ' :: (l.name ++ '(' :: (l.params ++ [')', ';']))

theorem noBracket_name {b : Char} (bracket : b ∈ ['(', ')', '<', '>', '.', '/']) : b ∉ l.name :=
  fun member => l.simple.plain b member bracket

/-- What is left of the front without type parameters, and the blank behind it. -/
def words : List Char :=
  stripGenerics l.modifiers ++ stripGenerics l.type ++ [' ']

/-- What is left of the whole line. -/
theorem stripGenerics_line : stripGenerics l.line
    = (l.words ++ l.name) ++ '(' :: (stripGenerics l.params ++ [')', ';']) := by
  have named : '<' ∉ ' ' :: (l.name ++ ['(']) := by
    simp [l.noBracket_name (b := '<') (by decide)]
  have closing : '>' ∉ ' ' :: (l.name ++ ['(']) := by
    simp [l.noBracket_name (b := '>') (by decide)]
  have whole : l.line = l.modifiers ++ (l.type ++ ((' ' :: (l.name ++ ['('])) ++
      (l.params ++ [')', ';']))) := by
    simp [line, front]
  have ending : stripGenerics [')', ';'] = [')', ';'] := rfl
  rw [whole, stripGenerics_append l.modifiers_paired, stripGenerics_append l.returns.paired,
    stripGenerics_append (balanced_of_not_mem named closing), stripGenerics_append l.params_paired,
    stripGenerics_eq_self named, ending]
  simp [words]

/-- The name that is declared, if a word stands at the front of what is left. -/
theorem signature?_line : signature? l.line
    = if l.words.head?.any isBlank then none else some l.name := by
  have noOpening : '(' ∉ l.words ++ l.name := by
    intro member
    rcases List.mem_append.1 member with front | name
    · rcases List.mem_append.1 front with parts | blank
      · rcases List.mem_append.1 parts with modifier | type
        · exact l.modifiers_plain (mem_of_mem_stripFrom modifier)
        · exact l.returns.plain (mem_of_mem_stripFrom type)
      · exact absurd blank (by decide)
    · exact l.noBracket_name (by decide) name
  have noClosing : ')' ∉ stripGenerics l.params := mt mem_of_mem_stripFrom l.params_plain
  have ends : ∀ c ∈ l.words.getLast?, isBlank c = true := by
    intro c last
    rw [words, List.getLast?_concat] at last
    cases last
    decide
  rw [signature?_eq l.stripGenerics_line noOpening noClosing,
    signatureName?_append ends l.simple.nonempty l.simple.solid]

/-- The name under which the line is recorded: the declared one, if it is not that of the
class. -/
theorem methodName?_line : methodName? className l.line
    = if l.words.head?.any isBlank then none
      else some (if String.ofList l.name = className then "<init>" else String.ofList l.name) := by
  have declared : '(' ∈ l.line := by simp [line]
  have plain : canonicalName (String.ofList l.name) = String.ofList l.name :=
    canonicalName_eq_self (by rw [String.toList_ofList]; exact l.noBracket_name (by decide))
  rw [methodName?, isClassInitializer_eq_false declared, signature?_line]
  simp only [Bool.false_eq_true, if_false]
  split
  · rfl
  · simp only [Option.map_some, plain]

/-- No simple name is the name of a class with a package. -/
theorem name_ne_of_package (package : '/' ∈ className.toList) :
    String.ofList l.name ≠ className := by
  rintro rfl
  rw [String.toList_ofList] at package
  exact l.noBracket_name (by decide) package

/-- The name of constructors is not a simple one. -/
theorem name_ne_init : String.ofList l.name ≠ "<init>" := by
  intro same
  have bracket : '<' ∈ l.name := by
    rw [← String.toList_ofList (l := l.name), same]
    decide
  exact l.noBracket_name (by decide) bracket

end MethodHeading

/-! ## Methods of a loaded class -/

theorem signature_normalize {m m' : MethodCode} (normal : m.normalize className = .ok m') :
    m'.signature = m.signature := by
  obtain ⟨_, _, done⟩ := bind_eq_ok.1 normal
  cases done
  rfl

theorem exists_signature_normalize (normal : c.normalize = .ok n) (member : method ∈ c.methods) :
    ∃ m ∈ n.methods, m.signature = method.signature := by
  obtain ⟨methods, mapped, done⟩ := bind_eq_ok.1 normal
  cases done
  obtain ⟨i, found⟩ := List.mem_iff_getElem?.1 member
  obtain ⟨m, place, normal⟩ := exists_getElem?_of_mapM mapped found
  exact ⟨m, List.mem_of_getElem? place, signature_normalize normal⟩

/-- A method of the last class of a name is found, or a later one of its signature. -/
theorem exists_method? {classes before : List ClassCode} {t : ClassTable}
    (loaded : ClassTable.load classes = .ok t)
    (last : IsLast (canonicalName ·.name = n.name) classes before n) (member : method ∈ n.methods) :
    ∃ found, t.method? ⟨n.name, method.name, method.descriptor⟩ = some found ∧
      found.code.signature = method.signature := by
  obtain ⟨methods, read, there⟩ := ClassTable.find?_load_of_isLast last loaded
  obtain ⟨earlier, m, lastMethod⟩ := exists_isLast (P := (·.signature = method.signature))
    ⟨method, member, rfl⟩
  obtain ⟨found, here, place⟩ := ClassTable.find?_of_isLast lastMethod read
  obtain ⟨_, descriptor, _, rfl⟩ := ClassTable.loadMethod_eq_ok.1 here
  obtain ⟨behind, _, same, _⟩ := lastMethod
  exact ⟨_, Option.bind_eq_some_iff.2 ⟨_, there, place⟩, same⟩

/-- In every table with the class in it the method is found, and the constructors of the
class are found beside it, each under its own descriptor. -/
def StandsApart (c : ClassCode) (method : MethodCode) : Prop :=
  ∀ n classes before t, c.normalize = .ok n → ClassTable.load classes = .ok t →
    IsLast (canonicalName ·.name = n.name) classes before n →
    ∃ found, t.method? ⟨n.name, method.name, method.descriptor⟩ = some found ∧
      found.code.signature = method.signature ∧
      ∀ constructor ∈ c.methods, constructor.name = "<init>" →
        ∃ other, t.method? ⟨n.name, "<init>", constructor.descriptor⟩ = some other ∧
          other.code.signature = constructor.signature ∧ other.id ≠ found.id

/-- Methods that are not recorded as constructors do not get into their way. -/
theorem standsApart_of_ne (member : method ∈ c.methods) (other : method.name ≠ "<init>") :
    StandsApart c method := by
  intro n classes before t normal loaded last
  obtain ⟨m, inside, same⟩ := exists_signature_normalize normal member
  obtain ⟨found, place, signature⟩ := exists_method? loaded last inside
  obtain ⟨name, descriptor⟩ := Prod.mk.inj same
  rw [name, descriptor] at place
  rw [same] at signature
  refine ⟨found, place, signature, fun constructor declared init => ?_⟩
  obtain ⟨m', inside', same'⟩ := exists_signature_normalize normal declared
  obtain ⟨found', place', signature'⟩ := exists_method? loaded last inside'
  obtain ⟨name', descriptor'⟩ := Prod.mk.inj same'
  rw [name', descriptor', init] at place'
  rw [same'] at signature'
  refine ⟨found', place', signature', fun shared => other ?_⟩
  -- Methods of one id are one method, so the names would be the same.
  rw [ClassTable.eq_of_id_eq loaded place' place shared, signature] at signature'
  exact (Prod.mk.inj signature').1.trans init

/-! ## The name of a method -/

/-- **A method is recorded under the name that it is declared by, and as a constructor
exactly if that is the name of the class.** So the name is right in every class with a
package. Wherever it is right, the method and the constructors do not replace each other. -/
theorem MethodHeading.captured_name (l : MethodHeading) {text : String} {i : Nat}
    {raw : List Char} (parsed : parse text = .ok c) (there : (lines text.toList)[i]? = some raw)
    (trimmed : trim raw = l.line) (captured : Captures text c (i + 1) method) :
    method.name = (if String.ofList l.name = c.name then "<init>" else String.ofList l.name) ∧
    ('/' ∈ c.name.toList → method.name = String.ofList l.name) ∧
    (String.ofList l.name ≠ c.name → StandsApart c method) := by
  have named : method.name
      = if String.ofList l.name = c.name then "<init>" else String.ofList l.name := by
    obtain ⟨j, raw', number, there', declares⟩ := captured.name parsed
    cases Nat.succ.inj number
    cases there.symm.trans there'
    rw [trimmed, l.methodName?_line] at declares
    split at declares
    · cases declares
    · exact (Option.some.inj declares).symm
  refine ⟨named, fun package => ?_, fun differ => ?_⟩
  · rw [named, if_neg (l.name_ne_of_package package)]
  · rw [if_neg differ] at named
    obtain ⟨_, _, _, _, _, _, _, _, _, _, found⟩ := captured
    exact standsApart_of_ne (List.mem_of_getElem? found) (named ▸ l.name_ne_init)

/-- The lines of a class with a constructor and a method of the given signature. -/
def boxLines (signature : List Char) : List (List Char) :=
  ["class Box<T> \x7b".toList,
    " Box(java.util.List<T>);".toList, " descriptor: (Ljava/util/List;)V".toList,
    " Code:".toList, " 0: return".toList, [],
    ' ' :: signature, " descriptor: (Ljava/util/List;)V".toList,
    " Code:".toList, " 0: nop".toList, " 1: return".toList, ['\x7d']]

def boxListing (signature : List Char) : String :=
  String.ofList ((boxLines signature).flatMap (· ++ ['\n']))

/-- A method of that class. -/
def boxMethod (name : String) (instructions : List Instruction) : MethodCode where
  name
  descriptor := "(Ljava/util/List;)V"
  flags := .empty
  maxStack := 0
  maxLocals := 0
  argsSize := 0
  instructions

def boxConstructor : MethodCode :=
  boxMethod "<init>" [⟨0, .returnVoid, [], none⟩]

/-- The method of the given signature, under the name that it is recorded by. -/
def boxNamed (name : String) : MethodCode :=
  boxMethod name [⟨0, .nop, [], none⟩, ⟨1, .returnVoid, [], none⟩]

def box (name : String) : ClassCode :=
  ⟨"Box", rootClass, [boxConstructor, boxNamed name]⟩

/-- What has been read of the listing behind the first instruction of the method. -/
def boxScan (name : String) : Scan :=
  .inside ⟨"Box", rootClass⟩ [boxConstructor] <| .code
    { name, line := 7, descriptor := "(Ljava/util/List;)V", latest := [⟨0, .nop, [], none⟩] }

/-- A method whose name is not that of the class. -/
def fillHeading : MethodHeading where
  modifiers := "public <U extends List<T>> ".toList
  type := "Map<T, U>".toList
  name := "fill".toList
  params := "java.util.List<T>".toList
  modifiers_paired := by decide +kernel
  modifiers_plain := by decide +kernel
  modifiers_end := by decide +kernel
  returns := ⟨by decide +kernel, by decide +kernel, by decide +kernel, by decide +kernel⟩
  simple := ⟨by decide, by decide +kernel, by decide +kernel⟩
  params_paired := by decide +kernel
  params_plain := by decide +kernel

theorem fill_captured_name :
    parse (boxListing fillHeading.line) = .ok (box "fill")
      ∧ Captures (boxListing fillHeading.line) (box "fill") 7 (boxNamed "fill")
      ∧ StandsApart (box "fill") (boxNamed "fill") := by
  have split : lines (boxListing fillHeading.line).toList = boxLines fillHeading.line := by
    rw [boxListing, String.toList_ofList]
    decide +kernel
  have parsed : parse (boxListing fillHeading.line) = .ok (box "fill") := by
    rw [parse, split]
    exact eq_ok_of_toOption (by decide +kernel)
  have captured : Captures (boxListing fillHeading.line) (box "fill") 7 (boxNamed "fill") :=
    ⟨(boxLines fillHeading.line).take 10, _, _, _, _, split ▸ List.take_prefix _ _,
      eq_ok_of_toOption (a := boxScan "fill") (by decide +kernel), rfl, rfl,
      List.cons_ne_nil _ _, rfl⟩
  have there : (lines (boxListing fillHeading.line).toList)[6]? = some (' ' :: fillHeading.line) :=
    split ▸ rfl
  have trimmed : trim (' ' :: fillHeading.line) = fillHeading.line := by decide +kernel
  exact ⟨parsed, captured,
    (fillHeading.captured_name parsed there trimmed captured).2.2 (by decide)⟩

/-- A method of the name of the class, as it may stand beside a constructor. -/
def boxHeading : MethodHeading :=
  { fillHeading with
    name := "Box".toList
    simple := ⟨by decide, by decide +kernel, by decide +kernel⟩ }

/-- Not every method keeps its name and leaves the constructors where they are: this one is
taken for a constructor. -/
theorem box_captured_as_constructor :
    ¬ ∀ (l : MethodHeading) (text : String) (c : ClassCode) (i : Nat) (raw : List Char)
        (method : MethodCode), parse text = .ok c → (lines text.toList)[i]? = some raw →
      trim raw = l.line → Captures text c (i + 1) method →
      method.name = String.ofList l.name ∧ StandsApart c method := by
  intro claimed
  have split : lines (boxListing boxHeading.line).toList = boxLines boxHeading.line := by
    rw [boxListing, String.toList_ofList]
    decide +kernel
  have parsed : parse (boxListing boxHeading.line) = .ok (box "<init>") := by
    rw [parse, split]
    exact eq_ok_of_toOption (by decide +kernel)
  have captured : Captures (boxListing boxHeading.line) (box "<init>") 7 (boxNamed "<init>") :=
    ⟨(boxLines boxHeading.line).take 10, _, _, _, _, split ▸ List.take_prefix _ _,
      eq_ok_of_toOption (a := boxScan "<init>") (by decide +kernel), rfl, rfl,
      List.cons_ne_nil _ _, rfl⟩
  have there : (lines (boxListing boxHeading.line).toList)[6]? = some (' ' :: boxHeading.line) :=
    split ▸ rfl
  have trimmed : trim (' ' :: boxHeading.line) = boxHeading.line := by decide +kernel
  have named := (claimed boxHeading _ _ 6 _ _ parsed there trimmed captured).1
  exact absurd named (by decide)

end ClassMachine.Listing
