import ClassMachine.Text.Blank
import ClassMachine.Text.Word
import ClassMachine.Ty

/-!
# Declarations in a listing

Two kinds of line declare something: the header of the class and the
signatures of its methods. Both are read after generic parameter lists have
been taken out, so that brackets and the blanks between them cannot be
mistaken for words.
-/

namespace ClassMachine.Listing

open Text

/-! ## Generic parameter lists -/

/-- Takes out everything between angle brackets, at the given depth of them. A
closing bracket that closes nothing stays. -/
def stripFrom : (depth : Nat) → List Char → List Char
  | _, [] => []
  | depth, '<' :: cs => stripFrom (depth + 1) cs
  | depth + 1, '>' :: cs => stripFrom depth cs
  | depth + 1, _ :: cs => stripFrom (depth + 1) cs
  | 0, c :: cs => c :: stripFrom 0 cs

/-- The text without generic parameter lists. -/
def stripGenerics (cs : List Char) : List Char :=
  stripFrom 0 cs

/-! ## Class headers -/

/-- The names in a class header. -/
structure Header where
  name : String
  superName : String
deriving DecidableEq, Repr

/-- Characters of the words that may stand before a class name. -/
def isHeaderWord (c : Char) : Bool :=
  isWord c || c == '$'

/-- The words at the front of a declaration, each with the text behind it and
behind the blanks that must follow it. -/
def leadingWords : (fuel : Nat) → List Char → List (List Char × List Char)
  | 0, _ => []
  | fuel + 1, cs =>
    let (word, behind) := cs.span isHeaderWord
    let (gap, rest) := behind.span isBlank
    if word.isEmpty || gap.isEmpty then [] else (word, rest) :: leadingWords fuel rest

/-- The words that introduce a class name. -/
def isClassKeyword (word : List Char) : Bool :=
  word == "class".toList || word == "interface".toList || word == "enum".toList

/-- The superclass behind a class name: blanks, `extends`, blanks and a name. -/
def superName? (cs : List Char) : Option (List Char) := do
  let (gap, cs) := cs.span isBlank
  if gap.isEmpty then none
  else
    let cs ← dropFront? "extends".toList cs
    let (gap, cs) := cs.span isBlank
    let name := cs.takeWhile fun c => !(isBlank c || c == '\x7b' || c == ',')
    if gap.isEmpty || name.isEmpty then none else some name

/-- The header that a keyword introduces, with the text behind the keyword. What
an interface extends is not its superclass. -/
def headerAt? (root : String) : List Char × List Char → Option Header
  | (keyword, cs) =>
    let (name, rest) := cs.span fun c => !(isBlank c || c == '\x7b')
    if !isClassKeyword keyword || name.isEmpty then none
    else
      let superName :=
        if keyword == "interface".toList then root
        else
          match superName? rest with
          | some parent => canonicalName (String.ofList parent)
          | none => root
      some ⟨canonicalName (String.ofList name), superName⟩

/-- The class header on a line. Words may stand before the keyword; the last
keyword among them that has a name behind it counts. -/
def header? (root : String) (line : List Char) : Option Header :=
  let declaration := stripGenerics line
  (leadingWords declaration.length declaration).reverse.findSome? (headerAt? root)

/-! ## Method signatures -/

/-- The ending of a signature behind its parameters: a semicolon, perhaps after
a `throws` clause. -/
def endsSignature (cs : List Char) : Bool :=
  match cs.getLast?, cs.dropLast with
  | some ';', [] => true
  | some ';', clause =>
    let (gap, rest) := clause.span isBlank
    match dropFront? "throws".toList rest with
    | some (c :: d :: rest) => !gap.isEmpty && isBlank c && !(d :: rest).contains ';'
    | _ => false
  | _, _ => false

/-- The name in front of the parameters: words divided by blanks, of which the
last one touches the parenthesis. -/
def signatureName? (front : List Char) : Option (List Char) :=
  let name := (front.reverse.takeWhile fun c => !isBlank c).reverse
  if name.isEmpty || front.head?.any isBlank then none else some name

/-- The name in a method signature, as it is written. -/
def signature? (line : List Char) : Option (List Char) := do
  let (front, rest) ← cutFirst? '(' (stripGenerics line)
  let (_, rest) ← cutFirst? ')' rest
  if endsSignature rest then signatureName? front else none

/-- Whether the line declares the class initializer: `static {};` with blanks
between its parts. -/
def isClassInitializer (line : List Char) : Bool :=
  match dropFront? "static".toList line with
  | none => false
  | some cs =>
    match cs.dropWhile isBlank with
    | '\x7b' :: cs => cs.dropWhile isBlank == ['\x7d', ';']
    | _ => false

/-- The name of the method that a line declares in the given class. A
constructor is written under the name of its class. -/
def methodName? (className : String) (line : List Char) : Option String :=
  if isClassInitializer line then some "<clinit>"
  else
    (signature? line).map fun name =>
      let name := canonicalName (String.ofList name)
      if name = className then "<init>" else name

end ClassMachine.Listing
