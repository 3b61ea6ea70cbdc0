import ClassMachine.Code
import ClassMachine.Decimal.Reader
import ClassMachine.Text.Word

/-!
# Comments of instructions

The comment behind an instruction spells out what its pool token stands for: a
literal, a field, a method or a class. A member is written
`owner.name:descriptor`, where the owner may be left out if it is the class at
hand. Owners may hold dots themselves; the last dot that leaves a name and a
descriptor behind it divides.
-/

namespace ClassMachine.Comment

open Text

/-- The text behind a keyword and the blanks that must follow it. -/
def behindKeyword? (keyword : String) (cs : List Char) : Option (List Char) :=
  match dropFront? keyword.toList cs with
  | some rest => if rest.head?.any isBlank then some (rest.dropWhile isBlank) else none
  | none => none

/-! ## Classes -/

/-- `class name`, with or without quotes around the name. -/
def className? (comment : String) : Option String := do
  let cs ← behindKeyword? "class" comment.toList
  let cs := (dropFront? ['"'] cs).getD cs
  let (name, rest) := cs.span fun c => !(c == '"' || isBlank c)
  if name.isEmpty || !(rest.isEmpty || rest == ['"']) then none
  else some (canonicalName (String.ofList name))

/-! ## Literals -/

/-- The text without the given letter at its end, if anything is left of it. -/
def dropSuffix (letter : Char) (cs : List Char) : List Char :=
  if cs.getLast? = some letter ∧ 1 < cs.length then cs.dropLast else cs

/-- The text of a binary literal: one word, without the letter of its type. -/
def binaryText? (letter : Char) (cs : List Char) : Option (List Char) :=
  if cs.isEmpty || cs.any isBlank then none else some (dropSuffix letter cs)

/-- A whole number of the range: digits, perhaps behind a minus. -/
def wholeText? (range : Range) : List Char → Option Int
  | '+' :: _ => none
  | cs => range.read? cs

/-- `String text`, where the text starts behind one blank and may be missing
together with it. -/
def stringConstant? (cs : List Char) : Option Constant :=
  match dropFront? "String".toList cs with
  | some [] => some (.string "")
  | some (c :: text) =>
    if isBlank c && !text.contains '\n' then some (.string (String.ofList text)) else none
  | none => none

/-- `int n`. -/
def intConstant? (cs : List Char) : Option Constant := do
  let n ← wholeText? .int32 (← behindKeyword? "int" cs)
  return .int (Int32.ofInt n)

/-- `long n` or `long nl`. -/
def longConstant? (cs : List Char) : Option Constant := do
  let n ← wholeText? .int64 (dropSuffix 'l' (← behindKeyword? "long" cs))
  return .long (Int64.ofInt n)

/-- `float x` or `float xf`. -/
def floatConstant? (cs : List Char) : Option Constant := do
  let text ← binaryText? 'f' (← behindKeyword? "float" cs)
  let word ← Decimal.read? Decimal.single text
  return .float (UInt32.ofNat word)

/-- `double x` or `double xd`. -/
def doubleConstant? (cs : List Char) : Option Constant := do
  let text ← binaryText? 'd' (← behindKeyword? "double" cs)
  let word ← Decimal.read? Decimal.double text
  return .double (UInt64.ofNat word)

/-- The literal that a comment spells out. The keywords differ, so at most one
reading applies. -/
def constant? (comment : String) : Option Constant :=
  let cs := comment.toList
  (stringConstant? cs).or <| (intConstant? cs).or <| (floatConstant? cs).or <|
    (longConstant? cs).or <| (doubleConstant? cs).or <| (className? comment).map .classRef

/-! ## Members -/

/-- A descriptor in a comment is one word. -/
def isDescriptorText (cs : List Char) : Bool :=
  !cs.isEmpty && !cs.any isBlank

/-- A name without dots, colons and blanks, a colon and a descriptor. -/
def bareMember? (cs : List Char) : Option (List Char × List Char) :=
  match cs.span fun c => !(c == '.' || c == ':' || isBlank c) with
  | (name, ':' :: descriptor) =>
    if name.isEmpty || !isDescriptorText descriptor then none else some (name, descriptor)
  | _ => none

/-- A name in quotes or a bare name without quotes, a colon and a descriptor. -/
def quotedMember? : List Char → Option (List Char × List Char)
  | '"' :: cs =>
    match cutFirst? '"' cs with
    | some (name, ':' :: descriptor) =>
      if name.isEmpty || !isDescriptorText descriptor then none else some (name, descriptor)
    | _ => none
  | cs =>
    match bareMember? cs with
    | some (name, descriptor) => if name.contains '"' then none else some (name, descriptor)
    | none => none

/-- An owner, without quotes around it and in canonical form. -/
def ownerName (owner : List Char) : String :=
  canonicalName (String.ofList (trimOf (· == '"') owner))

/-- Divides a text at the last dot with a member behind it, and gives what stands
before the dot and the member. Behind a line feed no dot divides. -/
def cutOwner? (member? : List Char → Option (List Char × List Char)) :
    List Char → Option (List Char × List Char × List Char)
  | [] => none
  | c :: cs =>
    if c = '\n' then none
    else
      match cutOwner? member? cs with
      | some (owner, member) => some (c :: owner, member)
      | none => if c = '.' then (member? cs).map fun member => ([], member) else none

/-- The member in a text whose front is the owner or already the name. -/
def memberIn? (className : String) (member? : List Char → Option (List Char × List Char))
    (cs : List Char) : Option MemberRef :=
  match cutOwner? member? cs with
  | some (owner, name, descriptor) =>
    if owner.isEmpty then none
    else some ⟨ownerName owner, String.ofList name, String.ofList descriptor⟩
  | none =>
    (member? cs).map fun (name, descriptor) =>
      ⟨className, String.ofList name, String.ofList descriptor⟩

/-- The member behind a keyword and blanks. Where nothing stands before the dot
that divides, the last of several blanks is the owner. -/
def memberBehind? (className keyword : String)
    (member? : List Char → Option (List Char × List Char)) (cs : List Char) : Option MemberRef := do
  let (blanks, text) := (← dropFront? keyword.toList cs).span isBlank
  match blanks.reverse with
  | [] => none
  | [_] => memberIn? className member? text
  | last :: _ =>
    (memberIn? className member? text).or (memberIn? className member? (last :: text))

/-- `Field owner.name:descriptor`; the owner is the given class if left out. -/
def fieldRef? (className comment : String) : Option MemberRef :=
  memberBehind? className "Field" bareMember? comment.toList

/-- `Method owner.name:descriptor` or the same for an interface; the owner is the
given class if left out. -/
def methodRef? (className comment : String) : Option MemberRef :=
  let cs := comment.toList
  memberBehind? className "Method" quotedMember? ((dropFront? "Interface".toList cs).getD cs)

end ClassMachine.Comment
