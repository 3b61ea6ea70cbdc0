import ClassMachine.Text.CodePoints

/-!
# Blanks, lines and fields

White space is the Unicode property of that name (25 code points), not only
its ASCII part. Listings are cut into lines at line feeds and lines into
fields at commas and blanks.
-/

namespace ClassMachine.Text

/-- Code points with the property White_Space. -/
def blanks : CodePoints where
  flips := [9, 14, 32, 33, 133, 134, 160, 161, 5760, 5761, 8192, 8203, 8232, 8234,
    8239, 8240, 8287, 8288, 12288, 12289]

/-- White space in the Unicode sense. -/
def isBlank (c : Char) : Bool :=
  blanks.contains c

/-- The text without the characters of `p` at its end. -/
def trimEndOf (p : Char → Bool) (cs : List Char) : List Char :=
  (cs.reverse.dropWhile p).reverse

/-- The text without the characters of `p` at either end. -/
def trimOf (p : Char → Bool) (cs : List Char) : List Char :=
  trimEndOf p (cs.dropWhile p)

/-- The text without blanks at either end. -/
def trim (cs : List Char) : List Char :=
  trimOf isBlank cs

/-- Puts one more character in front of text that is already cut into lines. -/
def consLine (c : Char) (lines : List (List Char)) : List (List Char) :=
  if c = '\n' then
    [] :: lines
  else
    match lines with
    | [] => [[c]]
    | line :: rest => (c :: line) :: rest

/-- The lines of a text. A line feed ends a line, so text that ends in one has
no empty line after it. -/
def lines (cs : List Char) : List (List Char) :=
  cs.foldr consLine []

/-- Commas and blanks stand between the fields of a line. -/
def isSeparator (c : Char) : Bool :=
  c == ',' || isBlank c

/-- The fields of a line, empty ones included. -/
def fields (cs : List Char) : List (List Char) :=
  cs.splitOnP isSeparator

/-- The non-empty fields of a line. -/
def tokens (cs : List Char) : List (List Char) :=
  (fields cs).filter fun field => !field.isEmpty

/-- What is left behind `front`, if the text starts with it. -/
def dropFront? : (front cs : List Char) → Option (List Char)
  | [], cs => some cs
  | _ :: _, [] => none
  | f :: front, c :: cs => if f = c then dropFront? front cs else none

/-- Cuts at the first `c`: what stands before it and what stands behind it. -/
def cutFirst? (c : Char) (cs : List Char) : Option (List Char × List Char) :=
  match cs.span (· ≠ c) with
  | (before, _ :: behind) => some (before, behind)
  | (_, []) => none

/-- Cuts at the last `c`: what stands before it and what stands behind it. -/
def cutLast? (c : Char) (cs : List Char) : Option (List Char × List Char) :=
  (cutFirst? c cs.reverse).map fun (behind, before) => (before.reverse, behind.reverse)

/-- The text with every `from` replaced by `to`. -/
def substitute (old new : Char) (s : String) : String :=
  String.ofList (s.toList.map fun c => if c = old then new else c)

end ClassMachine.Text
