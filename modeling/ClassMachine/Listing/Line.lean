import ClassMachine.Text.Blank
import ClassMachine.Text.Numeral
import ClassMachine.Text.Word
import ClassMachine.Code

/-!
# Lines inside a method

Flag lines and instruction lines. An instruction line is an offset, a colon, a
mnemonic, operands divided by commas or blanks, and perhaps a comment behind
two slashes. Operands are told apart by their shape alone.
-/

namespace ClassMachine.Listing

open Text

/-! ## Flags -/

def isParenthesis (c : Char) : Bool :=
  c == '(' || c == ')'

/-- The known flags on a line; tokens that are no flag of a method are skipped. -/
def readFlags (cs : List Char) : FlagSet :=
  .ofList ((fields cs).filterMap fun field =>
    Flag.ofToken? (String.ofList (trimOf isParenthesis field)))

/-! ## Operands -/

/-- A pool token: a number sign and a number of 16 bits. -/
def poolToken? : List Char → Option Operand
  | '#' :: cs => (Range.uint16.read? cs).map fun n => .pool (UInt16.ofNat n.toNat)
  | _ => none

/-- A decimal number of 32 bits. -/
def decimalToken? (token : List Char) : Option Operand :=
  (Range.int32.read? token).map fun n => .int (Int32.ofInt n)

/-- A hexadecimal number of at most 32 bits, whose upper half is negative. -/
def hexToken? : List Char → Option Operand
  | '0' :: x :: digit :: digits =>
    if x = 'x' ∨ x = 'X' then
      match readHex? (digit :: digits) with
      | some n => if n < UInt32.size then some (.int (UInt32.ofNat n).toInt32) else none
      | none => none
    else none
  | _ => none

/-- The operand of a token. -/
def classify (token : List Char) : Operand :=
  (poolToken? token).getD <| (decimalToken? token).getD <| (hexToken? token).getD <|
    .raw (String.ofList token)

/-- The operands in a text. -/
def readOperands (cs : List Char) : List Operand :=
  (tokens cs).map classify

/-! ## Comments -/

/-- Divides a text at its first two slashes. -/
def cutComment? : List Char → Option (List Char × List Char)
  | [] => none
  | '/' :: '/' :: cs => some ([], cs)
  | c :: cs => (cutComment? cs).map fun (before, behind) => (c :: before, behind)

/-- The operands' text and the comment, both without blanks around them. An
empty comment is none. -/
def splitComment (cs : List Char) : List Char × Option String :=
  match cutComment? cs with
  | none => (trim cs, none)
  | some (before, behind) =>
    let comment := trim behind
    (trim before, if comment.isEmpty then none else some (String.ofList comment))

/-! ## Instructions -/

/-- Letters of a mnemonic: the Latin letters and the two other characters that
differ from one of them by case alone. -/
def isMnemonicLetter (c : Char) : Bool :=
  c.isAlpha || c == '\u017f' || c == '\u212a'

def isMnemonicChar (c : Char) : Bool :=
  isMnemonicLetter c || c.isDigit || c == '_'

/-- The parts of an instruction line. -/
structure InstructionLine where
  offset : List Char
  mnemonic : List Char
  rest : List Char
deriving DecidableEq, Repr

/-- Divides an instruction line into its parts. The offset may be written in
digits of any script, which only later turns out to be no number. -/
def instructionLine? (cs : List Char) : Option InstructionLine :=
  let (offset, cs) := cs.span isDecimalDigit
  match cs with
  | ':' :: cs =>
    let (gap, cs) := cs.span isBlank
    let (mnemonic, rest) := cs.span isMnemonicChar
    if offset.isEmpty || gap.isEmpty || !mnemonic.head?.any isMnemonicLetter then none
    else some ⟨offset, mnemonic, rest⟩
  | _ => none

/-- The offset of an instruction line, if it is a number of 32 bits. -/
def InstructionLine.offset? (l : InstructionLine) : Option UInt32 :=
  (Range.uint32.read? l.offset).map fun n => UInt32.ofNat n.toNat

/-- The instruction of a line at a known offset. -/
def InstructionLine.instruction (l : InstructionLine) (offset : UInt32) : Instruction :=
  let (operands, comment) := splitComment l.rest
  { offset
    opcode := Opcode.ofMnemonic (String.ofList l.mnemonic)
    operands := readOperands operands
    comment }

end ClassMachine.Listing
