import ClassMachine.Text.Blank

/-!
# Types in descriptors

A type is written by a one-letter code, by `L`, a class name and `;`, or by
`[` and the type of the elements. `Ty.decode` reads one type from the front of
a text and `Ty.text` writes it back, with the dots of class names as slashes.
-/

namespace ClassMachine

/-- A class name in canonical form: parts divided by slashes. -/
def canonicalName (name : String) : String :=
  Text.substitute '.' '/' name

/-- A class name the way it is shown: parts divided by dots. -/
def dottedName (name : String) : String :=
  Text.substitute '/' '.' name

/-- The outermost form of a type. -/
inductive TyKind where
  | byte
  | char
  | short
  | boolean
  | int
  | long
  | float
  | double
  | void
  | object
  | array
deriving DecidableEq, Repr

/-- A type that a descriptor can name. -/
inductive Ty where
  | byte
  | char
  | short
  | boolean
  | int
  | long
  | float
  | double
  | void
  | object (name : String)
  | array (component : Ty)
deriving DecidableEq, Repr

namespace Ty

def kind : Ty → TyKind
  | .byte => .byte
  | .char => .char
  | .short => .short
  | .boolean => .boolean
  | .int => .int
  | .long => .long
  | .float => .float
  | .double => .double
  | .void => .void
  | .object _ => .object
  | .array _ => .array

/-- The class that an object type names. -/
def className? : Ty → Option String
  | .object name => some name
  | _ => none

/-- The type of the elements of an array type. -/
def component? : Ty → Option Ty
  | .array component => some component
  | _ => none

/-- The number of local variable slots that a value of the type takes. -/
def slots : Ty → Nat
  | .long | .double => 2
  | .void => 0
  | _ => 1

/-- Whether values of the type are 32-bit words. -/
def isIntLike : Ty → Bool
  | .byte | .char | .short | .boolean | .int => true
  | _ => false

/-- The written form of a type. -/
def text : Ty → String
  | .byte => "B"
  | .char => "C"
  | .short => "S"
  | .boolean => "Z"
  | .int => "I"
  | .long => "J"
  | .float => "F"
  | .double => "D"
  | .void => "V"
  | .object name => "L" ++ name ++ ";"
  | .array component => "[" ++ component.text

end Ty

/-! ## Reading types -/

/-- Why no type can be read. -/
inductive TyError where
  | endOfText
  | unterminatedClass (text : String)
  | emptyClassName
  | arrayOfVoid
  | unknownCode (code : Char)
deriving DecidableEq, Repr

def TyError.message : TyError → String
  | .endOfText => "unexpected end of descriptor"
  | .unterminatedClass text => "unterminated class type `" ++ text ++ "`"
  | .emptyClassName => "empty class name"
  | .arrayOfVoid => "array of void"
  | .unknownCode code => "unknown type code `" ++ String.singleton code ++ "`"

namespace Ty

/-- The type that a single letter stands for. -/
def ofCode? : Char → Option Ty
  | 'B' => some .byte
  | 'C' => some .char
  | 'S' => some .short
  | 'Z' => some .boolean
  | 'I' => some .int
  | 'J' => some .long
  | 'F' => some .float
  | 'D' => some .double
  | 'V' => some .void
  | _ => none

/-- Reads the class type whose name starts at `cs`, just behind its `L`. -/
def decodeClass (cs : List Char) : Except TyError (Ty × List Char) :=
  match Text.cutFirst? ';' cs with
  | none => .error (.unterminatedClass (String.ofList ('L' :: cs)))
  | some ([], _) => .error .emptyClassName
  | some (name, rest) => .ok (.object (canonicalName (String.ofList name)), rest)

/-- Makes an array of the type that was read behind a `[`. -/
def arrayOf : Ty × List Char → Except TyError (Ty × List Char)
  | (.void, _) => .error .arrayOfVoid
  | (component, rest) => .ok (.array component, rest)

/-- Reads one type from the front of a text and gives the rest of the text. -/
def decode : List Char → Except TyError (Ty × List Char)
  | [] => .error .endOfText
  | '[' :: cs => decode cs >>= arrayOf
  | 'L' :: cs => decodeClass cs
  | c :: cs =>
    match ofCode? c with
    | some ty => .ok (ty, cs)
    | none => .error (.unknownCode c)

end Ty

end ClassMachine
