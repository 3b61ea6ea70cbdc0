import ClassMachine.Ty

/-!
# Method descriptors

A descriptor is written `(params)return`: the types of the parameters between
parentheses and behind them the type of the result, which alone may be void.
-/

namespace ClassMachine

/-- The types of a method's parameters and of its result. -/
structure Descriptor where
  params : List Ty
  result : Ty
deriving DecidableEq, Repr

namespace Descriptor

/-- The number of values that a call takes from the stack, receiver apart. -/
def argCount (d : Descriptor) : Nat :=
  d.params.length

/-- The number of local variable slots that the arguments take. -/
def argSlots (d : Descriptor) : Nat :=
  d.params.foldr (fun ty rest => ty.slots + rest) 0

/-- Whether a call leaves a result on the stack. -/
def returnsValue (d : Descriptor) : Bool :=
  d.result != .void

/-- The written form. -/
def text (d : Descriptor) : String :=
  "(" ++ String.join (d.params.map Ty.text) ++ ")" ++ d.result.text

end Descriptor

/-! ## Reading descriptors -/

/-- What is wrong with a descriptor. -/
inductive DescriptorFlaw where
  | notParenthesized
  | voidParameter
  | badType (cause : TyError)
  | trailing (result : Ty)
deriving DecidableEq, Repr

/-- A text that is no descriptor, and why. -/
structure DescriptorError where
  descriptor : String
  flaw : DescriptorFlaw
deriving DecidableEq, Repr

def DescriptorFlaw.message : DescriptorFlaw → String
  | .notParenthesized => "expected `(params)return`"
  | .voidParameter => "void parameter"
  | .badType cause => cause.message
  | .trailing result => "trailing characters after return type `" ++ result.text ++ "`"

def DescriptorError.message (e : DescriptorError) : String :=
  "malformed descriptor `" ++ e.descriptor ++ "`: " ++ e.flaw.message

namespace Descriptor

/-- Divides `(params)return` into its two parts. The parameters end at the first
closing parenthesis; the result is not empty and stays on one line. -/
def divide? : List Char → Option (List Char × List Char)
  | '(' :: cs =>
    match Text.cutFirst? ')' cs with
    | some (params, result) =>
      if result.isEmpty || result.contains '\n' then none else some (params, result)
    | none => none
  | _ => none

/-- Reads parameter types until the text is used up. Each one takes at least one
character, so `fuel` may be the length of the text. -/
def decodeParams : (fuel : Nat) → List Char → Except DescriptorFlaw (List Ty)
  | _, [] => .ok []
  | 0, _ :: _ => .ok []
  | fuel + 1, c :: cs =>
    match Ty.decode (c :: cs) with
    | .error cause => .error (.badType cause)
    | .ok (.void, _) => .error .voidParameter
    | .ok (ty, rest) => (decodeParams fuel rest).map (ty :: ·)

/-- Reads the result type, which takes the whole text. -/
def decodeResult (cs : List Char) : Except DescriptorFlaw Ty :=
  match Ty.decode cs with
  | .error cause => .error (.badType cause)
  | .ok (ty, []) => .ok ty
  | .ok (ty, _ :: _) => .error (.trailing ty)

/-- Reads a descriptor or says what is wrong with it. -/
def decode (cs : List Char) : Except DescriptorFlaw Descriptor :=
  match divide? cs with
  | none => .error .notParenthesized
  | some (params, result) => do
    let params ← decodeParams params.length params
    let result ← decodeResult result
    return ⟨params, result⟩

/-- Reads a descriptor. -/
def parse (s : String) : Except DescriptorError Descriptor :=
  (decode s.toList).mapError (⟨s, ·⟩)

end Descriptor

end ClassMachine
