/-!
# Sets of code points

A set of code points is written as the ascending list of places where
membership flips: the first entry is the first member, the second the first
code point past that run of members, and so on. Character classes of the
listing format are tables of this form.
-/

namespace ClassMachine.Text

/-- The ascending code points at which membership flips, starting outside. -/
structure CodePoints where
  flips : List Nat

/-- Membership flips once for every entry that is not beyond `n`. -/
def flipped : List Nat → Nat → Bool
  | [], _ => false
  | f :: rest, n => if n < f then false else !flipped rest n

/-- Whether the character's code point lies in the set. -/
def CodePoints.contains (set : CodePoints) (c : Char) : Bool :=
  flipped set.flips c.toNat

end ClassMachine.Text
