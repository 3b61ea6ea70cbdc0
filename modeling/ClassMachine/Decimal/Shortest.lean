import ClassMachine.Decimal.Binary

/-!
# Shortest decimals

The decimal with the fewest digits that rounds to a given word, and among
those the one nearest to the word's own value. The reals that round to a word
form an interval around it, with its ends when the significand is even. On
each decimal grid, from coarse to fine, the two neighbours of the value are
tried; the first grid with a neighbour in the interval wins.
-/

namespace ClassMachine.Decimal

/-- Where a value goes that lies halfway between two decimals. -/
inductive Tie where
  | up
  | even
deriving DecidableEq, Repr

/-- A positive decimal: `digits * 10 ^ exponent`. -/
structure Shortest where
  digits : Nat
  exponent : Int
deriving DecidableEq, Repr

/-- The reals that round to a word, and the word's own value, as numerators over
one denominator. -/
structure Interval where
  least : Nat
  value : Nat
  greatest : Nat
  den : Nat
  closed : Bool

namespace Interval

/-- The interval of the positive word `m * 2 ^ q`, in quarters of its last bit.
Below a power of two the words lie twice as dense. -/
def of (f : Format) (m : Nat) (q : Int) : Interval :=
  let (up, down) := scale 2 (q - 2)
  let below := if m = f.unit ∧ f.leastExponent < q then 1 else 2
  { least := (4 * m - below) * up
    value := 4 * m * up
    greatest := (4 * m + 2) * up
    den := down
    closed := m % 2 == 0 }

/-- Whether `digits * up / down` rounds to the word. -/
def contains (i : Interval) (up down digits : Nat) : Bool :=
  let point := digits * up * i.den
  if i.closed then i.least * down ≤ point && point ≤ i.greatest * down
  else i.least * down < point && point < i.greatest * down

/-- The neighbour of the value on the grid of `10 ^ e` that rounds to the word,
the nearer one if both do. -/
def neighbour? (i : Interval) (tie : Tie) (e : Int) : Option Nat :=
  let (up, down) := scale 10 e
  let num := i.value * down
  let den := i.den * up
  let below := num / den
  let rest := num % den
  let isLow := i.contains up down below && below != 0
  let isHigh := i.contains up down (below + 1)
  if isLow && isHigh then
    if 2 * rest < den then some below
    else if den < 2 * rest then some (below + 1)
    else match tie with
      | .up => some (below + 1)
      | .even => some (below + below % 2)
  else if isLow then some below
  else if isHigh then some (below + 1)
  else none

/-- Tries `fuel` grids, from `10 ^ e` to finer ones. -/
def search (i : Interval) (tie : Tie) : (fuel : Nat) → (e : Int) → Shortest
  | 0, e => ⟨i.value, e⟩
  | fuel + 1, e =>
    match i.neighbour? tie e with
    | some digits => ⟨digits, e⟩
    | none => i.search tie fuel (e - 1)

end Interval

/-- The shortest decimal of the positive word `m * 2 ^ q`. The search starts at
a grid coarser than the value, which is found from its leading bit; no format
here needs more than seventeen digits. -/
def shortest (f : Format) (tie : Tie) (m : Nat) (q : Int) : Shortest :=
  let start := ((Nat.log2 m + q) * 30103) / 100000 + 2
  (Interval.of f m q).search tie 24 start

end ClassMachine.Decimal
