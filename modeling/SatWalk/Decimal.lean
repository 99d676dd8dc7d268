/-!
Shortest decimal texts. A machine number stands for an interval of reals, all those that round to
it; it is written with the fewest digits that name a real of the interval, and among those by the
one nearest to the number itself.
-/

namespace SatWalk

structure Decimal where
  digits : Nat
  exponent : Int
deriving DecidableEq, Repr

namespace Decimal

def value (d : Decimal) : Rat := d.digits * (10 : Rat) ^ d.exponent

end Decimal

structure Rounding where
  value : Rat
  low : Rat
  high : Rat
  -- Whether the ends of the interval round to the number too.
  closed : Bool

namespace Rounding

def contains (r : Rounding) (x : Rat) : Bool :=
  if r.closed then r.low ≤ x ∧ x ≤ r.high else r.low < x ∧ x < r.high

def magnitude (r : Rounding) : Int :=
  let e := ((Nat.toDigits 10 r.value.num.toNat).length : Int) - (Nat.toDigits 10 r.value.den).length
  if (10 : Rat) ^ e ≤ r.value then e else e - 1

/-- The multiple of `10 ^ e` nearest to the number, of those that round to it; a number halfway
between two goes to the even one. -/
def onGrid? (r : Rounding) (e : Int) : Option Decimal :=
  let unit := (10 : Rat) ^ e
  let below := (r.value / unit).floor.toNat
  let past := r.value / unit - below
  let lower : Decimal := ⟨below, e⟩
  let upper : Decimal := ⟨below + 1, e⟩
  match r.contains lower.value, r.contains upper.value with
  | true, true => if past < 1 / 2 ∨ (past = 1 / 2 ∧ below % 2 = 0) then some lower else some upper
  | true, false => some lower
  | false, true => some upper
  | false, false => none

def search (r : Rounding) : Nat → Int → Decimal
  | 0, e => ⟨(r.value / (10 : Rat) ^ e).floor.toNat, e⟩
  | n + 1, e => (r.onGrid? e).getD (r.search n (e - 1))

def shortest (r : Rounding) : Decimal := r.search 17 r.magnitude

end Rounding

structure Layout where
  -- The least magnitude written without an exponent.
  least : Int
  -- The least magnitude above it that is written with an exponent again.
  limit : Int
  exponentWidth : Nat

namespace Layout

def zeros (n : Int) : String := String.ofList (List.replicate n.toNat '0')

def significant (d : Decimal) : List Char × Int :=
  let all := Nat.toDigits 10 d.digits
  ((all.reverse.dropWhile (· == '0')).reverse, all.length)

def exponentText (layout : Layout) (e : Int) : String :=
  let digits := toString e.natAbs
  (if e < 0 then "-" else "+") ++ zeros (layout.exponentWidth - digits.length) ++ digits

def text (layout : Layout) (d : Decimal) : String :=
  let (ds, count) := significant d
  let e := d.exponent + count - 1
  if layout.least ≤ e ∧ e < layout.limit then
    if e < 0 then "0." ++ zeros (-e - 1) ++ String.ofList ds
    else
      let whole := String.ofList (ds.take (e + 1).toNat) ++ zeros (e + 1 - ds.length)
      let rest := ds.drop (e + 1).toNat
      whole ++ "." ++ (if rest.isEmpty then "0" else String.ofList rest)
  else
    let head := String.ofList (ds.take 1)
    let rest := ds.drop 1
    head ++ (if rest.isEmpty then "" else "." ++ String.ofList rest) ++ "e" ++ layout.exponentText e

end Layout

end SatWalk
