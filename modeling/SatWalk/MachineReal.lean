/-!
The numbers that weights, temperatures and offsets are computed with: reals of limited range and
precision, of which arithmetic returns some near result. Nothing here fixes which.
-/

namespace SatWalk

class MachineReal (R : Type) where
  zero : R
  one : R
  add : R → R → R
  mul : R → R → R
  div : R → R → R
  neg : R → R
  exp : R → R
  pow : R → R → R
  -- The order of numbers; a value that is no number stands in no order.
  less : R → R → Bool
  -- Equality of numbers; a value that is no number equals nothing.
  same : R → R → Bool
  -- The fraction `k / 2 ^ 53`.
  fraction : Nat → R
  -- The real a number stands for, unless it is infinite or no number.
  toRat? : R → Option Rat
  -- The number nearest to a real, unless that real is beyond the range.
  nearest? : Rat → Option R
  text : R → String

end SatWalk
