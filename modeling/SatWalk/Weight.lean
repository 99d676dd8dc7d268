import SatWalk.Choice
import SatWalk.Source
import SatWalk.Position

/-!
Weights of break counts. A table holds the weights of the first break counts, as many as were asked
for so far; it grows one weight at a time, to the count asked for or to twice its size if that is
more.
-/

namespace SatWalk

structure Weighting (R : Type) where
  family : Family
  temperature : Scalar R
  offset : Scalar R

inductive WeightingError (R : Type)
  | notNumber
  | negativeTemperature (given : Value R)
  | offsetNotPositive (given : Value R)
  | unknownFamily (unknown : UnknownChoice R)

section
variable {R : Type} [MachineReal R]

open MachineReal

def WeightingError.message? : WeightingError R → Option String
  | notNumber => none
  | negativeTemperature t =>
    some ("The temperature must be non negative, got " ++ t.shown ++ ".")
  | offsetNotPositive c => some ("The power-law offset must be positive, got " ++ c.shown ++ ".")
  | unknownFamily u => some u.message

def Scalar.isAtMostZero (x : Scalar R) : Bool := x.isNegative || x.same (.int 0)

namespace Weighting

def number : Value R → Except (WeightingError R) (Scalar R)
  | .bool b => .ok (.int (if b then 1 else 0))
  | v => match v.scalar? with
    | some x => .ok x
    | none => .error .notNumber

def of (family temperature offset : Value R) : Except (WeightingError R) (Weighting R) := do
  let t ← number temperature
  if t.isNegative then throw (.negativeTemperature temperature)
  let c ← number offset
  if c.isAtMostZero then throw (.offsetNotPositive offset)
  match Family.of family with
  | .ok f => return ⟨f, t, c⟩
  | .error u => throw (.unknownFamily u)

def cooled? (w : Weighting R) (b : Nat) : Option R :=
  match w.temperature with
  | .int t => nearest? ((-t * b : Int) : Rat)
  | .real t => (nearest? (b : Rat)).map fun x => mul (neg t) x

def ratio? (w : Weighting R) (b : Nat) : Option R :=
  match w.offset with
  | .int c => nearest? (((c + b : Int) : Rat) / (c : Rat))
  | .real c => (nearest? (b : Rat)).map fun x => div (add c x) c

def negatedTemperature? (w : Weighting R) : Option R :=
  match w.temperature with
  | .int t => nearest? ((-t : Int) : Rat)
  | .real t => some (neg t)

/-- The weight of a break count, unless an integer on the way is too large. -/
def weight? (w : Weighting R) (b : Nat) : Option R :=
  match w.family with
  | .exponential => (w.cooled? b).map exp
  | .powerLaw => (w.ratio? b).bind fun x => w.negatedTemperature?.map (pow x)
  | .uniform => some one

end Weighting

structure WeightTable (R : Type) where
  weighting : Weighting R
  weights : Array R

namespace WeightTable

def size (t : WeightTable R) : Nat := t.weights.size

def extend : Nat → Attempt (WeightTable R) Unit
  | 0 => return ()
  | n + 1 => fun t =>
    match t.weighting.weight? t.weights.size with
    | some x => extend n { t with weights := t.weights.push x }
    | none => .error .tooLarge t

def extendTo (n : Nat) : Attempt (WeightTable R) Unit := fun t => extend (n - t.size) t

def create (w : Weighting R) (size : Int) : Except Fault (WeightTable R) :=
  match extendTo (max size 1).toNat ⟨w, #[]⟩ with
  | .ok () t => .ok t
  | .error e _ => .error e

def entry? (t : WeightTable R) (b : Int) : Except Fault R :=
  match position? t.weights.size b with
  | some p => .ok t.weights[p]
  | none => .error .noSuchPosition

def lookup (b : Int) : Attempt (WeightTable R) R := do
  let t ← get
  if (t.size : Int) ≤ b then extendTo (max (b + 1) (2 * t.size)).toNat
  let t ← get
  settled (t.entry? b)

end WeightTable

end

end SatWalk
