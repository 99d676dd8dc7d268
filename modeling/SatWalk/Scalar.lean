import SatWalk.MachineReal

namespace SatWalk

inductive Scalar (R : Type)
  | int (n : Int)
  | real (x : R)

namespace Scalar

variable {R : Type} [MachineReal R]

open MachineReal

def toReal? : Scalar R → Option R
  | int n => nearest? (n : Rat)
  | real x => some x

def isPositive : Scalar R → Bool
  | int n => decide (0 < n)
  | real x => less zero x

def isNegative : Scalar R → Bool
  | int n => decide (n < 0)
  | real x => less x zero

def less : Scalar R → Scalar R → Bool
  | int m, int n => decide (m < n)
  | real x, real y => MachineReal.less x y
  | int n, real x => match toRat? x with
    | some q => decide ((n : Rat) < q)
    | none => MachineReal.less zero x
  | real x, int n => match toRat? x with
    | some q => decide (q < (n : Rat))
    | none => MachineReal.less x zero

def same : Scalar R → Scalar R → Bool
  | int m, int n => m == n
  | real x, real y => MachineReal.same x y
  | int n, real x => toRat? x == some (n : Rat)
  | real x, int n => toRat? x == some (n : Rat)

def text : Scalar R → String
  | int n => toString n
  | real x => MachineReal.text x

end Scalar

end SatWalk
