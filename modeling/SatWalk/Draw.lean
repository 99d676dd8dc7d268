import SatWalk.Position
import SatWalk.Scalar
import SatWalk.Source

/-!
Weighted draws. An index is drawn with a probability proportional to its weight: a fraction of the
total is drawn, and the first index whose cumulative weight reaches it is taken. Where the total is
not positive, all indices of greatest weight are equally likely instead. Negative indices count from
the end: a draw from index `-2` on ranges over the last two weights, then over all of them.
-/

namespace SatWalk

namespace Draw

variable {R : Type} [MachineReal R]

open MachineReal

def reals? : List (Scalar R) → Except Fault (List R)
  | [] => .ok []
  | w :: ws => match w.toReal? with
    | none => .error .tooLarge
    | some x => (x :: ·) <$> reals? ws

def total (xs : List R) : R := xs.foldl add zero

/-- The first place, counted from `i`, where the sum of `sum` and the reals so far reaches `r` and
the real itself is positive. -/
def reach? (r : R) : Int → R → List R → Option Int
  | _, _, [] => none
  | i, sum, x :: xs =>
    let sum := add sum x
    if (less r sum || same r sum) && less zero x then some i
    else reach? r (i + 1) sum xs

def greatest? : List (Scalar R) → Option (Scalar R)
  | [] => none
  | w :: ws => some (ws.foldl (fun best w => if best.less w then w else best) w)

def placesOf (best : Scalar R) : Int → List (Scalar R) → List Int
  | _, [] => []
  | i, w :: ws => if w.same best then i :: placesOf best (i + 1) ws else placesOf best (i + 1) ws

variable {G : Type} [Source G]

def uniform (start : Int) (slice ws : List (Scalar R)) : Attempt G Int :=
  match greatest? slice with
  | none => throw .maximumOfNothing
  | some best => do
    let places := placesOf best start ws
    let i ← drawBelow places.length
    return places.get i

def among (start last : Int) (slice ws : List (Scalar R)) : Attempt G Int := do
  let xs ← settled (reals? ws)
  if less zero (total xs) then
    let k ← drawFraction
    let r := mul (fraction k.val) (total xs)
    return (reach? r start zero xs).getD last
  else uniform start slice ws

def index (weights : List (Scalar R)) (start : Int) : Attempt G Int :=
  let last := (weights.length : Int) - 1
  if 0 ≤ start then
    let slice := weights.drop start.toNat
    among start last slice slice
  else match position? weights.length start with
    | none => throw .noSuchPosition
    | some i =>
      let slice := weights.drop i.val
      among start last slice (slice ++ weights)

end Draw

end SatWalk
