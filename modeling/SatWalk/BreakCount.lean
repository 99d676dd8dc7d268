import SatWalk.Break
import SatWalk.Mask

/-!
Break counts: how many neighbours break, for every combination of a clause's variables or for every
one of them alone. Counts are summed profile by profile over the combinations that break it; for
clauses of three variables these are looked up in a table. A list of counts, like the table, is read
from its end at a negative position.
-/

namespace SatWalk

namespace Profile

def breaking (w : Nat) (p : Profile) : List Int :=
  if Mask.disjoint p.kill p.save then
    (Mask.avoiding w p.kill p.save).map fun (t : Nat) => p.kill + t
  else []

def lonePlace? (p : Profile) : Option Nat :=
  if Mask.disjoint p.kill p.save then Mask.lone? p.kill else none

end Profile

namespace BreakCount

def addAt (n : Int) (counts : Array Int) : List Int → Except Fault (Array Int)
  | [] => .ok counts
  | t :: ts => match position? counts.size t with
    | none => .error .noSuchPosition
    | some i => addAt n (counts.set i.val (counts[i.val] + n)) ts

def sum (places : Profile → Except Fault (List Int)) (counts : Array Int) :
    Profiles → Except Fault (Array Int)
  | [] => .ok counts
  | (p, n) :: ps => do
    let ts ← places p
    let counts ← addAt n counts ts
    sum places counts ps

def threeWide : Vector (Vector (List Int) 8) 8 :=
  Vector.ofFn fun kill => Vector.ofFn fun save => Profile.breaking 3 ⟨kill.val, save.val⟩

def threeWide? (p : Profile) : Except Fault (List Int) :=
  match position? 8 p.kill, position? 8 p.save with
  | some kill, some save => .ok ((threeWide.get kill).get save)
  | _, _ => .error .noSuchPosition

/-- For every combination of `w` places, the number of neighbours that break under it. From 63 places
on there are more combinations than a signed word counts, and so no list of them. -/
def combinations (w : Nat) (ps : Profiles) : Except Fault (Array Int) :=
  if 63 ≤ w then .error .tooLarge
  else
    let places := if w = 3 then threeWide? else fun p => .ok (p.breaking w)
    sum places (Array.replicate (1 <<< w) 0) ps

def singles (w : Nat) (ps : Profiles) : Except Fault (Array Int) :=
  sum (fun p => .ok (p.lonePlace?.toList.map Int.ofNat)) (Array.replicate w 0) ps

def combinationsOf (width : Int) (ps : Profiles) : Except Fault (Array Int) :=
  if width < 0 then .error .negativeWidth else combinations width.toNat ps

def singlesOf (width : Int) (ps : Profiles) : Except Fault (Array Int) :=
  if width < -9223372036854775808 ∨ 9223372036854775808 ≤ width then .error .tooLarge
  else singles width.toNat ps

end BreakCount

namespace State

variable {F : Formula}

def combinationBreaks (s : State F) (scope : Scope) (c : Clause) : Except Fault (Array Int) :=
  BreakCount.combinations (distinctVars c).length (s.profiles scope (distinctVars c))

def singleBreaks (s : State F) (scope : Scope) (c : Clause) : Except Fault (Array Int) :=
  BreakCount.singles (distinctVars c).length (s.profiles scope (distinctVars c))

end State

end SatWalk
