import SatWalk.BreakCount
import SatWalk.Draw
import SatWalk.FlipChoice
import SatWalk.Weight

namespace SatWalk

namespace Repair

section
variable {G : Type} [Source G]

theorem supply_drawFraction {g g' : G} {k : Fin fractions} (h : drawFraction g = .ok k g') :
    Source.supply g' < Source.supply g := by
  simp only [drawFraction] at h
  split at h
  · next k' g'' hk =>
    cases h
    exact Source.supply_fraction hk
  · cases h

theorem supply_drawCoin {g g' : G} {b : Bool} (h : drawCoin g = .ok b g') :
    Source.supply g' < Source.supply g := by
  simp only [drawCoin, bind, EStateM.bind] at h
  split at h
  · next k g'' hk =>
    cases h
    exact supply_drawFraction hk
  · cases h

theorem supply_drawCoins {n : Nat} {g g' : G} {bs : List Bool} (h : drawCoins n g = .ok bs g') :
    Source.supply g' + n ≤ Source.supply g := by
  induction n generalizing g bs with
  | zero =>
    cases h
    exact Nat.le_refl _
  | succ n ih =>
    simp only [drawCoins, bind, EStateM.bind] at h
    split at h
    · next b g1 hb =>
      split at h
      · next cs g2 hc =>
        cases h
        have := supply_drawCoin hb
        have := ih hc
        omega
      · cases h
    · cases h

def accepts (drawn : List (Var × Bool)) (c : Clause) : Bool :=
  c.any fun l => drawn.lookup l.natAbs == some (decide (0 < l))

def difference (A : Assignment) : List (Var × Bool) → Nat
  | [] => 0
  | (v, b) :: rest => (if A.truth v = b then 0 else 1) + 2 * difference A rest

def values (vars : List Var) (c : Clause) : Attempt G (List (Var × Bool)) := fun g =>
  if _hv : vars = [] then .error .outOfDraws g
  else match _h : drawCoins vars.length g with
    | .error e g' => .error e g'
    | .ok coins g' =>
      if accepts (vars.zip coins) c then .ok (vars.zip coins) g' else values vars c g'
termination_by g => Source.supply g
decreasing_by
  have hlen := List.length_pos_iff.2 _hv
  have := supply_drawCoins _h
  omega

end

end Repair

structure Sampler where
  strategy : Strategy
  scope : Scope
deriving DecidableEq, Repr

namespace Sampler

variable {R : Type} [MachineReal R] {G : Type} [Source G] {F : Formula}

open MachineReal

def weights : List Int → Attempt (WeightTable R) (List R)
  | [] => return []
  | b :: bs => do
    let x ← WeightTable.lookup b
    let xs ← weights bs
    return x :: xs

def uniformRepair (s : State F) (c : Clause) : Attempt G (FlipChoice Var) := do
  let vars := distinctVars c
  let drawn ← Repair.values vars c
  return .of vars (Repair.difference s.assignment drawn)

/-- The empty combination has weight zero and takes no part in the draw. -/
def breakWeighted (s : State F) (scope : Scope) (c : Clause) :
    Attempt (WeightTable R × G) (FlipChoice Var) := do
  let counts ← settled (s.combinationBreaks scope c)
  let ws ← onFirst (weights (counts.toList.drop 1))
  let t ← onSecond (Draw.index ((zero :: ws).map Scalar.real) 1)
  return .of (distinctVars c) t

def singleFlip (s : State F) (scope : Scope) (c : Clause) :
    Attempt (WeightTable R × G) (FlipChoice Var) := do
  let counts ← settled (s.singleBreaks scope c)
  let ws ← onFirst (weights counts.toList)
  let i ← onSecond (Draw.index (ws.map Scalar.real) 0)
  return .of (distinctVars c) (1 <<< i.toNat : Nat)

def choose (p : Sampler) (s : State F) (c : Clause) :
    Attempt (WeightTable R × G) (FlipChoice Var) :=
  match p.strategy with
  | .uniformRepair => onSecond (uniformRepair s c)
  | .breakWeighted => breakWeighted s p.scope c
  | .singleFlip => singleFlip s p.scope c

end Sampler

end SatWalk
