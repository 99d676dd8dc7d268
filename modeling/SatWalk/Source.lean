import SatWalk.Fault

/-!
Sources of random draws. A source holds a finite supply of draws, every draw uses some of it up,
and a draw may fail because none is left. What a source returns is otherwise arbitrary.
-/

namespace SatWalk

abbrev fractions : Nat := 9007199254740992 -- 2 ^ 53

class Source (G : Type) where
  /-- A bound on the number of fractions that can still be drawn. -/
  supply : G → Nat
  -- The numerator of a fraction over `fractions`.
  fraction? : G → Option (Fin fractions × G)
  below? : (n : Nat) → G → Option (Fin n × G)
  supply_fraction : ∀ {g k g'}, fraction? g = some (k, g') → supply g' < supply g

/-- An operation on a state that may fail; what it did to the state before failing remains. -/
abbrev Attempt (σ α : Type) := EStateM Fault σ α

def settled {σ α : Type} : Except Fault α → Attempt σ α
  | .ok a => fun s => .ok a s
  | .error e => fun s => .error e s

def onFirst {σ τ α : Type} (act : Attempt σ α) : Attempt (σ × τ) α := fun (s, t) =>
  match act s with
  | .ok a s' => .ok a (s', t)
  | .error e s' => .error e (s', t)

def onSecond {σ τ α : Type} (act : Attempt τ α) : Attempt (σ × τ) α := fun (s, t) =>
  match act t with
  | .ok a t' => .ok a (s, t')
  | .error e t' => .error e (s, t')

section
variable {G : Type} [Source G]

def drawFraction : Attempt G (Fin fractions) := fun g =>
  match Source.fraction? g with
  | some (k, g') => .ok k g'
  | none => .error .outOfDraws g

def drawBelow (n : Nat) : Attempt G (Fin n) := fun g =>
  if n = 0 then .error .noOutcome g
  else match Source.below? n g with
    | some (k, g') => .ok k g'
    | none => .error .outOfDraws g

def drawCoin : Attempt G Bool := do
  let k ← drawFraction
  return decide (2 * k.val < fractions)

def drawCoins : Nat → Attempt G (List Bool)
  | 0 => return []
  | n + 1 => do
    let c ← drawCoin
    let cs ← drawCoins n
    return c :: cs

end

end SatWalk
