import SatWalk.Value

namespace SatWalk

inductive Family
  -- The exponential of the count times the negated temperature.
  | exponential
  -- The count with an offset to the power of the negated temperature, as a ratio to the weight of no
  -- break.
  | powerLaw
  | uniform
deriving DecidableEq, Repr

inductive Strategy
  -- Any combination of the clause's variables, by weight.
  | breakWeighted
  -- Fair coins for all the clause's variables, until the clause holds.
  | uniformRepair
  | singleFlip
deriving DecidableEq, Repr

inductive Scope
  -- Those recorded as satisfied.
  | satisfied
  | all
deriving DecidableEq, Repr

inductive Status
  | running
  | satisfied
  | exhausted
deriving DecidableEq, Repr

def Family.name : Family → String
  | exponential => "exponential"
  | powerLaw => "power-law"
  | uniform => "uniform"

def Strategy.name : Strategy → String
  | breakWeighted => "break-weighted"
  | uniformRepair => "uniform-repair"
  | singleFlip => "single-flip"

def Scope.name : Scope → String
  | satisfied => "satisfied"
  | all => "all"

def Status.name : Status → String
  | running => "running"
  | satisfied => "satisfied"
  | exhausted => "exhausted-budget"

def Status.isTerminal (s : Status) : Bool := s ≠ .running

def namedBy? {R α : Type} (choices : List α) (name : α → String) : Value R → Option α
  | .text s => choices.find? fun a => name a == s
  | _ => none

def Family.choices : List Family := [.exponential, .powerLaw, .uniform]

def Strategy.choices : List Strategy := [.breakWeighted, .uniformRepair, .singleFlip]

def Scope.choices : List Scope := [.satisfied, .all]

def Status.choices : List Status := [.running, .satisfied, .exhausted]

structure UnknownChoice (R : Type) where
  given : Value R
  kind : String

def UnknownChoice.message {R : Type} [MachineReal R] (u : UnknownChoice R) : String :=
  u.given.shown ++ " is not a valid " ++ u.kind

section
variable {R : Type}

def Family.of (v : Value R) : Except (UnknownChoice R) Family :=
  match namedBy? Family.choices Family.name v with
  | some a => .ok a
  | none => .error ⟨v, "WeightingFamily"⟩

def Strategy.of (v : Value R) : Except (UnknownChoice R) Strategy :=
  match namedBy? Strategy.choices Strategy.name v with
  | some a => .ok a
  | none => .error ⟨v, "SamplingStrategy"⟩

def Scope.of (v : Value R) : Except (UnknownChoice R) Scope :=
  match namedBy? Scope.choices Scope.name v with
  | some a => .ok a
  | none => .error ⟨v, "BreakCountScope"⟩

def Status.of (v : Value R) : Except (UnknownChoice R) Status :=
  match namedBy? Status.choices Status.name v with
  | some a => .ok a
  | none => .error ⟨v, "SearchStatus"⟩

end

end SatWalk
