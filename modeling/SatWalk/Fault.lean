import SatWalk.Listing

namespace SatWalk

inductive Fault
  | noSuchPosition
  | noSuchVariable (var : Int)
  | pickFromEmpty
  | outOfDraws
  | noOutcome
  | maximumOfNothing
  -- An integer beyond the range of machine reals or of lengths.
  | tooLarge
  | negativeWidth
  | wrongVariableCount (given expected : Nat)
  | wrongValueCount (given expected : Nat)
  -- No clause is recorded as unsatisfied, but these are.
  | inconsistent (ids : List Nat)
deriving DecidableEq, Repr

def Fault.message? : Fault → Option String
  | noSuchPosition | outOfDraws | tooLarge => none
  | noSuchVariable v => some ("Variable " ++ toString v ++ " out of range.")
  | pickFromEmpty => some "Cannot pick a clause from an empty set."
  | noOutcome => some "empty range for randrange()"
  | maximumOfNothing => some "max() arg is an empty sequence"
  | negativeWidth => some "negative shift count"
  | wrongVariableCount given expected =>
    some ("The assignment has " ++ toString given ++ " variables, but the formula has "
      ++ toString expected ++ ".")
  | wrongValueCount given expected =>
    some ("Expected " ++ toString expected ++ " values, got " ++ toString given ++ ".")
  | inconsistent ids =>
    some ("The set of unsatisfied clauses is empty but clauses " ++ bracketed (ids.map fun i => toString i)
      ++ " are not satisfied.")

end SatWalk
