import SatWalk.Firsts

namespace SatWalk

abbrev Var := Nat

abbrev Literal := Int

namespace Literal

def var (l : Literal) : Var := l.natAbs

def isPositive (l : Literal) : Bool := decide (0 < l)

def negated (l : Literal) : Literal := -l

def positive (v : Int) : Literal := v

def negative (v : Int) : Literal := -v

end Literal

def distinctVars (ls : List Literal) : List Var := firsts (ls.map Literal.var)

end SatWalk
