import Std.Data.TreeMap

namespace SatWalk

structure Statistics where
  lowest : Int
  flipSizes : Std.TreeMap Int Nat

namespace Statistics

def fresh (unsatisfied : Int) : Statistics := ⟨unsatisfied, ∅⟩

def record (s : Statistics) (size unsatisfied : Int) : Statistics where
  lowest := if unsatisfied < s.lowest then unsatisfied else s.lowest
  flipSizes := s.flipSizes.insert size (s.flipSizes.getD size 0 + 1)

end Statistics

end SatWalk
