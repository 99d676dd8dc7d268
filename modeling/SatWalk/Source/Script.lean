import SatWalk.Source

namespace SatWalk

structure Script where
  rest : List Int

namespace Script

def below? (n : Nat) : Script → Option (Fin n × Script)
  | ⟨[]⟩ => none
  | ⟨d :: ds⟩ =>
    if h : 0 < n then some (⟨(d % n).toNat, by
      have := Int.emod_nonneg d (b := n) (by omega)
      have := Int.emod_lt_of_pos d (b := n) (by omega)
      omega⟩, ⟨ds⟩)
    else none

theorem length_below {n : Nat} {s s' : Script} {k : Fin n} (h : s.below? n = some (k, s')) :
    s'.rest.length < s.rest.length := by
  obtain ⟨ds⟩ := s
  cases ds with
  | nil => cases h
  | cons d ds =>
    simp only [below?] at h
    split at h
    · cases h
      simp
    · cases h

instance : Source Script where
  supply s := s.rest.length
  fraction? := below? fractions
  below? := below?
  supply_fraction := length_below

end Script

end SatWalk
