namespace SatWalk

/-- The entry named by `i` in a sequence of `size` entries: `0` is the first and `-1` the last. -/
def position? (size : Nat) (i : Int) : Option (Fin size) :=
  let j := if i < 0 then i + size else i
  if h : 0 ≤ j ∧ j < size then some ⟨j.toNat, by omega⟩ else none

theorem position?_natCast {size i : Nat} (h : i < size) :
    position? size (i : Int) = some ⟨i, h⟩ := by
  have hi : ¬ ((i : Int) < 0) := by omega
  simp [position?, hi, h]

theorem position?_isSome {size : Nat} {i : Int} :
    (position? size i).isSome ↔ -(size : Int) ≤ i ∧ i < size := by
  simp only [position?]
  split <;> split <;> simp_all <;> omega

end SatWalk
