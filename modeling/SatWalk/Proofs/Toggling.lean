import Mathlib.Data.List.Basic
import SatWalk.State

namespace SatWalk

namespace Assignment

variable {A : Assignment} {ps : List Nat}

def toggled (A : Assignment) (ps : List Nat) : Assignment where
  slots := A.slots.mapIdx fun p b => b ^^ decide (ps.count p % 2 = 1)
  slots_pos := by simpa using A.slots_pos

theorem lt_size {v : Nat} : v < A.slots.size ↔ v ≤ A.numVars := by
  have := A.slots_pos
  simp only [numVars]
  omega

theorem size_toggled : (A.toggled ps).slots.size = A.slots.size := by simp [toggled]

theorem getD_toggled {p : Nat} (h : p < A.slots.size) :
    (A.toggled ps).slots.getD p false = (A.slots.getD p false ^^ decide (ps.count p % 2 = 1)) := by
  simp [toggled, Array.getD_eq_getD_getElem?, h]

theorem toggled_nil : A.toggled [] = A := by
  obtain ⟨slots, _⟩ := A
  simp only [toggled, mk.injEq]
  apply Array.ext
  · simp
  · intro p _ _
    simp

theorem toggled_toggled {qs : List Nat} : (A.toggled ps).toggled qs = A.toggled (ps ++ qs) := by
  simp only [toggled, Array.mapIdx_mapIdx, mk.injEq]
  congr 1
  funext p b
  simp only [Function.comp_def, List.count_append]
  rcases Nat.mod_two_eq_zero_or_one (ps.count p) with hp | hp <;>
    rcases Nat.mod_two_eq_zero_or_one (qs.count p) with hq | hq <;>
      simp [hp, hq, Nat.add_mod]

theorem toggle?_eq {i : Int} {p : Nat} (h : (position? A.slots.size i).map Fin.val = some p) :
    A.toggle? i = some (A.toggled [p]) := by
  obtain ⟨q, hq, rfl⟩ := Option.map_eq_some_iff.1 h
  simp only [toggle?, hq, Option.map_some, Option.some.injEq, toggled, mk.injEq]
  apply Array.ext
  · simp
  · intro j hj _
    simp only [Array.size_set] at hj
    rw [Array.getElem_set, Array.getElem_mapIdx]
    by_cases hqj : q.val = j
    · simp [hqj]
    · simp [hqj]

theorem toggleAll_eq {is : List Int}
    (h : is.map (fun i => (position? A.slots.size i).map Fin.val) = ps.map some) :
    toggleAll is A = .ok () (A.toggled ps) := by
  induction is generalizing A ps with
  | nil =>
    obtain rfl : ps = [] := by simpa using h.symm
    rw [toggled_nil]
    rfl
  | cons i is ih =>
    cases ps with
    | nil => cases h
    | cons p ps =>
      obtain ⟨hp, hps⟩ := List.cons.inj h
      have hrest : toggleAll is (A.toggled [p]) = .ok () ((A.toggled [p]).toggled ps) := by
        apply ih
        rw [size_toggled]
        exact hps
      simp only [toggleAll, toggle, bind, EStateM.bind, toggle?_eq hp, hrest, toggled_toggled,
        List.singleton_append]

theorem toggleAll_natCast {vs : List Var} (h : ∀ v ∈ vs, v ≤ A.numVars) :
    toggleAll (vs.map Int.ofNat) A = .ok () (A.toggled vs) := by
  apply toggleAll_eq
  rw [List.map_map]
  apply List.map_congr_left
  intro v hv
  simp only [Function.comp_apply, Int.ofNat_eq_natCast, position?_natCast (lt_size.2 (h v hv)),
    Option.map_some]

theorem truth_toggled {l : Int} (h : l.natAbs ≤ A.numVars) :
    (A.toggled ps).truth l = (A.truth l ^^ decide (ps.count l.natAbs % 2 = 1)) := by
  simp only [truth, getD_toggled (lt_size.2 h)]
  split
  · rfl
  · rw [← Bool.not_xor]

theorem truth_toggled_nodup {l : Int} (h : l.natAbs ≤ A.numVars) (hps : ps.Nodup) :
    (A.toggled ps).truth l = (A.truth l ^^ decide (l.natAbs ∈ ps)) := by
  rw [truth_toggled h, hps.count]
  by_cases hl : l.natAbs ∈ ps <;> simp [hl]

end Assignment

end SatWalk
