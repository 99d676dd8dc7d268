import Mathlib.Algebra.Ring.Nat
import SatWalk.Proofs.Evaluation
import SatWalk.Walk.Steps

namespace SatWalk

namespace Draw

variable {R : Type} [MachineReal R]

open MachineReal

theorem length_reals {ws : List (Scalar R)} {xs : List R} (h : reals? ws = .ok xs) :
    xs.length = ws.length := by
  induction ws generalizing xs with
  | nil =>
    cases h
    rfl
  | cons w ws ih =>
    simp only [reals?] at h
    split at h
    · cases h
    · next x hx =>
      cases hr : reals? ws with
      | error e => simp [hr, Functor.map, Except.map] at h
      | ok ys =>
        simp only [hr, Functor.map, Except.map, Except.ok.injEq] at h
        subst h
        simp [ih hr]

theorem reach?_bounds {r sum : R} {xs : List R} {k i : Int} (h : reach? r k sum xs = some i) :
    k ≤ i ∧ i < k + xs.length := by
  induction xs generalizing k sum with
  | nil => cases h
  | cons x xs ih =>
    simp only [reach?] at h
    split at h
    · obtain rfl := Option.some.inj h
      simp only [List.length_cons]
      omega
    · have := ih h
      simp only [List.length_cons]
      omega

theorem mem_placesOf {best : Scalar R} {k i : Int} {ws : List (Scalar R)}
    (h : i ∈ placesOf best k ws) : k ≤ i ∧ i < k + ws.length := by
  induction ws generalizing k with
  | nil => cases h
  | cons w ws ih =>
    have hrest : i ∈ placesOf best (k + 1) ws → k ≤ i ∧ i < k + (w :: ws).length := by
      intro hi
      have := ih hi
      simp only [List.length_cons]
      omega
    simp only [placesOf] at h
    split at h
    · rcases List.mem_cons.1 h with rfl | h
      · simp only [List.length_cons]
        omega
      · exact hrest h
    · exact hrest h

variable {G : Type} [Source G]

theorem uniform_bounds {k i : Int} {slice ws : List (Scalar R)} {g g' : G}
    (h : uniform k slice ws g = .ok i g') : k ≤ i ∧ i < k + ws.length := by
  cases hb : greatest? slice with
  | none =>
    simp only [uniform, hb] at h
    cases h
  | some best =>
    simp only [uniform, hb] at h
    obtain ⟨j, g1, -, hj⟩ := bind_ok h
    cases hj
    exact mem_placesOf (List.get_mem _ j)

theorem among_bounds {k last i : Int} {slice ws : List (Scalar R)} {g g' : G}
    (hk : k ≤ last) (hlast : last < k + ws.length) (h : among k last slice ws g = .ok i g') :
    k ≤ i ∧ i < k + ws.length := by
  obtain ⟨xs, g1, h1, h2⟩ := bind_ok h
  obtain ⟨hxs, rfl⟩ := settled_ok h1
  split at h2
  · obtain ⟨u, g2, -, h3⟩ := bind_ok h2
    cases h3
    cases hr : reach? (mul (fraction u.val) (total xs)) k zero xs with
    | none => exact ⟨hk, hlast⟩
    | some j =>
      rw [← length_reals hxs]
      exact reach?_bounds hr
  · exact uniform_bounds h2

theorem index_bounds {ws : List (Scalar R)} {k : Nat} {i : Int} {g g' : G} (hk : k < ws.length)
    (h : index ws k g = .ok i g') : k ≤ i ∧ i < ws.length := by
  unfold index at h
  rw [if_pos (Int.natCast_nonneg k)] at h
  have hlen : (k : Int) + (ws.drop k).length = ws.length := by
    rw [List.length_drop]
    omega
  have hb := among_bounds (by omega) (by rw [Int.toNat_natCast]; omega) h
  rw [Int.toNat_natCast, hlen] at hb
  exact hb

end Draw

namespace Repair

variable {G : Type} [Source G]

theorem length_drawCoins {n : Nat} {g g' : G} {bs : List Bool} (h : drawCoins n g = .ok bs g') :
    bs.length = n := by
  induction n generalizing g bs with
  | zero =>
    cases h
    rfl
  | succ n ih =>
    obtain ⟨b, g1, -, h1⟩ := bind_ok h
    obtain ⟨cs, g2, hc, h2⟩ := bind_ok h1
    cases h2
    rw [List.length_cons, ih hc]

theorem values_eq (vars : List Var) (d : Clause) (g : G) : values vars d g =
    if vars = [] then .error .outOfDraws g
    else match drawCoins vars.length g with
      | .error e g' => .error e g'
      | .ok coins g' =>
        if accepts (vars.zip coins) d then .ok (vars.zip coins) g' else values vars d g' := by
  rw [values]
  split
  · rfl
  · split <;> simp_all

theorem values_ok {vars : List Var} {c : Clause} {g g' : G} {drawn : List (Var × Bool)}
    (h : values vars c g = .ok drawn g') :
    drawn.map Prod.fst = vars ∧ accepts drawn c = true := by
  fun_induction values vars c g with
  | case1 g hv => cases h
  | case2 g hv e g1 hc => cases h
  | case3 g hv coins g1 hc hacc =>
    cases h
    refine ⟨List.map_fst_zip ?_, hacc⟩
    rw [length_drawCoins hc]
  | case4 g hv coins g1 hc hacc ih => exact ih h

theorem difference_lt (A : Assignment) (drawn : List (Var × Bool)) :
    difference A drawn < 2 ^ drawn.length := by
  induction drawn with
  | nil => simp [difference]
  | cons vb rest ih =>
    rw [difference, List.length_cons, Nat.pow_succ]
    split <;> omega

theorem difference_ne_zero {A : Assignment} {drawn : List (Var × Bool)} {v : Var} {b : Bool}
    (hmem : (v, b) ∈ drawn) (h : A.truth v ≠ b) : difference A drawn ≠ 0 := by
  induction drawn with
  | nil => cases hmem
  | cons vb rest ih =>
    rw [difference]
    rcases List.mem_cons.1 hmem with rfl | hrest
    · rw [if_neg h]
      omega
    · have := ih hrest
      omega

theorem difference_ne_zero_of_accepts {A : Assignment} {c : Clause} {drawn : List (Var × Bool)}
    (hc : ∀ l ∈ c, l ≠ 0) (hf : c.holds A = false) (h : accepts drawn c = true) :
    difference A drawn ≠ 0 := by
  obtain ⟨l, hl, hb⟩ := List.any_eq_true.1 h
  rw [beq_iff_eq, List.lookup_eq_some_iff] at hb
  obtain ⟨before, after, rfl, -⟩ := hb
  have hfalse := Clause.not_holds_iff.1 hf l hl
  have hne : A.truth (l.natAbs : Int) ≠ decide (0 < l) := by
    rw [Assignment.truth_natAbs (hc l hl), hfalse]
    cases decide (0 < l) <;> decide
  exact difference_ne_zero (by simp) hne

end Repair

end SatWalk
