import SatWalk.Proofs.DoubleFractions
import SatWalk.Proofs.Shortages

namespace SatWalk

namespace Draw

open MachineReal

variable {R : Type} [MachineReal R] {G : Type} [Source G]

theorem index_real (xs : List R) (k : Nat) (g : G) : index (xs.map Scalar.real) k g =
    among k ((xs.length : Int) - 1) ((xs.drop k).map Scalar.real) ((xs.drop k).map Scalar.real) g := by
  unfold index
  rw [if_pos (Int.natCast_nonneg k), Int.toNat_natCast, ← List.map_drop, List.length_map]

theorem among_of_positive {xs : List R} (h : less zero (total xs) = true) (start last : Int)
    (slice : List (Scalar R)) (g : G) : among start last slice (xs.map Scalar.real) g =
      match Source.fraction? g with
      | some (j, g') => .ok ((reach? (mul (fraction j) (total xs)) start zero xs).getD last) g'
      | none => .error .outOfDraws g := by
  unfold among
  rw [reals?_real]
  change (if less zero (total xs) then _ else _ : Attempt G Int) g = _
  rw [if_pos h]
  change EStateM.bind drawFraction _ g = _
  simp only [EStateM.bind, drawFraction]
  cases Source.fraction? g <;> rfl

theorem among_of_not_positive {xs : List R} (h : less zero (total xs) = false) (start last : Int)
    (slice : List (Scalar R)) (g : G) : among start last slice (xs.map Scalar.real) g =
      uniform start slice (xs.map Scalar.real) g := by
  unfold among
  rw [reals?_real]
  change (if less zero (total xs) then _ else _ : Attempt G Int) g = _
  rw [if_neg (Bool.eq_false_iff.1 h)]

theorem placesOf_real (b : R) (k : Nat) (ys : List R) : placesOf (.real b) k (ys.map Scalar.real) =
    (ys.findIdxs (fun y => same y b) k).map Nat.cast := by
  induction ys generalizing k with
  | nil => rfl
  | cons y ys ih =>
    have hrest := ih (k + 1)
    rw [Nat.cast_add, Nat.cast_one] at hrest
    have hsame : (Scalar.real y).same (.real b) = same y b := rfl
    rw [List.map_cons, placesOf, hrest, hsame, List.findIdxs_cons]
    cases same y b <;> rfl

def greatestFrom : R → List R → R
  | x, [] => x
  | x, y :: ys => greatestFrom (if less x y then y else x) ys

theorem greatest?_real (x : R) (ys : List R) :
    greatest? ((x :: ys).map Scalar.real) = some (.real (greatestFrom x ys)) := by
  rw [List.map_cons, greatest?, Option.some.injEq]
  induction ys generalizing x with
  | nil => rfl
  | cons y ys ih =>
    have hkept : (if (Scalar.real x).less (.real y) then Scalar.real y else .real x) =
        .real (if less x y then y else x) := (apply_ite Scalar.real _ _ _).symm
    rw [List.map_cons, List.foldl_cons, hkept, ih, greatestFrom]

theorem greatestFrom_mem (x : R) (ys : List R) : greatestFrom x ys ∈ x :: ys := by
  induction ys generalizing x with
  | nil => exact List.mem_cons_self
  | cons y ys ih =>
    rw [greatestFrom]
    split
    · exact List.mem_cons_of_mem x (ih y)
    · apply List.mem_cons.2
      exact (List.mem_cons.1 (ih x)).imp id (List.mem_cons_of_mem y)

def candidates (xs : List R) (k : Nat) (b : R) : List Nat := (xs.drop k).findIdxs (fun y => same y b) k

theorem mem_candidates {xs : List R} {k i : Nat} {b : R} :
    i ∈ candidates xs k b ↔ k ≤ i ∧ ∃ y, xs[i]? = some y ∧ same y b = true := by
  rw [candidates, List.mem_findIdxs_iff_getElem_sub_pos]
  apply and_congr_right
  intro hk
  have hget : (xs.drop k)[i - k]? = xs[i]? := by
    rw [List.getElem?_drop, Nat.add_sub_of_le hk]
  rw [← hget]
  constructor
  · rintro ⟨hlt, hsame⟩
    exact ⟨_, List.getElem?_eq_getElem hlt, hsame⟩
  · rintro ⟨y, hy, hsame⟩
    obtain ⟨hlt, rfl⟩ := List.getElem?_eq_some_iff.1 hy
    exact ⟨hlt, hsame⟩

theorem existsUnique_candidate {xs : List R} {k i : Nat} {b : R} (h : i ∈ candidates xs k b) :
    ∃! j, (candidates xs k b).get j = i := by
  obtain ⟨j, hj⟩ := List.get_of_mem h
  refine ⟨j, hj, ?_⟩
  intro j' hj'
  exact List.nodup_findIdxs.injective_get (hj'.trans hj.symm)

def drawEntry (ids : List Nat) : Attempt G Int := do
  let j ← drawBelow ids.length
  return (ids.get j : Nat)

theorem drawEntry_some {ids : List Nat} {j : Fin ids.length} {g g' : G}
    (h : Source.below? ids.length g = some (j, g')) :
    drawEntry ids g = .ok ((ids.get j : Nat) : Int) g' := by
  change EStateM.bind (drawBelow ids.length) _ g = _
  simp only [EStateM.bind, drawBelow, if_neg (Fin.pos j).ne', h]
  rfl

theorem drawEntry_none {ids : List Nat} (hids : ids ≠ []) {g : G}
    (h : Source.below? ids.length g = none) : drawEntry ids g = .error .outOfDraws g := by
  change EStateM.bind (drawBelow ids.length) _ g = _
  simp only [EStateM.bind, drawBelow, if_neg (List.length_pos_iff.2 hids).ne', h]

theorem drawBelow_cast {m n : Nat} (h : m = n) (f : Fin n → Int) :
    (drawBelow m >>= fun j => pure (f (j.cast h)) : Attempt G Int) =
      drawBelow n >>= fun j => pure (f j) := by
  subst h
  rfl

theorem uniform_candidates {b : R} {xs : List R} {k : Nat} {slice : List (Scalar R)}
    (hbest : greatest? slice = some (.real b)) :
    uniform (G := G) k slice ((xs.drop k).map Scalar.real) = drawEntry (candidates xs k b) := by
  have hplaces : placesOf (.real b) k ((xs.drop k).map Scalar.real) =
      (candidates xs k b).map Nat.cast := placesOf_real b k _
  have hlength : (placesOf (.real b) k ((xs.drop k).map Scalar.real)).length =
      (candidates xs k b).length := by
    rw [hplaces, List.length_map]
  have hget (j : Fin (placesOf (.real b) k ((xs.drop k).map Scalar.real)).length) :
      (placesOf (.real b) k ((xs.drop k).map Scalar.real)).get j =
        ((candidates xs k b).get (j.cast hlength) : Nat) := by
    simp only [List.get_eq_getElem, hplaces, List.getElem_map, Fin.val_cast]
  simp only [uniform, hbest, hget]
  exact drawBelow_cast hlength fun j => ((candidates xs k b).get j : Nat)

section Comparison

variable [LawfulComparison R] {x : R}

theorem greatestFrom_number (hx : IsNumber x) (ys : List R) : IsNumber (greatestFrom x ys) := by
  induction ys generalizing x with
  | nil => exact hx
  | cons y ys ih =>
    rw [greatestFrom]
    apply ih
    split
    · next hless => exact (LawfulComparison.number_of_less hless).2
    · exact hx

theorem greatestFrom_not_number (hx : ¬ IsNumber x) (ys : List R) : greatestFrom x ys = x := by
  induction ys with
  | nil => rfl
  | cons y ys ih =>
    have hkept : ¬ less x y = true := fun hless => hx (LawfulComparison.number_of_less hless).1
    rw [greatestFrom, if_neg hkept, ih]

theorem candidates_eq_nil_iff {xs ys : List R} {k : Nat} (hxs : xs.drop k = x :: ys) :
    candidates xs k (greatestFrom x ys) = [] ↔ ¬ IsNumber x := by
  rw [candidates, List.findIdxs_eq_nil_iff, hxs]
  constructor
  · intro h hx
    have hbest := h _ (greatestFrom_mem x ys)
    rw [greatestFrom_number hx ys] at hbest
    cases hbest
  · intro hx y _
    rw [greatestFrom_not_number hx, Bool.eq_false_iff]
    exact fun hsame => hx (LawfulComparison.number_of_same hsame).2

theorem index_of_nothing {xs : List R} {k : Nat} (hk : xs.length ≤ k) (g : G) :
    index (xs.map Scalar.real) k g = .error .maximumOfNothing g := by
  have hxs := List.drop_eq_nil_iff.2 hk
  have htotal : less zero (total (xs.drop k)) = false := by
    rw [hxs]
    exact LawfulComparison.less_self zero
  rw [index_real, among_of_not_positive htotal, hxs]
  rfl

end Comparison

theorem index_of_not_positive {x : R} {xs ys : List R} {k : Nat} (hxs : xs.drop k = x :: ys)
    (htotal : less zero (total (xs.drop k)) = false) (g : G) :
    index (xs.map Scalar.real) k g = drawEntry (candidates xs k (greatestFrom x ys)) g := by
  have hbest : greatest? ((xs.drop k).map Scalar.real) = some (.real (greatestFrom x ys)) := by
    rw [hxs, greatest?_real]
  rw [index_real, among_of_not_positive htotal, uniform_candidates hbest]

theorem reach?_total [LawfulOrder R] {xs : List R} {k : Nat} {u : R} (hxs : ∀ x ∈ xs.drop k, AtMost zero x)
    (htotal : IsUsable (total (xs.drop k))) (hu₀ : AtMost zero u) (hu₁ : less u one = true) :
    ∃ (i : Nat) (x : R), reach? (mul u (total (xs.drop k))) k zero (xs.drop k) = some (i : Int) ∧
      k ≤ i ∧ xs[i]? = some x ∧ less zero x = true := by
  have hr := LawfulOrder.mul_atMost hu₀ hu₁ htotal
  obtain ⟨n, x, hfound, hx, hpos⟩ := reach?_positive k (.inr LawfulOrder.number_zero) hxs hr
    (exists_positive hxs htotal.2)
  rw [List.getElem?_drop] at hx
  exact ⟨k + n, x, hfound, Nat.le_add_right k n, hx, hpos⟩

/-- With weights that are not negative and a finite positive sum, some sum reaches each fraction of it
at a place of positive weight, so that the last place is never fallen back to. -/
theorem index_positive [LawfulOrder R] {xs : List R} {k : Nat} (hxs : ∀ x ∈ xs.drop k, AtMost zero x)
    (htotal : IsUsable (total (xs.drop k))) :
    (∀ u : R, AtMost zero u → less u one = true → ∃ (i : Nat) (x : R),
      reach? (mul u (total (xs.drop k))) k zero (xs.drop k) = some (i : Int) ∧
        k ≤ i ∧ xs[i]? = some x ∧ less zero x = true) ∧
    ∀ (g g' : G) (j : Fin fractions), Source.fraction? g = some (j, g') → ∃ (i : Nat) (x : R),
      index (xs.map Scalar.real) k g = .ok (i : Int) g' ∧
        reach? (mul (fraction j) (total (xs.drop k))) k zero (xs.drop k) = some (i : Int) ∧
        k ≤ i ∧ xs[i]? = some x ∧ less zero x = true := by
  refine ⟨fun u => reach?_total hxs htotal, ?_⟩
  intro g g' j hj
  obtain ⟨hj₀, hj₁⟩ := LawfulOrder.fraction_bounds (R := R) j.isLt
  obtain ⟨i, x, hfound, hi⟩ := reach?_total hxs htotal hj₀ hj₁
  refine ⟨i, x, ?_, hfound, hi⟩
  rw [index_real, among_of_positive htotal.2, hj]
  simp only [hfound, Option.getD_some]

def sparse : List Float := [4, 0, 2.5, 0, 1, 0]

theorem index_positive_sparse :
    (∀ x ∈ sparse.drop 1, AtMost zero x) ∧ IsUsable (total (sparse.drop 1)) ∧
      ∃ (i : Nat) (x : Float), index (sparse.map Scalar.real) 1 (⟨[9007199254740991]⟩ : Script) =
        .ok (i : Int) ⟨[]⟩ ∧ 1 ≤ i ∧ sparse[i]? = some x ∧ less zero x = true := by
  have hxs : ∀ x ∈ sparse.drop 1, AtMost zero x := by decide +kernel
  have htotal : IsUsable (total (sparse.drop 1)) := ⟨by decide +kernel, by decide +kernel⟩
  refine ⟨hxs, htotal, ?_⟩
  obtain ⟨-, hdraw⟩ := index_positive (G := Script) hxs htotal
  obtain ⟨i, x, hindex, -, hi⟩ := hdraw ⟨[9007199254740991]⟩ ⟨[]⟩ ⟨9007199254740991, by decide⟩ rfl
  exact ⟨i, x, hindex, hi⟩

def NoPlace (e : Fault) : Prop := e = .maximumOfNothing ∨ e = .noOutcome

def Placeless (xs : List R) (k : Nat) : Prop :=
  xs.length ≤ k ∨ less zero (total (xs.drop k)) = false ∧ ∃ x, xs[k]? = some x ∧ ¬ IsNumber x

section Range

variable [LawfulComparison R] {xs : List R} {k : Nat}

theorem drop_eq_cons {α : Type} {xs : List α} {x : α} (hk : xs[k]? = some x) :
    xs.drop k = x :: xs.drop (k + 1) := by
  obtain ⟨hlt, rfl⟩ := List.getElem?_eq_some_iff.1 hk
  exact List.drop_eq_getElem_cons hlt

theorem index_of_placeless (h : Placeless xs k) (g : G) :
    ∃ e, NoPlace e ∧ index (xs.map Scalar.real) k g = .error e g := by
  obtain hk | ⟨htotal, x, hx, hnumber⟩ := h
  · exact ⟨_, .inl rfl, index_of_nothing hk g⟩
  · have hxs := drop_eq_cons hx
    refine ⟨_, .inr rfl, ?_⟩
    rw [index_of_not_positive hxs htotal, (candidates_eq_nil_iff hxs).2 hnumber]
    rfl

theorem index_of_not_placeless (h : ¬ Placeless xs k) (g : G) :
    (∃ (i : Nat) (g' : G), index (xs.map Scalar.real) k g = .ok (i : Int) g' ∧ k ≤ i ∧ i < xs.length) ∨
      Source.Dry g ∧ index (xs.map Scalar.real) k g = .error .outOfDraws g := by
  rw [Placeless, not_or, not_le] at h
  obtain ⟨hk, hfirst⟩ := h
  have hok : ∀ i g', index (xs.map Scalar.real) k g = .ok i g' → ∃ (i : Nat) (g' : G),
      index (xs.map Scalar.real) k g = .ok (i : Int) g' ∧ k ≤ i ∧ i < xs.length := by
    intro i g' hi
    obtain ⟨hlow, hhigh⟩ := index_bounds (by rwa [List.length_map]) hi
    rw [List.length_map] at hhigh
    obtain ⟨n, rfl⟩ := Int.eq_ofNat_of_zero_le (show 0 ≤ i by omega)
    exact ⟨n, g', hi, by omega, by omega⟩
  cases htotal : less zero (total (xs.drop k)) with
  | true =>
    have hindex := index_real xs k g
    rw [among_of_positive htotal] at hindex
    cases hdraw : Source.fraction? g with
    | some d =>
      rw [hdraw] at hindex
      exact .inl (hok _ _ hindex)
    | none =>
      rw [hdraw] at hindex
      exact .inr ⟨.inl hdraw, hindex⟩
  | false =>
    have hxs := drop_eq_cons (List.getElem?_eq_getElem hk)
    have hne := (candidates_eq_nil_iff hxs).not.2 fun hnumber =>
      hfirst ⟨htotal, _, List.getElem?_eq_getElem hk, hnumber⟩
    have hindex := index_of_not_positive hxs htotal g
    cases hdraw : Source.below? (candidates xs k (greatestFrom xs[k] (xs.drop (k + 1)))).length g with
    | some d =>
      rw [drawEntry_some hdraw] at hindex
      exact .inl (hok _ _ hindex)
    | none =>
      rw [drawEntry_none hne hdraw] at hindex
      exact .inr ⟨.inr ⟨_, List.length_pos_iff.2 hne, hdraw⟩, hindex⟩

end Range

/-- A draw fails where nothing is left from the start on, and where the sum is not positive and the
first weight is no number; otherwise, unless the source is dry, it gives a place from the start on. -/
theorem index_in_range [LawfulComparison R] (xs : List R) (k : Nat) (g : G) :
    ((∃ (i : Nat) (g' : G), index (xs.map Scalar.real) k g = .ok (i : Int) g' ∧ k ≤ i ∧ i < xs.length) ∨
      (∃ e, NoPlace e ∧ index (xs.map Scalar.real) k g = .error e g) ∨
      Source.Dry g ∧ index (xs.map Scalar.real) k g = .error .outOfDraws g) ∧
    ((∃ e, NoPlace e ∧ index (xs.map Scalar.real) k g = .error e g) ↔
      xs.length ≤ k ∨ less zero (total (xs.drop k)) = false ∧ ∃ x, xs[k]? = some x ∧ ¬ IsNumber x) ∧
    ∀ x, xs[k]? = some x → IsNumber x → less zero (total (xs.drop k)) = false →
      ∃ (n : Nat) (place : Fin n → Nat),
        (∀ (g g' : G) (j : Fin n), Source.below? n g = some (j, g') →
          index (xs.map Scalar.real) k g = .ok (place j : Int) g') ∧
        (∀ g : G, Source.below? n g = none → index (xs.map Scalar.real) k g = .error .outOfDraws g) ∧
        (∀ j, k ≤ place j ∧ ∃ y, xs[place j]? = some y ∧
          same y (greatestFrom x (xs.drop (k + 1))) = true) ∧
        ∀ i y, k ≤ i → xs[i]? = some y → same y (greatestFrom x (xs.drop (k + 1))) = true →
          ∃! j, place j = i := by
  refine ⟨?_, ⟨?_, fun h => index_of_placeless h g⟩, ?_⟩
  · by_cases h : Placeless xs k
    · exact .inr (.inl (index_of_placeless h g))
    · exact (index_of_not_placeless h g).imp id .inr
  · rintro ⟨e, he, hfail⟩
    by_contra h
    obtain ⟨i, g', hok, -⟩ | ⟨-, hdry⟩ := index_of_not_placeless h g
    · cases hfail.symm.trans hok
    · cases hfail.symm.trans hdry
      obtain he | he := he <;> cases he
  · intro x hx hnumber htotal
    have hxs := drop_eq_cons hx
    have hne := (candidates_eq_nil_iff hxs).not.2 (not_not.2 hnumber)
    refine ⟨_, (candidates xs k (greatestFrom x (xs.drop (k + 1)))).get, ?_, ?_, ?_, ?_⟩
    · intro g g' j hj
      rw [index_of_not_positive hxs htotal, drawEntry_some hj]
    · intro g hnone
      rw [index_of_not_positive hxs htotal, drawEntry_none hne hnone]
    · intro j
      exact mem_candidates.1 (List.get_mem _ j)
    · intro i y hi hy hsame
      exact existsUnique_candidate (mem_candidates.2 ⟨hi, y, hy, hsame⟩)

def broken : List Float := [0 / 0, 0, 0 / 0, -0, -1]

theorem index_in_range_broken :
    (∃ e, NoPlace e ∧ index (broken.map Scalar.real) 0 (⟨[7]⟩ : Script) = .error e ⟨[7]⟩) ∧
      ∃ (n : Nat) (place : Fin n → Nat), (∀ (g g' : Script) (j : Fin n),
        Source.below? n g = some (j, g') → index (broken.map Scalar.real) 1 g = .ok (place j : Int) g') ∧
          (∃! j, place j = 1) ∧ ∃! j, place j = 3 := by
  have hnan : ¬ IsNumber (0 / 0 : Float) := by decide +kernel
  have hzero : IsNumber (0 : Float) := by decide +kernel
  have htotal : less zero (total (broken.drop 1)) = false := by decide +kernel
  constructor
  · apply (index_in_range broken 0 (⟨[7]⟩ : Script)).2.1.2
    exact .inr ⟨by decide +kernel, _, rfl, hnan⟩
  · obtain ⟨n, place, hdraw, -, -, hunique⟩ :=
      (index_in_range broken 1 (⟨[7]⟩ : Script)).2.2 0 rfl hzero htotal
    refine ⟨n, place, hdraw, ?_, ?_⟩
    · exact hunique 1 0 le_rfl rfl (by decide +kernel)
    · exact hunique 3 (-0) (by decide) rfl (by decide +kernel)

end Draw

end SatWalk
