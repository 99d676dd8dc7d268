import SatWalk.Proofs.BreakCounts

namespace SatWalk

theorem Mask.lone?_eq_some {n j : Nat} : lone? (n : Int) = some j ↔ n = 1 <<< j := by
  rw [Nat.one_shiftLeft]
  change (if n ≠ 0 ∧ n &&& (n - 1) = 0 then some (Nat.log2 n) else none) = some j ↔ _
  constructor
  · intro h
    split at h
    · next hn =>
      obtain ⟨k, rfl⟩ := (Nat.and_sub_one_eq_zero_iff_isPowerOfTwo hn.1).1 hn.2
      rw [Nat.log2_two_pow, Option.some.injEq] at h
      rw [h]
    · cases h
  · rintro rfl
    have hpos : 2 ^ j ≠ 0 := Nat.ne_of_gt (Nat.two_pow_pos j)
    have hpow := (Nat.and_sub_one_eq_zero_iff_isPowerOfTwo hpos).2 ⟨j, rfl⟩
    rw [if_pos ⟨hpos, hpow⟩, Nat.log2_two_pow]

namespace Profile

theorem testBit_one_shiftLeft {i j : Nat} : (1 <<< j).testBit i = true ↔ j = i := by
  rw [Nat.one_shiftLeft, Nat.testBit_two_pow, decide_eq_true_eq]

theorem lonePlace?_eq_some {kill : Nat} {save : Int} {j : Nat} (h0 : kill ≠ 0) :
    (Profile.mk kill save).lonePlace? = some j ↔ (Profile.mk kill save).breaksUnder (1 <<< j) = true := by
  constructor
  · intro h
    rw [lonePlace?] at h
    split at h
    · next hd =>
      obtain rfl := Mask.lone?_eq_some.1 h
      rw [breaksUnder_iff]
      refine ⟨fun i hi => hi, ?_⟩
      intro i hi
      exact Mask.eq_false_of (Mask.disjoint_iff.1 hd i) hi
    · cases h
  · intro hb
    have hkill := (breaksUnder_iff.1 hb).1
    -- Every kill place is `j`, and there is one.
    have hbit : ∀ i, kill.testBit i = true ↔ j = i := by
      intro i
      constructor
      · intro hi
        exact testBit_one_shiftLeft.1 (hkill i hi)
      · rintro rfl
        obtain ⟨k, hk⟩ := Nat.exists_testBit_of_ne_zero h0
        rwa [testBit_one_shiftLeft.1 (hkill k hk)]
    have hone : kill = 1 <<< j := by
      apply Nat.eq_of_testBit_eq
      intro i
      rw [Bool.eq_iff_iff, hbit, testBit_one_shiftLeft]
    rw [lonePlace?, if_pos (disjoint_of_breaksUnder hb)]
    exact Mask.lone?_eq_some.2 hone

end Profile

namespace BreakCount

theorem count_toList {o : Option Nat} {j : Nat} : o.toList.count j = if o = some j then 1 else 0 := by
  cases o with
  | none => rfl
  | some i => simp [List.count_singleton]

theorem singles_ok {w : Nat} {ps : Profiles} (h : ∀ e ∈ ps, e.1.Within w ∧ e.1.kill ≠ 0) :
    ∃ out, singles w ps = .ok out ∧ out.size = w ∧
      ∀ j < w, out[j]? = some (ps.total (·.breaksUnder (1 <<< j))) := by
  have hlone : ∀ e ∈ ps, ∀ j, e.1.lonePlace? = some j ↔ e.1.breaksUnder (1 <<< j) = true := by
    intro e he j
    obtain ⟨⟨kill, save, hp, -, -⟩, h0⟩ := h e he
    rw [hp] at h0 ⊢
    exact Profile.lonePlace?_eq_some (Int.natCast_ne_zero.1 h0)
  have hlt : ∀ e ∈ ps, ∀ t ∈ e.1.lonePlace?.toList, t < (Array.replicate w (0 : Int)).size := by
    intro e he t ht
    obtain ⟨⟨kill, save, hp, hk, -⟩, -⟩ := h e he
    rw [hp] at ht
    have hkill : kill = 1 <<< t := by
      simp only [Profile.lonePlace?, Option.mem_toList] at ht
      split at ht
      · exact Mask.lone?_eq_some.1 ht
      · cases ht
    rw [hkill, Nat.one_shiftLeft] at hk
    rw [Array.size_replicate]
    exact (Nat.pow_lt_pow_iff_right (by decide)).1 hk
  obtain ⟨out, hout, hsize, hget⟩ :=
    @sum_natCast (fun p => .ok (p.lonePlace?.toList.map Int.ofNat)) (fun p => p.lonePlace?.toList)
      (Array.replicate w 0) ps fun e he => ⟨rfl, hlt e he⟩
  rw [Array.size_replicate] at hsize
  refine ⟨out, hout, hsize, ?_⟩
  intro j hj
  have hcount : ∀ e ∈ ps, e.1.lonePlace?.toList.count j = if e.1.breaksUnder (1 <<< j) then 1 else 0 := by
    intro e he
    simp only [count_toList, hlone e he j]
  rw [hget j, Array.getElem?_replicate, if_pos hj, Option.map_some, Int.zero_add]
  exact congrArg some (sum_count_eq (fun p => p.lonePlace?.toList) (·.breaksUnder (1 <<< j)) hcount)

end BreakCount

namespace State

variable {F : Formula} {s : State F} {scope : Scope} {vars : List Nat}

theorem kill_ne_zero (hvars : vars.Nodup) {e : Profile × Int} (h : e ∈ s.profiles scope vars) :
    e.1.kill ≠ 0 := by
  obtain hL | ⟨f, hf, -⟩ := Profiles.mem_foldl_count h
  · obtain ⟨id, hid, hp⟩ := List.mem_filterMap.1 hL
    obtain ⟨d, hd, l, hl, ht, hv⟩ := mem_neighbours.1 (List.mem_filter.1 hid).1
    rw [Formula.getD_clauses hd] at hp
    obtain ⟨i, hi⟩ := List.mem_iff_getElem?.1 hv
    have hkill : Mask.has e.1.kill i = true := ((Profile.of?_eq_some hvars hp).2 i).1.2 ⟨l, hl, ht, hi⟩
    intro h0
    rw [h0, ← Int.natCast_zero, Mask.has_natCast, Nat.zero_testBit] at hkill
    cases hkill
  · cases hf

theorem singleBreaks_eq (s : State F) (scope : Scope) (d : Clause) :
    s.singleBreaks scope d = .ok (Array.ofFn fun j : Fin (distinctVars d).length =>
      (s.brokenCount scope (distinctVars d) (1 <<< j.val : Nat) : Int)) := by
  have hvars := nodup_distinctVars d
  obtain ⟨out, hout, hsize, hget⟩ := BreakCount.singles_ok
    fun e (he : e ∈ s.profiles scope (distinctVars d)) => ⟨within_profiles hvars he, kill_ne_zero hvars he⟩
  rw [singleBreaks, hout]
  congr 1
  apply Array.ext
  · rw [hsize, Array.size_ofFn]
  · intro j hj _
    have hentry := hget j (hsize ▸ hj)
    rw [Array.getElem?_eq_getElem hj, Option.some.injEq] at hentry
    rw [hentry, Array.getElem_ofFn]
    exact total_profiles s scope hvars (1 <<< j)

end State

end SatWalk
