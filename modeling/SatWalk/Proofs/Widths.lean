import SatWalk.Proofs.Faults
import SatWalk.Proofs.SingleBreaks
import SatWalk.Proofs.Submasks

namespace SatWalk

namespace Profile

variable {w : Nat} {p : Profile}

def Overflows (w : Nat) (p : Profile) : Prop :=
  if w = 3 then 8 ≤ p.kill ∨ 8 ≤ p.save
  else 2 ^ w ≤ p.kill.toNat ∧ p.kill.toNat &&& p.save.toNat = 0

instance (w : Nat) (p : Profile) : Decidable (p.Overflows w) :=
  inferInstanceAs (Decidable (if w = 3 then 8 ≤ p.kill ∨ 8 ≤ p.save
    else 2 ^ w ≤ p.kill.toNat ∧ p.kill.toNat &&& p.save.toNat = 0))

theorem exists_natCast (hp : 0 ≤ p.kill ∧ 0 ≤ p.save) : ∃ kill save : Nat, p = ⟨kill, save⟩ :=
  ⟨p.kill.toNat, p.save.toNat, by rw [Int.toNat_of_nonneg hp.1, Int.toNat_of_nonneg hp.2]⟩

theorem fits_natCast {kill save : Nat} : (Profile.mk kill save).Fits w ↔
    (w = 3 → kill < 8 ∧ save < 8) ∧ (kill < 2 ^ w ∨ Mask.disjoint kill save = false) := by
  constructor
  · rintro ⟨kill', save', hp, h⟩
    obtain ⟨hkill, hsave⟩ := Profile.mk.inj hp
    obtain rfl := Int.ofNat.inj hkill
    obtain rfl := Int.ofNat.inj hsave
    exact h
  · exact fun h => ⟨kill, save, rfl, h⟩

theorem fits_iff (hp : 0 ≤ p.kill ∧ 0 ≤ p.save) : p.Fits w ↔ ¬ p.Overflows w := by
  obtain ⟨kill, save, rfl⟩ := exists_natCast hp
  have hdisjoint : Mask.disjoint kill save = false ↔ ¬ kill &&& save = 0 := beq_eq_false_iff_ne
  rw [fits_natCast, hdisjoint, Overflows]
  simp only [Int.toNat_natCast]
  split
  · next h3 =>
    subst h3
    omega
  · next h3 =>
    rw [not_and_or, Nat.not_le, and_iff_right fun h => absurd h h3]

theorem Overflows.kill_mem_breaking (h3 : w ≠ 3) (hp : 0 ≤ p.kill ∧ 0 ≤ p.save)
    (h : p.Overflows w) : p.kill ∈ p.breaking w ∧ 2 ^ w ≤ p.kill.toNat := by
  obtain ⟨kill, save, rfl⟩ := exists_natCast hp
  rw [Overflows, if_neg h3] at h
  obtain ⟨hlarge, hand⟩ := h
  refine ⟨?_, hlarge⟩
  have hd : Mask.disjoint kill save = true := beq_iff_eq.2 hand
  have hzero : 0 ∈ Mask.avoiding w kill save := by
    rw [Mask.mem_avoiding, Nat.one_shiftLeft]
    refine ⟨Nat.two_pow_pos w, ?_⟩
    intro i hi
    rw [Nat.zero_testBit] at hi
    cases hi
  rw [breaking, if_pos hd, List.mem_map]
  exact ⟨0, hzero, Int.add_zero _⟩

theorem Within.breaksUnder_mod (h : p.Within w) (t : Nat) :
    p.breaksUnder (t % 2 ^ w) = p.breaksUnder t := by
  obtain ⟨kill, save, rfl, hk, hs⟩ := h
  have hbit : ∀ n < 2 ^ w, ∀ i, n.testBit i = true → (t % 2 ^ w).testBit i = t.testBit i := by
    intro n hn i hi
    rw [Nat.testBit_mod_two_pow, decide_eq_true (Mask.lt_of_testBit hn hi), Bool.true_and]
  rw [Bool.eq_iff_iff, breaksUnder_iff, breaksUnder_iff]
  simp only [Mask.has_natCast]
  apply and_congr
  · exact forall₂_congr fun i hi => by rw [hbit kill hk i hi]
  · exact forall₂_congr fun i hi => by rw [hbit save hs i hi]

theorem within_of_lt (hp : 0 ≤ p.kill ∧ 0 ≤ p.save)
    (h : p.kill.toNat < 2 ^ w ∧ p.save.toNat < 2 ^ w) : p.Within w := by
  obtain ⟨kill, save, rfl⟩ := exists_natCast hp
  exact ⟨kill, save, rfl, h⟩

theorem Within.mono {w' : Nat} (h : p.Within w) (hle : w ≤ w') : p.Within w' := by
  obtain ⟨kill, save, hp, hk, hs⟩ := h
  have hpow : 2 ^ w ≤ 2 ^ w' := Nat.pow_le_pow_right (by decide) hle
  exact ⟨kill, save, hp, Nat.lt_of_lt_of_le hk hpow, Nat.lt_of_lt_of_le hs hpow⟩

end Profile

namespace BreakCount

variable {ps : Profiles} {counts : Array Int}

theorem position_of_addAt_ok {n : Int} {out : Array Int} {ts : List Int}
    (h : addAt n counts ts = .ok out) : ∀ t ∈ ts, (position? counts.size t).isSome := by
  induction ts generalizing counts with
  | nil => exact fun t ht => nomatch ht
  | cons u ts ih =>
    simp only [addAt] at h
    split at h
    · cases h
    · next i hi =>
      rw [List.forall_mem_cons, hi]
      refine ⟨rfl, ?_⟩
      intro t ht
      have hrest := ih h t ht
      rwa [Array.size_set] at hrest

theorem sum_error {places : Profile → Except Fault (List Int)}
    (hplaces : ∀ p f, places p = .error f → f = .noSuchPosition) {e : Profile × Int} (he : e ∈ ps)
    (hbad : ∀ ts, places e.1 = .ok ts → ∃ t ∈ ts, position? counts.size t = none) :
    sum places counts ps = .error .noSuchPosition := by
  induction ps generalizing counts with
  | nil => cases he
  | cons d ps ih =>
    obtain ⟨p, n⟩ := d
    simp only [sum, bind, Except.bind]
    cases hp : places p with
    | error f => rw [hplaces p f hp]
    | ok ts =>
      simp only
      cases hadd : addAt n counts ts with
      | error f => rw [addAt_error hadd]
      | ok counts' =>
        rcases List.mem_cons.1 he with rfl | he
        · obtain ⟨t, ht, hnone⟩ := hbad ts hp
          have hsome := position_of_addAt_ok hadd t ht
          rw [hnone] at hsome
          cases hsome
        · apply ih he
          rwa [size_addAt hadd]

theorem threeWide?_error {p : Profile} {f : Fault} (h : threeWide? p = .error f) : f = .noSuchPosition := by
  unfold threeWide? at h
  split at h
  · cases h
  · cases h
    rfl

theorem threeWide?_of_overflows {p : Profile} (h : p.Overflows 3) :
    threeWide? p = .error .noSuchPosition := by
  have hnone : ∀ i : Int, 8 ≤ i → position? 8 i = none := by
    intro i hi
    rw [← Option.not_isSome_iff_eq_none, position?_isSome]
    omega
  rw [Profile.Overflows, if_pos rfl] at h
  unfold threeWide?
  rcases h with h | h
  · rw [hnone _ h]
  · rw [hnone _ h]
    cases position? 8 p.kill <;> rfl

theorem combinations_error {w : Nat} (hw : w < 63) (hps : ∀ e ∈ ps, 0 ≤ e.1.kill ∧ 0 ≤ e.1.save)
    {e : Profile × Int} (he : e ∈ ps) (h : e.1.Overflows w) :
    combinations w ps = .error .noSuchPosition := by
  have hsize : (Array.replicate (1 <<< w) (0 : Int)).size = 2 ^ w := by
    rw [Array.size_replicate, Nat.one_shiftLeft]
  rw [combinations, if_neg (by omega)]
  by_cases h3 : w = 3
  · subst h3
    apply sum_error (fun p f => threeWide?_error) he
    intro ts hts
    cases hts.symm.trans (threeWide?_of_overflows h)
  · simp only [if_neg h3]
    refine sum_error ?_ he ?_
    · intro p f hf
      cases hf
    · intro ts hts
      cases hts
      obtain ⟨hmem, hlarge⟩ := h.kill_mem_breaking h3 (hps e he)
      refine ⟨e.1.kill, hmem, ?_⟩
      rw [← Option.not_isSome_iff_eq_none, position?_isSome, hsize]
      omega

theorem combinations_repeat {w w' : Nat} (hlt : w < w') (hw' : w' < 63) (h : ∀ e ∈ ps, e.1.Within w) :
    ∃ counts counts', combinations w ps = .ok counts ∧ combinations w' ps = .ok counts' ∧
      counts'.size = 2 ^ w' ∧ ∀ t < 2 ^ w', counts'[t]? = counts[t % 2 ^ w]? := by
  obtain ⟨counts, hcounts, -, hget⟩ := combinations_ok (Nat.lt_trans hlt hw') h
  obtain ⟨counts', hcounts', hsize', hget'⟩ :=
    combinations_ok hw' fun e he => (h e he).mono (Nat.le_of_lt hlt)
  refine ⟨counts, counts', hcounts, hcounts', hsize', ?_⟩
  intro t ht
  rw [hget' t ht, hget (t % 2 ^ w) (Nat.mod_lt t (Nat.two_pow_pos w))]
  congr 3
  apply List.filter_congr
  intro e he
  exact ((h e he).breaksUnder_mod t).symm

theorem combinationsOf_natCast (w : Nat) (ps : Profiles) : combinationsOf w ps = combinations w ps := by
  rw [combinationsOf, if_neg (by omega), Int.toNat_natCast]

theorem filter_breaksUnder (hps : ∀ e ∈ ps, 0 ≤ e.1.kill ∧ 0 ≤ e.1.save) (t : Nat) :
    (ps.filter fun e => e.1.breaksUnder t) = ps.filter fun e =>
      e.1.kill.toNat &&& t == e.1.kill.toNat && e.1.save.toNat &&& t == 0 := by
  apply List.filter_congr
  intro e he
  obtain ⟨kill, save, hp⟩ := Profile.exists_natCast (hps e he)
  rw [hp]
  rfl

/-- The counts of `w` places. A list for 63 places or more has no length. Below that, the only fault is
a number without a place in the list, and it is known which profiles cause it. The walk over subsets
sums to the same list at every width, also where three places are looked up. -/
theorem combinationsOf_counts (w : Nat) (ps : Profiles)
    (hps : ∀ e ∈ ps, 0 ≤ e.1.kill ∧ 0 ≤ e.1.save) :
    (if 63 ≤ w then combinationsOf w ps = .error .tooLarge
    else if ∃ e ∈ ps, e.1.Overflows w then combinationsOf w ps = .error .noSuchPosition
    else ∃ counts, combinationsOf w ps = .ok counts ∧ counts.size = 2 ^ w ∧
      (∀ t < 2 ^ w, counts[t]? = some ((ps.filter fun e =>
        e.1.kill.toNat &&& t == e.1.kill.toNat && e.1.save.toNat &&& t == 0).map Prod.snd).sum) ∧
      sum (fun p => .ok ((Profile.walked w p.kill.toNat p.save.toNat).map Int.ofNat))
        (Array.replicate (1 <<< w) 0) ps = .ok counts) ∧
    ∀ w', w < w' → w' < 63 → (∀ e ∈ ps, e.1.kill.toNat < 2 ^ w ∧ e.1.save.toNat < 2 ^ w) →
      ∃ counts counts', combinationsOf w ps = .ok counts ∧ combinationsOf w' ps = .ok counts' ∧
        counts'.size = 2 ^ w' ∧ ∀ t < 2 ^ w', counts'[t]? = counts[t % 2 ^ w]? := by
  constructor
  · rw [combinationsOf_natCast]
    split
    · next hw => rw [combinations, if_pos hw]
    · next hw =>
      split
      · next hbad =>
        obtain ⟨e, he, hover⟩ := hbad
        exact combinations_error (by omega) hps he hover
      · next hgood =>
        have hfits : ∀ e ∈ ps, e.1.Fits w := by
          intro e he
          rw [Profile.fits_iff (hps e he)]
          exact fun hover => hgood ⟨e, he, hover⟩
        obtain ⟨counts, hcounts, hsize, hget⟩ := combinations_counts (by omega) hfits
        refine ⟨counts, hcounts, hsize, ?_, ?_⟩
        · intro t ht
          rw [hget t ht, filter_breaksUnder hps]
        · rw [sum_walked (by omega) hfits, hcounts]
  · intro w' hlt hw' h
    rw [combinationsOf_natCast, combinationsOf_natCast]
    exact combinations_repeat hlt hw' fun e he => Profile.within_of_lt (hps e he) (h e he)

theorem combinationsOf_counts_two :
    let ps : Profiles := [(⟨1, 2⟩, 3), (⟨3, 1⟩, 7), (⟨2, 0⟩, 2)]
    ∃ counts counts', combinationsOf 2 ps = .ok counts ∧ combinationsOf 4 ps = .ok counts' ∧
      counts[1]? = some 3 ∧ counts[3]? = some 2 ∧ counts'[13]? = some 3 := by
  intro ps
  obtain ⟨hcounts, hwider⟩ := combinationsOf_counts 2 ps (by decide)
  obtain ⟨counts, counts', hok, hok', -, hrepeat⟩ := hwider 4 (by decide) (by decide) (by decide)
  rw [if_neg (by decide), if_neg (by decide)] at hcounts
  obtain ⟨counts₂, hok₂, -, hget, -⟩ := hcounts
  cases hok₂.symm.trans hok
  refine ⟨counts, counts', hok, hok', hget 1 (by decide), hget 3 (by decide), ?_⟩
  rw [hrepeat 13 (by decide)]
  exact hget 1 (by decide)

theorem no_combinationsOf_63 : ¬ ∃ counts, combinationsOf 63 [] = .ok counts := by
  rintro ⟨counts, h⟩
  cases h

theorem singles_eq_combinations {w : Nat} (h : ∀ e ∈ ps, e.1.Within w ∧ e.1.kill ≠ 0) :
    ∃ out, singles w ps = .ok out ∧ out.size = w ∧
      if 63 ≤ w then combinations w ps = .error .tooLarge
      else ∃ counts, combinations w ps = .ok counts ∧ ∀ j < w, out[j]? = counts[2 ^ j]? := by
  obtain ⟨out, hout, hsize, hget⟩ := singles_ok h
  refine ⟨out, hout, hsize, ?_⟩
  split
  · next hw => rw [combinations, if_pos hw]
  · next hw =>
    obtain ⟨counts, hcounts, -, hget'⟩ := combinations_ok (by omega) fun e he => (h e he).1
    refine ⟨counts, hcounts, ?_⟩
    intro j hj
    rw [hget j hj, hget' (2 ^ j) (Nat.pow_lt_pow_right (by decide) hj), Nat.one_shiftLeft]
    rfl

end BreakCount

/-- The counts of single flips stand at the powers of two among those of all combinations, as long as
there is a list of these. The profiles of a clause are of the kind this takes. -/
theorem State.single_breaks_at_powers {F : Formula} (s : State F) (scope : Scope)
    (i : Fin F.clauses.size) (w : Nat) (ps : Profiles) (h : ∀ e ∈ ps, e.1.Within w ∧ e.1.kill ≠ 0) :
    (if 9223372036854775808 ≤ w then BreakCount.singlesOf w ps = .error .tooLarge
    else ∃ singles, BreakCount.singlesOf w ps = .ok singles ∧ singles.size = w ∧
      if 63 ≤ w then BreakCount.combinationsOf w ps = .error .tooLarge
      else ∃ counts, BreakCount.combinationsOf w ps = .ok counts ∧
        ∀ j < w, singles[j]? = counts[2 ^ j]?) ∧
    let k := (distinctVars (F.clauseAt i)).length
    (∀ e ∈ s.profiles scope (distinctVars (F.clauseAt i)), e.1.Within k ∧ e.1.kill ≠ 0) ∧
    ∃ singles, s.singleBreaks scope (F.clauseAt i) = .ok singles ∧ singles.size = k ∧
      if 63 ≤ k then s.combinationBreaks scope (F.clauseAt i) = .error .tooLarge
      else ∃ counts, s.combinationBreaks scope (F.clauseAt i) = .ok counts ∧
        ∀ j < k, singles[j]? = counts[2 ^ j]? := by
  constructor
  · rw [BreakCount.singlesOf, BreakCount.combinationsOf_natCast, Int.toNat_natCast]
    split
    · next hw => rw [if_pos (by omega)]
    · next hw =>
      rw [if_neg (by omega)]
      exact BreakCount.singles_eq_combinations h
  · intro k
    have hvars := nodup_distinctVars (F.clauseAt i)
    have hprofiles : ∀ e ∈ s.profiles scope (distinctVars (F.clauseAt i)),
        e.1.Within k ∧ e.1.kill ≠ 0 :=
      fun e he => ⟨within_profiles hvars he, kill_ne_zero hvars he⟩
    exact ⟨hprofiles, BreakCount.singles_eq_combinations hprofiles⟩

theorem State.single_breaks_at_powers_two :
    let ps : Profiles := [(⟨1, 2⟩, 3), (⟨2, 2⟩, 7), (⟨2, 0⟩, 2)]
    ∃ singles counts, BreakCount.singlesOf 2 ps = .ok singles ∧ BreakCount.combinationsOf 2 ps = .ok counts ∧
      singles.size = 2 ∧ singles[0]? = counts[1]? ∧ singles[1]? = counts[2]? := by
  intro ps
  have hbounds : ∀ e ∈ ps, (0 ≤ e.1.kill ∧ 0 ≤ e.1.save) ∧
      (e.1.kill.toNat < 2 ^ 2 ∧ e.1.save.toNat < 2 ^ 2) ∧ e.1.kill ≠ 0 := by
    decide
  have hps : ∀ e ∈ ps, e.1.Within 2 ∧ e.1.kill ≠ 0 := by
    intro e he
    obtain ⟨hpos, hlt, hkill⟩ := hbounds e he
    exact ⟨Profile.within_of_lt hpos hlt, hkill⟩
  have hcounts := (single_breaks_at_powers pairState .all ⟨0, by decide⟩ 2 ps hps).1
  rw [if_neg (by decide)] at hcounts
  obtain ⟨singles, hsingles, hsize, h⟩ := hcounts
  rw [if_neg (by decide)] at h
  obtain ⟨counts, hcounts, hget⟩ := h
  exact ⟨singles, counts, hsingles, hcounts, hsize, hget 0 (by decide), hget 1 (by decide)⟩

theorem no_counts_at_powers_of_wide : ¬ ∃ singles counts,
    wideState.singleBreaks .satisfied (wideFormula.clauseAt ⟨0, Nat.one_pos⟩) = .ok singles ∧
    wideState.combinationBreaks .satisfied (wideFormula.clauseAt ⟨0, Nat.one_pos⟩) = .ok counts ∧
    ∀ j < 63, singles[j]? = counts[2 ^ j]? := by
  rintro ⟨singles, counts, -, h, -⟩
  rw [State.combinationBreaks_eq, if_pos (by decide +kernel)] at h
  cases h

end SatWalk
