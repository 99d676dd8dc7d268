import SatWalk.Binary64
import SatWalk.Proofs.Interruptions

/-!
Lookups after other lookups. A table holds the weights of the first counts and keeps what it has
computed, so a count below its size is answered with its weight. Beyond it the table at least doubles,
and the lookup fails at any weight on the way that cannot be computed, the one asked for or a later
one: only then does the answer depend on what was looked up before.
-/

namespace SatWalk

variable {R : Type} [MachineReal R] {w : Weighting R}

def Weighting.answer (w : Weighting R) (b : Nat) : Except Fault R :=
  match w.weight? b with
  | some x => .ok x
  | none => .error .tooLarge

theorem Weighting.answer_of_some {b : Nat} {x : R} (h : w.weight? b = some x) : w.answer b = .ok x := by
  rw [answer, h]

theorem Weighting.answer_eq_tooLarge_iff {b : Nat} : w.answer b = .error .tooLarge ↔ w.weight? b = none := by
  unfold answer
  cases w.weight? b <;> simp

namespace WeightTable

variable {t : WeightTable R} {n : Nat}

def replay (asked : List Int) (t : WeightTable R) : WeightTable R :=
  asked.foldl (fun t b => leftBy (lookup b t)) t

theorem leftBy_lookup_negative {b : Int} (hb : b < 0) (t : WeightTable R) : leftBy (lookup b t) = t := by
  have hbelow : ¬ (t.size : Int) ≤ b := by omega
  change leftBy ((if (t.size : Int) ≤ b then _ else get >>= fun t => settled (t.entry? b)) t) = t
  rw [if_neg hbelow]
  change leftBy (settled (t.entry? b) t) = t
  cases t.entry? b <;> rfl

theorem replay_induction {p : WeightTable R → Prop} {asked : List Int}
    (hstep : ∀ b : Nat, (b : Int) ∈ asked → ∀ t, p t → p (leftBy (lookup b t))) (h : p t) :
    p (replay asked t) := by
  induction asked generalizing t with
  | nil => exact h
  | cons b asked ih =>
    apply ih
    · intro b' hb'
      exact hstep b' (List.mem_cons_of_mem b hb')
    · by_cases hb : b < 0
      · change p (leftBy (lookup b t))
        rwa [leftBy_lookup_negative hb]
      · obtain ⟨b, rfl⟩ := Int.eq_ofNat_of_zero_le (Int.not_lt.1 hb)
        exact hstep b List.mem_cons_self t h

theorem Holds.grown_replay (h : t.Holds w) (asked : List Int) : Grown w t (replay asked t) := by
  apply replay_induction _ (Grown.refl h)
  intro b _ t' ht'
  exact ht'.trans ((lookup_answered ht'.holds b).leftBy_grown ht'.holds)

theorem Holds.replay (h : t.Holds w) (asked : List Int) : (replay asked t).Holds w :=
  (h.grown_replay asked).holds

theorem replay_append (asked more : List Int) (t : WeightTable R) :
    replay (asked ++ more) t = replay more (replay asked t) := List.foldl_append

theorem Kept.replay (h : t.Kept w n) (hw : ∀ b ≤ 2 * n, (w.weight? b).isSome) {asked : List Int}
    (hasked : ∀ b ∈ asked, b ≤ n) : (replay asked t).Kept w n := by
  apply replay_induction _ h
  intro b hb t ht
  obtain ⟨x, t', hlookup, -, hkept⟩ := lookup_ok ht hw (Int.ofNat_le.1 (hasked b hb))
  rw [hlookup]
  exact hkept

theorem Answered.returned_eq_iff {b : Nat} {r : EStateM.Result Fault (WeightTable R) R}
    (hr : Answered w b t r) : returned r = w.answer b ↔
      b < t.size ∨ w.weight? b = none ∨
        ∀ b' < max (b + 1) (2 * t.size), (w.weight? b').isSome := by
  cases hr with
  | held hlt hx => exact iff_of_true (Weighting.answer_of_some hx).symm (.inl hlt)
  | @grown x t' hle hx hholds hsize =>
    refine iff_of_true (Weighting.answer_of_some hx).symm (.inr (.inr ?_))
    intro b' hb'
    rw [← hsize] at hb'
    exact Option.isSome_iff_exists.2 ⟨_, hholds.weight_eq b' hb'⟩
  | @stopped t' hle hholds hkept hlt hnone =>
    have hstop : ¬ ∀ b' < max (b + 1) (2 * t.size), (w.weight? b').isSome := by
      intro hall
      have hsome := hall t'.size hlt
      rw [hnone] at hsome
      cases hsome
    rw [or_iff_right (Nat.not_lt.2 hle), or_iff_left hstop, ← Weighting.answer_eq_tooLarge_iff]
    exact eq_comm

theorem Answered.returned_cases {b : Nat} {r : EStateM.Result Fault (WeightTable R) R}
    (hr : Answered w b t r) : returned r = w.answer b ∨ returned r = .error .tooLarge := by
  cases hr with
  | held hlt hx => exact .inl (Weighting.answer_of_some hx).symm
  | grown hle hx hholds hsize => exact .inl (Weighting.answer_of_some hx).symm
  | stopped hle hholds hkept hlt hnone => exact .inr rfl

theorem Answered.grows {b : Nat} {r : EStateM.Result Fault (WeightTable R) R} (hr : Answered w b t r)
    (hle : t.size ≤ b) (hw : ∀ b' < max (b + 1) (2 * t.size), (w.weight? b').isSome) :
    (leftBy r).size = max (b + 1) (2 * t.size) := by
  cases hr with
  | held hlt hx => omega
  | grown _ hx hholds hsize => exact hsize
  | @stopped t' _ hholds hkept hlt hnone =>
    have hsome := hw t'.size hlt
    rw [hnone] at hsome
    cases hsome

theorem Answered.stops {b m : Nat} {r : EStateM.Result Fault (WeightTable R) R} (hr : Answered w b t r)
    (hle : t.size ≤ b) (hm : m < max (b + 1) (2 * t.size)) (hw : ∀ b' < m, (w.weight? b').isSome)
    (hnone : w.weight? m = none) : returned r = .error .tooLarge ∧ (leftBy r).size = m := by
  have hbeyond {t' : WeightTable R} (h : t'.Holds w) : t'.size ≤ m := by
    by_contra hlt
    cases hnone.symm.trans (h.weight_eq m (Nat.lt_of_not_le hlt))
  cases hr with
  | held hlt hx => omega
  | grown _ hx hholds hsize =>
    have hbound := hbeyond hholds
    omega
  | @stopped t' _ hholds hkept hlt hnone' =>
    refine ⟨rfl, Nat.le_antisymm (hbeyond hholds) ?_⟩
    by_contra hlt'
    have hsome := hw t'.size (Nat.lt_of_not_le hlt')
    rw [hnone'] at hsome
    cases hsome

/-- After any lookups, failed ones included, a break count is answered with its weight, or with the
fault of a weight that cannot be computed. The answer is the one of its own weight exactly when the
count is in the table already, or its weight cannot be computed, or all weights up to it and up to
twice the table's size can. It is so throughout while no weight up to twice the counts asked for is
out of range. -/
theorem lookup_answer_iff {size : Int} (h : create w size = .ok t) (asked : List Int) (b : Nat) :
    (returned (lookup b (replay asked t)) = w.answer b ↔
      b < (replay asked t).size ∨ w.weight? b = none ∨
        ∀ b' < max (b + 1) (2 * (replay asked t).size), (w.weight? b').isSome) ∧
    (returned (lookup b (replay asked t)) = w.answer b ∨
      returned (lookup b (replay asked t)) = .error .tooLarge) ∧
    ∀ n : Nat, (∀ b' ≤ 2 * n, (w.weight? b').isSome) → size ≤ 2 * n + 1 → (∀ a ∈ asked, a ≤ n) → b ≤ n →
      returned (lookup b (replay asked t)) = w.answer b := by
  have hanswered := lookup_answered ((holds_create h).replay asked) b
  refine ⟨hanswered.returned_eq_iff, hanswered.returned_cases, ?_⟩
  intro n hw hsize hasked hb
  have hfirst : ∀ b < (max size 1).toNat, (w.weight? b).isSome := by
    intro b hb
    apply hw
    omega
  obtain ⟨t', ht', hholds, hsize'⟩ := create_ok hfirst
  obtain rfl : t' = t := Except.ok.inj (ht'.symm.trans h)
  have hkept : t'.Kept w n := ⟨hholds, by omega⟩
  obtain ⟨x, t'', hlookup, hx, -⟩ := lookup_ok (hkept.replay hw hasked) hw hb
  rw [hlookup, Weighting.answer_of_some hx]
  rfl

/-- What a table holds after any lookups, failed ones included: the weights of the first break counts, at
least one, and those it held before. The next lookup leaves the table when its count is among them; else
it extends the table, or ends with all weights before the first that cannot be computed. -/
theorem contents_after {size : Int} (h : create w size = .ok t) (asked more : List Int) (b : Nat) :
    (1 ≤ (replay asked t).size ∧ (replay asked t).Holds w) ∧
    (replay asked t).weights.toList <+: (replay (asked ++ more) t).weights.toList ∧
    (b < (replay asked t).size →
      ∃ x, w.weight? b = some x ∧ lookup b (replay asked t) = .ok x (replay asked t)) ∧
    (∀ x t', lookup b (replay asked t) = .ok x t' → w.weight? b = some x ∧
      ((replay asked t).size ≤ b → t'.size = max (b + 1) (2 * (replay asked t).size))) ∧
    ∀ e t', lookup b (replay asked t) = .error e t' → e = .tooLarge ∧ t'.Holds w ∧
      w.weight? t'.size = none := by
  obtain ⟨hholds, hsize⟩ := of_create h
  have hgrown := hholds.grown_replay asked
  have hmore := hgrown.holds.grown_replay more
  have hanswered := lookup_answered hgrown.holds b
  have hone : 1 ≤ (replay asked t).size := by
    apply le_trans _ hgrown.size_le
    omega
  rw [replay_append]
  refine ⟨⟨hone, hgrown.holds⟩, hmore.keeps hgrown.holds, ?_⟩
  generalize lookup b (replay asked t) = r at hanswered ⊢
  cases hanswered with
  | held hlt hx =>
    refine ⟨fun _ => ⟨_, hx, rfl⟩, ?_, ?_⟩
    · rintro x t' hr
      cases hr
      exact ⟨hx, fun hle => absurd hlt (Nat.not_lt.2 hle)⟩
    · rintro e t' hr
      cases hr
  | grown hle hx hholds' hsize' =>
    refine ⟨fun hlt => absurd hlt (Nat.not_lt.2 hle), ?_, ?_⟩
    · rintro x t' hr
      cases hr
      exact ⟨hx, fun _ => hsize'⟩
    · rintro e t' hr
      cases hr
  | stopped hle hholds' hkept hlt hnone =>
    refine ⟨fun hlt => absurd hlt (Nat.not_lt.2 hle), ?_, ?_⟩
    · rintro x t' hr
      cases hr
    · rintro e t' hr
      cases hr
      exact ⟨rfl, hholds', hnone⟩

end WeightTable

def hotWeighting : Weighting Float := ⟨.exponential, .int (8 * (10 ^ 107 * 10 ^ 200)), .int 1⟩

theorem hotWeighting_isSome : ∀ b < 3, (hotWeighting.weight? b).isSome := by
  decide +kernel

theorem hotWeighting_three : hotWeighting.weight? 3 = none := by
  rw [← Option.isNone_iff_eq_none]
  decide +kernel

theorem WeightTable.create_hotWeighting :
    ∃ t, create hotWeighting 0 = .ok t ∧ t.Holds hotWeighting ∧ t.size = 1 := by
  apply create_ok
  intro b hb
  exact hotWeighting_isSome b (by omega)

theorem WeightTable.size_lookup_one {t : WeightTable Float} (h : t.Holds hotWeighting) (hsize : t.size = 1) :
    (replay [1] t).size = 2 := by
  have hgrown := (lookup_answered h 1).grows (by omega) fun b hb => hotWeighting_isSome b (by omega)
  rw [hsize] at hgrown
  exact hgrown

theorem WeightTable.lookup_answer_iff_hot : ∃ t, create hotWeighting 0 = .ok t ∧
    (replay [1] t).size = 2 ∧ returned (lookup 1 (replay [1] t)) = hotWeighting.answer 1 ∧
    returned (lookup 2 (replay [1] t)) ≠ hotWeighting.answer 2 := by
  obtain ⟨t, ht, hholds, hsize⟩ := create_hotWeighting
  have hone := size_lookup_one hholds hsize
  have hsome := hotWeighting_isSome 2 (by decide)
  refine ⟨t, ht, hone, (lookup_answer_iff ht [1] 1).1.2 (.inl ?_), ?_⟩
  · rw [hone]
    decide
  · intro hanswer
    obtain hlt | hnone | hall := (lookup_answer_iff ht [1] 2).1.1 hanswer
    · rw [hone] at hlt
      exact absurd hlt (by decide)
    · rw [hnone] at hsome
      cases hsome
    · have hthree := hall 3 (by rw [hone]; decide)
      rw [hotWeighting_three] at hthree
      cases hthree

theorem WeightTable.lookup_depends_on_history : ∃ t x,
    Weighting.of (.text "exponential") hotWeighting.temperature.toValue hotWeighting.offset.toValue =
      .ok hotWeighting ∧
    create hotWeighting 0 = .ok t ∧ hotWeighting.weight? 2 = some x ∧ returned (lookup 2 t) = .ok x ∧
    returned (lookup 2 (replay [1] t)) = .error .tooLarge ∧
    returned (lookup 2 (replay [1, 2] t)) = .ok x := by
  obtain ⟨t, ht, hholds, hsize⟩ := create_hotWeighting
  obtain ⟨x, hx⟩ := Option.isSome_iff_exists.1 (hotWeighting_isSome 2 (by decide))
  have hone := size_lookup_one hholds hsize
  have hstop := (lookup_answered (hholds.replay [1]) 2).stops (m := 3) (by omega)
    (by rw [hone]; decide) hotWeighting_isSome hotWeighting_three
  refine ⟨t, x, rfl, ht, hx, ?_, hstop.1, ?_⟩
  · rw [← Weighting.answer_of_some hx]
    apply (lookup_answered hholds 2).returned_eq_iff.2
    rw [hsize]
    exact .inr (.inr hotWeighting_isSome)
  · rw [← Weighting.answer_of_some hx]
    apply (lookup_answered (hholds.replay [1, 2]) 2).returned_eq_iff.2
    have hthree : (replay [1, 2] t).size = 3 := hstop.2
    rw [hthree]
    exact .inl (by decide)

theorem WeightTable.contents_after_hot : ∃ t t', create hotWeighting 0 = .ok t ∧
    (replay [1] t).size = 2 ∧ (∃ x, lookup 1 (replay [1] t) = .ok x (replay [1] t)) ∧
    lookup 2 (replay [1] t) = .error .tooLarge t' ∧ t'.Holds hotWeighting ∧
    hotWeighting.weight? t'.size = none ∧ t'.size = 3 := by
  obtain ⟨t, ht, hholds, hsize⟩ := create_hotWeighting
  have hone := size_lookup_one hholds hsize
  obtain ⟨-, -, hheld, -, -⟩ := contents_after ht [1] [2] 1
  obtain ⟨-, -, -, -, hstopped⟩ := contents_after ht [1] [2] 2
  obtain ⟨x, -, hx⟩ := hheld (by rw [hone]; decide)
  obtain ⟨hreturned, hthree⟩ := (lookup_answered (hholds.replay [1]) 2).stops (m := 3) (by omega)
    (by rw [hone]; decide) hotWeighting_isSome hotWeighting_three
  cases hlookup : lookup (2 : Nat) (replay [1] t) with
  | ok y t' =>
    rw [hlookup] at hreturned
    cases hreturned
  | error e t' =>
    obtain ⟨rfl, hholds', hnone⟩ := hstopped e t' hlookup
    rw [hlookup] at hthree
    exact ⟨t, t', ht, hone, ⟨x, hx⟩, hlookup, hholds', hnone, hthree⟩

end SatWalk
