import SatWalk.Proofs.DoubleArithmetic
import SatWalk.Proofs.Repairs
import SatWalk.Proofs.Restarts

/-!
What a search can fail for. As long as its weights are in range and are numbers, and the lists of its
break counts not too long, only a draw that the source refuses stops it.
-/

namespace SatWalk

def Source.Dry {G : Type} [Source G] (g : G) : Prop :=
  fraction? g = none ∨ ∃ n, 0 < n ∧ below? n g = none

section
variable {G : Type} [Source G] {σ τ α β : Type} {src : σ → G} {s : σ}

/-- If this is a failure, the source that is left refused a draw. -/
def DryOnly (src : σ → G) (r : EStateM.Result Fault σ α) : Prop :=
  ∀ e s, r = .error e s → e = .outOfDraws ∧ Source.Dry (src s)

namespace DryOnly

theorem of_ok {r : EStateM.Result Fault σ α} {a : α} {t : σ} (h : r = .ok a t) : DryOnly src r := by
  intro e s he
  cases h.symm.trans he

theorem bind {x : Attempt σ α} {f : α → Attempt σ β} (hx : DryOnly src (x s))
    (hf : ∀ a t, x s = .ok a t → DryOnly src (f a t)) : DryOnly src ((x >>= f) s) := by
  intro e s' h
  obtain h | ⟨a, t, ha, h⟩ := bind_error h
  · exact hx e s' h
  · exact hf a t ha e s' h

theorem bind_pure {x : Attempt σ α} {f : α → β} (hx : DryOnly src (x s)) :
    DryOnly src ((x >>= fun a => pure (f a)) s) :=
  hx.bind fun _ _ _ => of_ok rfl

theorem settled {x : Except Fault α} {a : α} (h : x = .ok a) :
    DryOnly src ((settled x : Attempt σ α) s) := by
  rw [h]
  exact of_ok rfl

theorem onSecond {act : Attempt G α} {g : G} (h : DryOnly id (act g)) (s : σ) :
    DryOnly Prod.snd (onSecond act (s, g)) := by
  rintro e ⟨s', g'⟩ he
  exact h e g' (onSecond_error he).1

theorem onFirst {act : Attempt σ α} {a : α} {t : σ} (h : act s = .ok a t) (g : G) :
    DryOnly Prod.snd (onFirst act (s, g)) := by
  rintro e ⟨s', g'⟩ he
  cases h.symm.trans (onFirst_error he).1

end DryOnly

theorem dryOnly_drawFraction (g : G) : DryOnly id (drawFraction g) := by
  intro e g' h
  simp only [drawFraction] at h
  split at h
  · cases h
  · next hnone =>
    cases h
    exact ⟨rfl, .inl hnone⟩

theorem dryOnly_drawBelow {n : Nat} (hn : 0 < n) (g : G) : DryOnly id (drawBelow n g) := by
  intro e g' h
  simp only [drawBelow, if_neg (Nat.ne_of_gt hn)] at h
  split at h
  · cases h
  · next hnone =>
    cases h
    exact ⟨rfl, .inr ⟨n, hn, hnone⟩⟩

theorem dryOnly_drawCoins (n : Nat) (g : G) : DryOnly id (drawCoins n g) := by
  induction n generalizing g with
  | zero => exact .of_ok rfl
  | succ n ih =>
    apply DryOnly.bind (dryOnly_drawFraction g).bind_pure
    intro b g₁ _
    exact (ih g₁).bind_pure

theorem dryOnly_initial (n : Nat) (A : Option Assignment) (g : G) : DryOnly id (initial n A g) := by
  cases A with
  | some A => exact .of_ok rfl
  | none => exact (dryOnly_drawCoins n g).bind_pure

theorem PickSet.dryOnly_pick {s : PickSet} (hs : s.isEmpty = false) (g : G) :
    DryOnly id (s.pick g) := by
  have hsize : 0 < s.members.size := by
    apply Nat.pos_of_ne_zero
    intro h0
    rw [isEmpty, Array.isEmpty_eq_false_iff] at hs
    exact hs (Array.eq_empty_of_size_eq_zero h0)
  unfold pick
  rw [if_neg (by simp [hs])]
  exact (dryOnly_drawBelow hsize g).bind_pure

theorem Repair.dryOnly_values {vars : List Var} (hvars : vars ≠ []) (d : Clause) (g : G) :
    DryOnly id (values vars d g) := by
  fun_induction values vars d g with
  | case1 g hv => exact absurd hv hvars
  | case2 g hv e g₁ hcoins =>
    rintro e' g' h
    cases h
    exact dryOnly_drawCoins _ g e g₁ hcoins
  | case3 g hv coins g₁ hcoins hacc => exact .of_ok rfl
  | case4 g hv coins g₁ hcoins hacc ih => exact ih

end

namespace Draw

variable {R : Type} [MachineReal R] {G : Type} [Source G]

open MachineReal

theorem reals?_real (xs : List R) : reals? (xs.map Scalar.real) = .ok xs := by
  induction xs with
  | nil => rfl
  | cons x xs ih =>
    simp only [List.map_cons, reals?, Scalar.toReal?, ih]
    rfl

theorem foldl_greater_mem (w : Scalar R) (ws : List (Scalar R)) :
    ws.foldl (fun best w => if best.less w then w else best) w ∈ w :: ws := by
  induction ws generalizing w with
  | nil => exact List.mem_cons_self
  | cons v ws ih =>
    rw [List.foldl_cons]
    apply List.mem_cons.2
    obtain h | h := List.mem_cons.1 (ih (if w.less v then v else w))
    · rw [h]
      split
      · exact .inr List.mem_cons_self
      · exact .inl rfl
    · exact .inr (List.mem_cons_of_mem v h)

theorem exists_greatest {ws : List (Scalar R)} (hws : ws ≠ []) :
    ∃ best ∈ ws, greatest? ws = some best := by
  obtain ⟨w, ws, rfl⟩ := List.exists_cons_of_ne_nil hws
  exact ⟨_, foldl_greater_mem w ws, rfl⟩

theorem placesOf_ne_nil {best : Scalar R} {ws : List (Scalar R)} (hbest : best ∈ ws)
    (hsame : best.same best = true) (k : Int) : placesOf best k ws ≠ [] := by
  induction ws generalizing k with
  | nil => cases hbest
  | cons w ws ih =>
    rw [placesOf]
    split
    · exact List.cons_ne_nil _ _
    · next hne =>
      apply ih
      apply (List.mem_cons.1 hbest).resolve_left
      rintro rfl
      exact hne hsame

theorem dryOnly_among {xs : List R} (hne : xs ≠ []) (hxs : ∀ x ∈ xs, IsNumber x) (k last : Int)
    (g : G) :
    DryOnly id (among k last (xs.map Scalar.real) (xs.map Scalar.real) g) := by
  apply (DryOnly.settled (reals?_real xs)).bind
  intro ys g₁ _
  split
  · exact (dryOnly_drawFraction g₁).bind_pure
  -- Without a positive total one of the greatest weights is drawn, and numbers have a greatest one.
  · have hmap : xs.map (Scalar.real (R := R)) ≠ [] := by simpa using hne
    obtain ⟨best, hbest, hgreatest⟩ := exists_greatest hmap
    obtain ⟨x, hx, rfl⟩ := List.mem_map.1 hbest
    have hplaces : placesOf (.real x) k (xs.map Scalar.real) ≠ [] :=
      placesOf_ne_nil hbest (hxs x hx) k
    simp only [uniform, hgreatest]
    exact (dryOnly_drawBelow (List.length_pos_iff.2 hplaces) g₁).bind_pure

theorem dryOnly_index {xs : List R} {k : Nat} (hk : k < xs.length) (hxs : ∀ x ∈ xs.drop k, IsNumber x)
    (g : G) : DryOnly id (index (xs.map Scalar.real) k g) := by
  have hne : xs.drop k ≠ [] := by
    rw [ne_eq, List.drop_eq_nil_iff]
    omega
  unfold index
  rw [if_pos (Int.natCast_nonneg k), Int.toNat_natCast, ← List.map_drop]
  exact dryOnly_among hne hxs _ _ g

end Draw

section
variable {R : Type} [MachineReal R] {F : Formula} {c : Config R} {G : Type} [Source G] {α : Type}

open MachineReal

/-- No clause has too many variables for the list of its combinations' break counts. -/
def Config.Lists (F : Formula) (c : Config R) : Prop :=
  c.strategy = .breakWeighted → ∀ d ∈ F.clauses.toList, (distinctVars d).length < 63

def Config.Numbers (c : Config R) : Prop := ∀ b x, c.weighting.weight? b = some x → IsNumber x

theorem Sampler.weights_numbers (hc : c.Weighs F) (hnumbers : c.Numbers)
    (hcoins : c.strategy ≠ .uniformRepair) {bs : List Int} (hbs : ∀ b ∈ bs, 0 ≤ b ∧ b ≤ F.numClauses)
    {t : WeightTable R} (ht : c.Serves F t) :
    ∃ xs t', weights bs t = .ok xs t' ∧ xs.length = bs.length ∧ ∀ x ∈ xs, IsNumber x := by
  obtain ⟨xs, t', hxs, hmap, -⟩ :=
    weights_ok (hc.resolve_left hcoins) hbs (ht.resolve_left hcoins)
  refine ⟨xs, t', hxs, ?_, ?_⟩
  · have hlength := congrArg List.length hmap
    rwa [List.length_map, List.length_map] at hlength
  · intro x hx
    have hmem : some x ∈ bs.map fun b => c.weighting.weight? b.toNat :=
      hmap ▸ List.mem_map_of_mem hx
    obtain ⟨b, -, hb⟩ := List.mem_map.1 hmem
    exact hnumbers b.toNat x hb

theorem Sampler.dryOnly_weighed (hc : c.Weighs F) (hnumbers : c.Numbers)
    (hcoins : c.strategy ≠ .uniformRepair) {bs : List Int} (hne : bs ≠ [])
    (hbs : ∀ b ∈ bs, 0 ≤ b ∧ b ≤ F.numClauses) (before : List R) (f : Int → α) {t : WeightTable R}
    (ht : c.Serves F t) (g : G) : DryOnly Prod.snd ((do
      let ws ← onFirst (weights bs)
      let i ← onSecond (Draw.index ((before ++ ws).map Scalar.real) before.length)
      return f i : Attempt (WeightTable R × G) α) (t, g)) := by
  obtain ⟨ws, t₁, hws, hlength, hnumber⟩ := weights_numbers hc hnumbers hcoins hbs ht
  apply (DryOnly.onFirst hws g).bind
  rintro ws' ⟨t₂, g₂⟩ hok
  obtain ⟨hws', rfl⟩ := onFirst_ok hok
  cases hws.symm.trans hws'
  have hpos : 0 < bs.length := List.length_pos_iff.2 hne
  have hindex : before.length < (before ++ ws).length := by
    rw [List.length_append]
    omega
  apply (DryOnly.onSecond (Draw.dryOnly_index hindex _ g₂) t₁).bind_pure
  rwa [List.drop_left]

theorem Sampler.dryOnly_choose (hc : c.Weighs F) (hlists : c.Lists F) (hnumbers : c.Numbers)
    (s : State F) (i : Fin F.clauses.size) {t : WeightTable R} (ht : c.Serves F t) (g : G) :
    DryOnly Prod.snd (c.sampler.choose s (F.clauseAt i) (t, g)) := by
  have hmem : F.clauseAt i ∈ F.clauses.toList := Formula.mem_clauses (Formula.getElem?_clauseAt i)
  have hvars : distinctVars (F.clauseAt i) ≠ [] := distinctVars_ne_nil (F.ne_nil _ hmem)
  have hwidth : 0 < (distinctVars (F.clauseAt i)).length := List.length_pos_iff.2 hvars
  cases hs : c.strategy with
  | uniformRepair =>
    simp only [choose, Config.sampler, hs, uniformRepair]
    apply DryOnly.onSecond
    exact (Repair.dryOnly_values hvars _ g).bind_pure
  | breakWeighted =>
    simp only [choose, Config.sampler, hs, breakWeighted]
    have hbreaks := State.combinationBreaks_eq s c.scope (F.clauseAt i)
    rw [if_neg (Nat.not_le.2 (hlists hs _ hmem))] at hbreaks
    apply (DryOnly.settled hbreaks).bind
    intro counts s₁ hok
    obtain ⟨hcounts, rfl⟩ := settled_ok hok
    have hcombinations : 2 ≤ 2 ^ (distinctVars (F.clauseAt i)).length := by
      have htwo := Nat.pow_le_pow_right (n := 2) (by decide) hwidth
      omega
    apply dryOnly_weighed hc hnumbers (by simp [hs]) _ _ [zero] _ ht g
    · apply List.ne_nil_of_length_pos
      rw [List.length_drop, Array.length_toList, State.size_combinationBreaks hcounts]
      omega
    · intro b hb
      exact State.combinationBreaks_bounds hcounts b (List.mem_of_mem_drop hb)
  | singleFlip =>
    simp only [choose, Config.sampler, hs, singleFlip]
    have hbreaks := State.singleBreaks_eq s c.scope (F.clauseAt i)
    apply (DryOnly.settled hbreaks).bind
    intro counts s₁ hok
    obtain ⟨hcounts, rfl⟩ := settled_ok hok
    apply dryOnly_weighed hc hnumbers (by simp [hs]) _ (State.singleBreaks_bounds hcounts) [] _ ht g
    apply List.ne_nil_of_length_pos
    cases hbreaks.symm.trans hcounts
    rwa [Array.length_toList, Array.size_ofFn]

theorem PickSet.clauseId?_pick {s : State F} (hs : s.Exact) {id : Int} {g g' : G}
    (h : s.unsatisfied.pick g = .ok id g') : ∃ i, F.clauseId? id = .ok i := by
  obtain ⟨j, hj, rfl⟩ := (hs id).1 (mem_of_pick h)
  obtain ⟨d, hd, -⟩ := Formula.mem_falseClauses.1 hj
  have hlt : j < F.clauses.size := (Array.getElem?_eq_some_iff.1 hd).1
  exact ⟨⟨j, hlt⟩, by simp only [Formula.clauseId?, position?_natCast hlt]⟩

namespace Walk

variable {w : Walk F c} {g : G}

theorem dryOnly_onTable {act : Attempt (WeightTable R × G) α}
    (h : DryOnly Prod.snd (act (w.table, g))) : DryOnly Prod.snd (onTable act (w, g)) := by
  rintro e ⟨w', g'⟩ he
  obtain ⟨t, ht, -⟩ := onTable_error he
  exact h e (t, g') ht

theorem dryOnly_move (hc : c.Weighs F) (hlists : c.Lists F) (hnumbers : c.Numbers)
    (hw : w.state.Exact) (ht : c.Serves F w.table) (hu : w.state.unsatisfied.isEmpty = false) :
    DryOnly Prod.snd (move (w, g)) := by
  have hget : DryOnly Prod.snd ((get : Attempt (Walk F c × G) _) (w, g)) := .of_ok rfl
  apply hget.bind
  rintro - - ⟨⟩
  apply (DryOnly.onSecond (PickSet.dryOnly_pick hu g) w).bind
  rintro id ⟨w₁, g₁⟩ hpick
  obtain ⟨hpick, rfl⟩ := onSecond_ok hpick
  obtain ⟨i, hi⟩ := PickSet.clauseId?_pick hw hpick
  apply (DryOnly.settled hi).bind
  rintro j ⟨w₂, g₂⟩ hj
  obtain ⟨-, hsame⟩ := settled_ok hj
  cases hsame
  apply (dryOnly_onTable (Sampler.dryOnly_choose hc hlists hnumbers w₁.state j ht g₁)).bind
  rintro choice ⟨w₃, g₃⟩ hchoice
  obtain ⟨t, hchoose, rfl⟩ := onTable_ok hchoice
  obtain ⟨s, hflip⟩ := flip_choose hchoose
  apply DryOnly.of_ok
  simp only [bind, EStateM.bind, onState, onFirst, hflip]
  rfl

theorem dryOnly_step (hc : c.Weighs F) (hlists : c.Lists F) (hnumbers : c.Numbers)
    (hw : w.state.Exact) (ht : c.Serves F w.table) : DryOnly Prod.snd (step (w, g)) := by
  rw [step_eq]
  split
  · exact .of_ok rfl
  · split
    · rw [settle_eq, if_pos (checked_of_exact hw)]
      exact .of_ok rfl
    · next hu =>
      apply (dryOnly_move hc hlists hnumbers hw ht (Bool.not_eq_true _ ▸ hu)).bind
      rintro _ ⟨w₁, g₁⟩ hm
      rw [close_eq, settle_eq, if_pos (checked_of_exact (exact_move hw hm))]
      split
      · exact .of_ok rfl
      · split <;> exact .of_ok rfl

theorem of_initial {A : Option Assignment} (hA : ∀ B ∈ A, B.numVars = F.numVars) {B : Assignment}
    {g g' : G} (h : initial F.numVars A g = .ok B g') : ∃ s, State.of F B = .ok s := by
  have hB : B.numVars = F.numVars := by
    cases A with
    | some B' =>
      cases h
      exact hA B rfl
    | none =>
      obtain ⟨bs, g₁, hbs, hof⟩ := bind_ok h
      cases hof
      rw [Assignment.numVars_ofList, Repair.length_drawCoins hbs]
  exact ⟨_, by rw [State.of, dif_pos hB]⟩

theorem dryOnly_start (hc : c.Weighs F) {A : Option Assignment} (hA : ∀ B ∈ A, B.numVars = F.numVars)
    (g : G) : DryOnly id (start F c A g) := by
  obtain ⟨t, ht, -⟩ := startTable_ok hc
  rw [start_eq, ht]
  apply (DryOnly.settled rfl).bind
  rintro t' g₁ -
  apply (dryOnly_initial F.numVars A g₁).bind
  rintro B g₂ hB
  obtain ⟨s, hs⟩ := of_initial hA hB
  exact (DryOnly.settled hs).bind_pure

theorem dryOnly_restart {A : Option Assignment} (hA : ∀ B ∈ A, B.numVars = F.numVars)
    (w : Walk F c) (g : G) : DryOnly Prod.snd (restart A (w, g)) := by
  have hreplace : DryOnly Prod.snd (State.replace A (w.state, g)) := by
    rw [State.replace_eq]
    apply (DryOnly.onSecond (dryOnly_initial F.numVars A g) w.state).bind
    rintro B ⟨s, g₁⟩ hB
    obtain ⟨t, ht⟩ := of_initial hA (onSecond_ok hB).1
    apply (DryOnly.settled ht).bind
    intro t' s' _
    exact .of_ok rfl
  rintro e ⟨w', g'⟩ h
  obtain h | ⟨u, s, -, h⟩ := bind_error h
  · obtain ⟨s, hs, -⟩ := onState_error h
    exact hreplace e (s, g') hs
  · cases h

end Walk

theorem Walk.step_wide {w : Walk F c} {g g₁ : G} {id : Int} {i : Fin F.clauses.size}
    (hs : c.strategy = .breakWeighted) (hw : w.status.isTerminal = false)
    (hu : w.state.unsatisfied.isEmpty = false) (hpick : w.state.unsatisfied.pick g = .ok id g₁)
    (hi : F.clauseId? id = .ok i) (hwide : 63 ≤ (distinctVars (F.clauseAt i)).length) :
    step (w, g) = .error .tooLarge (w, g₁) := by
  have hbreaks := State.combinationBreaks_eq w.state c.scope (F.clauseAt i)
  rw [if_pos hwide] at hbreaks
  have hchoose : c.sampler.choose w.state (F.clauseAt i) (w.table, g₁) =
      .error .tooLarge (w.table, g₁) := by
    simp only [Sampler.choose, Config.sampler, hs, Sampler.breakWeighted, hbreaks]
    rfl
  have hmove : move (w, g) = .error .tooLarge (w, g₁) := by
    change (onSecond w.state.unsatisfied.pick >>= _) (w, g) = _
    simp only [bind, EStateM.bind, onSecond, hpick, hi, settled, onTable, hchoose]
  rw [step_eq, if_neg (by simp [hw]), if_neg (by simp [hu])]
  simp only [bind, EStateM.bind, hmove]

theorem Walk.start_of {t : WeightTable R} (ht : startTable F c = .ok t) {s : State F}
    (hs : State.of F s.assignment = .ok s) (g : G) :
    start F c (some s.assignment) g = .ok (fresh s t) g := by
  rw [start_eq, ht]
  change (settled (State.of F s.assignment) >>= fun s => pure (fresh s t)) g = _
  rw [hs]
  rfl

end

theorem Script.not_dry (d : Int) (ds : List Int) : ¬ Source.Dry (⟨d :: ds⟩ : Script) := by
  rintro (h | ⟨n, hn, h⟩)
  · cases h
  · simp only [Source.below?, Script.below?, dif_pos hn] at h
    cases h

theorem PickSet.pick_first {s : PickSet} {a : Int} {as : List Int} (h : s.toList = a :: as) (ds : List Int) :
    s.isEmpty = false ∧ s.pick (⟨0 :: ds⟩ : Script) = .ok a ⟨ds⟩ := by
  obtain ⟨⟨members⟩, places, hplaces⟩ := s
  obtain rfl : members = a :: as := h
  exact ⟨rfl, rfl⟩

theorem Config.weighs_of_real {F : Formula} {c : Config Float} {t : Float}
    (ht : c.temperature = .real t) (hF : 2 * F.numClauses + 1 < 2 ^ 1022) : c.Weighs F := by
  have hnear : ∀ q : Rat, 0 ≤ q → q ≤ 2 * F.numClauses + 1 →
      (MachineReal.nearest? q : Option Float).isSome := by
    intro q hq hle
    apply Binary64.isSome_nearest hq
    apply lt_of_le_of_lt hle
    exact_mod_cast hF
  refine .inr fun b hb => ?_
  apply Weighting.isSome_weight hnear ht c.offset_usable
  have hcount : (b : Rat) ≤ (2 * F.numClauses : Nat) := Nat.cast_le.2 hb
  push_cast at hcount
  linarith

def Tabulated : Type := Float

namespace Tabulated

def exponentials : List (Float × Float) :=
  [(0.0, 1.0), (-1.0, 0.36787944117144233), (-2.0, 0.1353352832366127),
   (-3.0, 0.049787068367863944), (-4.0, 0.01831563888873418)]

def exp (x : Float) : Float := ((exponentials.find? fun p => p.1 == x).map Prod.snd).getD 0.0

def pow (x : Float) (_ : Float) : Float := if x == 1.0 then 1.0 else 0.0

theorem number_exp (x : Float) : MachineReal.IsNumber (exp x) := by
  have hplaces : ∀ p ∈ exponentials, MachineReal.IsNumber p.2 := by decide +kernel
  unfold exp
  cases hfind : exponentials.find? fun p => p.1 == x with
  | none => decide +kernel
  | some p => exact hplaces p (List.mem_of_find?_eq_some hfind)

theorem number_pow (x y : Float) : MachineReal.IsNumber (pow x y) := by
  unfold pow
  split <;> decide +kernel

instance : MachineReal Tabulated :=
  { (inferInstance : MachineReal Float) with exp := exp, pow := pow }

instance : MachineReal.LawfulArithmetic Tabulated where
  number_one := MachineReal.LawfulArithmetic.number_one (R := Float)
  cold_nearest := MachineReal.LawfulArithmetic.cold_nearest (R := Float)
  base_nearest := MachineReal.LawfulArithmetic.base_nearest (R := Float)
  cold_neg := MachineReal.LawfulArithmetic.cold_neg (R := Float)
  cold_mul := MachineReal.LawfulArithmetic.cold_mul (R := Float)
  base_div := MachineReal.LawfulArithmetic.base_div (R := Float)

end Tabulated

def tabulatedConfig : Config Tabulated where
  budget := 2
  temperature := .real MachineReal.one
  family := .exponential
  seed := none
  strategy := .breakWeighted
  offset := .int 1
  scope := .all
  reportInterval := 0
  verify := .bool true
  budget_pos := Nat.zero_lt_two
  temperature_usable := by decide +kernel
  offset_usable := by decide +kernel

section
variable {R : Type} [MachineReal R] {F : Formula} {c : Config R} {G : Type} [Source G]

open MachineReal

theorem Config.numbers_of_lawful [LawfulArithmetic R] (hexp : ∀ x : R, IsCold x → IsNumber (exp x))
    (hpow : ∀ x y : R, IsBase x → IsCold y → IsNumber (pow x y)) (c : Config R) : c.Numbers :=
  fun _ _ hx => Weighting.number_weight hexp hpow c.temperature_usable c.offset_usable hx

/-- A search on a formula with no clause too wide to list its combinations, under a configuration of
which no weight is out of range, fails only for want of draws: neither a start, nor a step of any
search that comes of one, nor a restart fails but when the source it leaves refused a draw. -/
theorem Config.fails_only_dry [LawfulArithmetic R] (hexp : ∀ x : R, IsCold x → IsNumber (exp x))
    (hpow : ∀ x y : R, IsBase x → IsCold y → IsNumber (pow x y)) (hc : c.Weighs F) (hlists : c.Lists F) :
    (∀ (A : Option Assignment) (g : G), (∀ B ∈ A, B.numVars = F.numVars) →
      ∀ e g', Walk.start F c A g = .error e g' → e = .outOfDraws ∧ Source.Dry g') ∧
    ∀ (w : Walk F c) (g : G), Reached (w, g) →
      (∀ e s, Walk.step (w, g) = .error e s → e = .outOfDraws ∧ Source.Dry s.2) ∧
      ∀ A : Option Assignment, (∀ B ∈ A, B.numVars = F.numVars) →
        ∀ e s, Walk.restart A (w, g) = .error e s → e = .outOfDraws ∧ Source.Dry s.2 := by
  have hnumbers : c.Numbers := c.numbers_of_lawful hexp hpow
  constructor
  · intro A g hA
    exact Walk.dryOnly_start hc hA g
  · intro w g h
    constructor
    · exact Walk.dryOnly_step hc hlists hnumbers h.exact (h.serves hc)
    · intro A hA
      exact Walk.dryOnly_restart hA w g

end

theorem Config.fails_only_dry_chain :
    tabulatedConfig.Weighs chainFormula ∧ tabulatedConfig.Lists chainFormula ∧
    ∃ (w : Walk chainFormula tabulatedConfig) (s : Walk chainFormula tabulatedConfig × Script),
      Reached (w, (⟨[0]⟩ : Script)) ∧ Walk.step (w, (⟨[0]⟩ : Script)) = .error .outOfDraws s ∧
      Source.Dry s.2 := by
  have hc : tabulatedConfig.Weighs chainFormula := .inr (by decide +kernel)
  have hlists : tabulatedConfig.Lists chainFormula := by
    intro _
    decide +kernel
  obtain ⟨w, h, hfail⟩ : ∃ w : Walk chainFormula tabulatedConfig, Reached (w, (⟨[0]⟩ : Script)) ∧
      (match Walk.step (w, (⟨[0]⟩ : Script)) with | .ok .. => false | .error .. => true) = true :=
    ⟨_, .start (A := some (.ofList [false, false, false])) (g := ⟨[0]⟩) rfl, by decide +kernel⟩
  have hexp (x : Tabulated) (_ : MachineReal.IsCold x) : MachineReal.IsNumber (MachineReal.exp x) :=
    Tabulated.number_exp x
  have hpow (x y : Tabulated) (_ : MachineReal.IsBase x) (_ : MachineReal.IsCold y) :
      MachineReal.IsNumber (MachineReal.pow x y) := Tabulated.number_pow x y
  obtain ⟨hstep, -⟩ := (Config.fails_only_dry hexp hpow hc hlists).2 w (⟨[0]⟩ : Script) h
  cases hresult : Walk.step (w, (⟨[0]⟩ : Script)) with
  | ok b s =>
    rw [hresult] at hfail
    cases hfail
  | error e s =>
    obtain ⟨rfl, hdry⟩ := hstep e s hresult
    exact ⟨hc, hlists, w, s, h, hresult, hdry⟩

theorem Reached.fails_of_wide : ∃ (w s : Walk wideFormula evenConfig),
    Reached (w, (⟨[0, 0]⟩ : Script)) ∧
    Walk.step (w, (⟨[0, 0]⟩ : Script)) = .error .tooLarge (s, ⟨[0]⟩) ∧
    ¬ Source.Dry (⟨[0]⟩ : Script) := by
  have hc : evenConfig.Weighs wideFormula := .inr fun b _ => rfl
  obtain ⟨t, ht, -⟩ := Walk.startTable_ok hc
  have hrecord : wideState.unsatisfied.toList = [0] := by decide +kernel
  obtain ⟨hu, hpick⟩ := PickSet.pick_first hrecord [0]
  have h := Reached.start (Walk.start_of ht (s := wideState) rfl (⟨[0, 0]⟩ : Script))
  refine ⟨_, _, h, Walk.step_wide rfl rfl hu hpick rfl ?_, Script.not_dry 0 []⟩
  decide +kernel

end SatWalk
