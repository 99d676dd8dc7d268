import Mathlib.Data.Set.Function
import SatWalk.Proofs.Faults

/-!
Fair coins for the variables of a clause that does not hold. One vector of coins alone is rejected, the
present values, and the others stand for the combinations that are not empty, one for each. So what is
chosen is decided by the first block of coins that differs from the present values.
-/

namespace SatWalk

namespace Repair

variable {A : Assignment} {c : Clause} {vars : List Var} {coins coins' : List Bool}

def present (A : Assignment) (vars : List Var) : List Bool := vars.map fun v : Nat => A.truth v

theorem length_present (A : Assignment) (vars : List Var) : (present A vars).length = vars.length :=
  List.length_map _

theorem exists_lookup_zip (hlen : coins.length = vars.length) {v : Var} (hv : v ∈ vars) :
    ∃ b, (vars.zip coins).lookup v = some b := by
  rw [← List.map_fst_zip (Nat.le_of_eq hlen.symm)] at hv
  obtain ⟨e, he, rfl⟩ := List.mem_map.1 hv
  exact Option.isSome_iff_exists.1 (List.lookup_isSome_iff.2 ⟨e, he, beq_self_eq_true e.1⟩)

theorem lookup_zip_iff (hvars : vars.Nodup) (hlen : coins.length = vars.length) (f : Var → Bool) :
    (∀ v ∈ vars, (vars.zip coins).lookup v = some (f v)) ↔ coins = vars.map f := by
  induction vars generalizing coins with
  | nil =>
    rw [List.length_eq_zero_iff.1 hlen]
    simp
  | cons v vars ih =>
    obtain ⟨b, coins, rfl⟩ := List.exists_cons_of_length_eq_add_one hlen
    obtain ⟨hv, hrest⟩ := List.nodup_cons.1 hvars
    have hskip : ∀ u ∈ vars, ((v :: vars).zip (b :: coins)).lookup u = (vars.zip coins).lookup u := by
      intro u hu
      have hne : (u == v) = false := beq_false_of_ne fun h => hv (h ▸ hu)
      rw [List.zip_cons_cons, List.lookup_cons, hne]
    have hfirst : ((v :: vars).zip (b :: coins)).lookup v = some b := by
      rw [List.zip_cons_cons, List.lookup_cons_self]
    rw [List.forall_mem_cons, hfirst, Option.some.injEq, List.map_cons, List.cons.injEq,
      ← ih hrest (Nat.succ.inj hlen)]
    apply and_congr_right
    intro _
    exact forall₂_congr fun u hu => by rw [hskip u hu]

theorem accepts_eq_false_iff (hc : ∀ l ∈ c, l ≠ 0) (hf : c.holds A = false)
    (hlen : coins.length = (distinctVars c).length) :
    accepts ((distinctVars c).zip coins) c = false ↔ coins = present A (distinctVars c) := by
  have hliteral : ∀ l ∈ c, (¬ (((distinctVars c).zip coins).lookup l.natAbs ==
      some (decide (0 < l))) = true) ↔
        ((distinctVars c).zip coins).lookup l.natAbs = some (A.truth (l.natAbs : Int)) := by
    intro l hl
    obtain ⟨b, hb⟩ := exists_lookup_zip hlen (mem_distinctVars.2 ⟨l, hl, rfl⟩)
    rw [hb, Assignment.truth_natAbs (hc l hl), Clause.not_holds_iff.1 hf l hl]
    cases b <;> cases decide (0 < l) <;> decide
  rw [present, ← lookup_zip_iff (nodup_distinctVars c) hlen, accepts, List.any_eq_false]
  constructor
  · intro h v hv
    obtain ⟨l, hl, rfl⟩ := mem_distinctVars.1 hv
    exact (hliteral l hl).1 (h l hl)
  · intro h l hl
    exact (hliteral l hl).2 (h l.natAbs (mem_distinctVars.2 ⟨l, hl, rfl⟩))

theorem testBit_difference (hlen : coins.length = vars.length) (j : Nat) :
    (difference A (vars.zip coins)).testBit j = true ↔ coins[j]? ≠ (present A vars)[j]? := by
  induction vars generalizing coins j with
  | nil =>
    rw [List.length_eq_zero_iff.1 hlen]
    simp [difference, present]
  | cons v vars ih =>
    obtain ⟨b, coins, rfl⟩ := List.exists_cons_of_length_eq_add_one hlen
    rw [List.zip_cons_cons, difference]
    cases j with
    | zero =>
      rw [Nat.testBit_zero, decide_eq_true_eq]
      simp only [present, List.map_cons, List.getElem?_cons_zero, ne_eq, Option.some.injEq]
      split
      · next h => simp [h]
      · next h => simp [Ne.symm h]
    | succ j =>
      have hhalf : ((if A.truth v = b then 0 else 1) + 2 * difference A (vars.zip coins)) / 2 =
          difference A (vars.zip coins) := by
        split <;> omega
      rw [Nat.testBit_succ, hhalf, ih (Nat.succ.inj hlen)]
      rfl

theorem difference_inj (hlen : coins.length = vars.length) (hlen' : coins'.length = vars.length)
    (h : difference A (vars.zip coins) = difference A (vars.zip coins')) : coins = coins' := by
  apply List.ext_getElem (hlen.trans hlen'.symm)
  intro j hj hj'
  have hpresent : j < (present A vars).length := by rwa [length_present, ← hlen]
  have hsame : ∀ a b now : Bool, (some a ≠ some now ↔ some b ≠ some now) → b = a := by decide
  have hbit := testBit_difference (A := A) hlen j
  rw [h, testBit_difference hlen' j, List.getElem?_eq_getElem hj, List.getElem?_eq_getElem hj',
    List.getElem?_eq_getElem hpresent] at hbit
  exact hsame _ _ _ hbit

theorem difference_eq_zero_iff (hlen : coins.length = vars.length) :
    difference A (vars.zip coins) = 0 ↔ coins = present A vars := by
  constructor
  · intro h
    apply List.ext_getElem?
    intro j
    by_contra hne
    have hbit := (testBit_difference hlen j).2 hne
    rw [h, Nat.zero_testBit] at hbit
    cases hbit
  · intro h
    apply Nat.eq_of_testBit_eq
    intro j
    rw [Nat.zero_testBit, ← Bool.not_eq_true, testBit_difference hlen j, h]
    exact fun hne => hne rfl

theorem exists_difference {n : Nat} (hn : n < 2 ^ vars.length) :
    ∃ coins, coins.length = vars.length ∧ difference A (vars.zip coins) = n := by
  induction vars generalizing n with
  | nil =>
    rw [List.length_nil] at hn
    exact ⟨[], rfl, by rw [List.zip_nil_left, difference]; omega⟩
  | cons v vars ih =>
    rw [List.length_cons, Nat.pow_succ] at hn
    obtain ⟨coins, hlen, hd⟩ := ih (n := n / 2) (by omega)
    -- the coin of the first variable differs from its value when the lowest bit is set
    have hlow : (if A.truth v = (A.truth v != decide (n % 2 = 1)) then 0 else 1) = n % 2 := by
      rcases Nat.mod_two_eq_zero_or_one n with h | h <;> simp [h]
    refine ⟨(A.truth v != decide (n % 2 = 1)) :: coins, congrArg (· + 1) hlen, ?_⟩
    rw [List.zip_cons_cons, difference, hd, hlow]
    omega

theorem bijOn_difference (A : Assignment) (vars : List Var) :
    Set.BijOn (fun coins => difference A (vars.zip coins))
      {coins | coins.length = vars.length ∧ coins ≠ present A vars}
      (Set.Icc 1 (2 ^ vars.length - 1)) := by
  refine ⟨?_, ?_, ?_⟩
  · rintro coins ⟨hlen, hne⟩
    have hpos : difference A (vars.zip coins) ≠ 0 := fun h => hne ((difference_eq_zero_iff hlen).1 h)
    have hlt := difference_lt A (vars.zip coins)
    rw [List.length_zip, hlen, Nat.min_self] at hlt
    exact ⟨Nat.one_le_iff_ne_zero.2 hpos, Nat.le_sub_one_of_lt hlt⟩
  · rintro coins ⟨hlen, -⟩ coins' ⟨hlen', -⟩ h
    exact difference_inj hlen hlen' h
  · rintro n ⟨hpos, hle⟩
    have htwo := Nat.two_pow_pos vars.length
    have hlt : n < 2 ^ vars.length := by omega
    obtain ⟨coins, hlen, hd⟩ := exists_difference (A := A) hlt
    refine ⟨coins, ⟨hlen, ?_⟩, hd⟩
    intro h
    have := (difference_eq_zero_iff hlen).2 h
    omega

end Repair

section
variable {G : Type} [Source G] {g g' : G}

theorem drawCoins_add (m n : Nat) : (drawCoins (m + n) : Attempt G (List Bool)) = do
    let before ← drawCoins m
    let after ← drawCoins n
    return before ++ after := by
  induction m with
  | zero => simp [drawCoins]
  | succ m ih =>
    rw [Nat.succ_add, drawCoins, ih, drawCoins]
    simp

theorem drawCoins_add_ok {m n : Nat} {coins : List Bool} : drawCoins (m + n) g = .ok coins g' ↔
    ∃ before g₁ after, drawCoins m g = .ok before g₁ ∧ drawCoins n g₁ = .ok after g' ∧
      coins = before ++ after := by
  rw [drawCoins_add]
  constructor
  · intro h
    obtain ⟨before, g₁, hbefore, h₁⟩ := bind_ok h
    obtain ⟨after, g₂, hafter, h₂⟩ := bind_ok h₁
    cases h₂
    exact ⟨before, g₁, after, hbefore, hafter, rfl⟩
  · rintro ⟨before, g₁, after, hbefore, hafter, rfl⟩
    simp only [bind, EStateM.bind, hbefore, hafter]
    rfl

end

namespace Repair

variable {G : Type} [Source G] {g g' g₁ : G} {A : Assignment} {c : Clause}

def Redrawn (A : Assignment) (vars : List Var) (m : Nat) (g g₁ : G) : Prop :=
  drawCoins (m * vars.length) g = .ok (List.replicate m (present A vars)).flatten g₁

theorem redrawn_succ {vars : List Var} {m : Nat} : Redrawn A vars (m + 1) g g₁ ↔
    ∃ g₂, drawCoins vars.length g = .ok (present A vars) g₂ ∧ Redrawn A vars m g₂ g₁ := by
  rw [Redrawn, Nat.succ_mul, Nat.add_comm, List.replicate_succ, List.flatten_cons, drawCoins_add_ok]
  constructor
  · rintro ⟨before, g₂, after, hbefore, hafter, happend⟩
    have hlen : (present A vars).length = before.length := by rw [length_drawCoins hbefore, length_present]
    obtain ⟨rfl, rfl⟩ := List.append_inj happend hlen
    exact ⟨g₂, hbefore, hafter⟩
  · rintro ⟨g₂, hfirst, hrest⟩
    exact ⟨_, g₂, _, hfirst, hrest, rfl⟩

theorem redrawn_append {vars : List Var} {m : Nat} {coins : List Bool} :
    drawCoins ((m + 1) * vars.length) g =
        .ok ((List.replicate m (present A vars)).flatten ++ coins) g' ↔
      ∃ g₁, Redrawn A vars m g g₁ ∧ drawCoins vars.length g₁ = .ok coins g' := by
  rw [Nat.succ_mul, drawCoins_add_ok]
  constructor
  · rintro ⟨before, g₁, after, hbefore, hafter, happend⟩
    have hlen : (List.replicate m (present A vars)).flatten.length = before.length := by
      rw [length_drawCoins hbefore, List.length_flatten, List.map_replicate, List.sum_replicate_nat,
        length_present]
    obtain ⟨rfl, rfl⟩ := List.append_inj happend hlen
    exact ⟨g₁, hbefore, hafter⟩
  · rintro ⟨g₁, hredrawn, hlast⟩
    exact ⟨_, g₁, coins, hredrawn, hlast, rfl⟩

theorem values_attempt (hne : c ≠ []) (hc : ∀ l ∈ c, l ≠ 0) (hf : c.holds A = false) (g : G) :
    values (distinctVars c) c g = match drawCoins (distinctVars c).length g with
      | .error e g' => .error e g'
      | .ok coins g' =>
        if coins = present A (distinctVars c) then values (distinctVars c) c g'
        else .ok ((distinctVars c).zip coins) g' := by
  rw [values_eq, if_neg (distinctVars_ne_nil hne)]
  cases hd : drawCoins (distinctVars c).length g with
  | error e g' => rfl
  | ok coins g' =>
    have haccepts := accepts_eq_false_iff hc hf (length_drawCoins hd)
    simp only
    by_cases h : coins = present A (distinctVars c)
    · rw [if_pos h, haccepts.2 h, if_neg Bool.false_ne_true]
    · rw [if_neg h, if_pos (Bool.eq_true_of_not_eq_false (mt haccepts.1 h))]

theorem values_redrawn (hne : c ≠ []) (hc : ∀ l ∈ c, l ≠ 0) (hf : c.holds A = false) {m : Nat}
    (h : Redrawn A (distinctVars c) m g g₁) : values (distinctVars c) c g = values (distinctVars c) c g₁ := by
  induction m generalizing g with
  | zero =>
    rw [Redrawn, Nat.zero_mul] at h
    cases h
    rfl
  | succ m ih =>
    obtain ⟨g₂, hfirst, hrest⟩ := redrawn_succ.1 h
    rw [values_attempt hne hc hf, hfirst]
    simp only [if_true]
    exact ih hrest

theorem exists_redrawn (hne : c ≠ []) (hc : ∀ l ∈ c, l ≠ 0) (hf : c.holds A = false) (g : G) :
    ∃ m g₁, Redrawn A (distinctVars c) m g g₁ ∧ ∀ coins g',
      drawCoins (distinctVars c).length g₁ = .ok coins g' → coins ≠ present A (distinctVars c) := by
  fun_induction values (distinctVars c) c g with
  | case1 g hv => exact absurd hv (distinctVars_ne_nil hne)
  | case2 g hv e g' hd =>
    refine ⟨0, g, by rw [Redrawn, Nat.zero_mul]; rfl, ?_⟩
    intro coins g₁ h
    rw [hd] at h
    cases h
  | case3 g hv coins g' hd haccepts =>
    refine ⟨0, g, by rw [Redrawn, Nat.zero_mul]; rfl, ?_⟩
    intro coins' g₁ h hnow
    cases hd.symm.trans h
    rw [(accepts_eq_false_iff hc hf (length_drawCoins hd)).2 hnow] at haccepts
    cases haccepts
  | case4 g hv coins g' hd haccepts ih =>
    obtain rfl := (accepts_eq_false_iff hc hf (length_drawCoins hd)).1 (Bool.eq_false_of_not_eq_true haccepts)
    obtain ⟨m, g₁, hrest, hlast⟩ := ih
    exact ⟨m + 1, g₁, redrawn_succ.2 ⟨g', hd, hrest⟩, hlast⟩

theorem values_ok_iff (hne : c ≠ []) (hc : ∀ l ∈ c, l ≠ 0) (hf : c.holds A = false)
    {drawn : List (Var × Bool)} : values (distinctVars c) c g = .ok drawn g' ↔
      ∃ m g₁ coins, Redrawn A (distinctVars c) m g g₁ ∧ coins ≠ present A (distinctVars c) ∧
        drawCoins (distinctVars c).length g₁ = .ok coins g' ∧ drawn = (distinctVars c).zip coins := by
  constructor
  · intro h
    obtain ⟨m, g₁, hredrawn, hlast⟩ := exists_redrawn hne hc hf g
    rw [values_redrawn hne hc hf hredrawn, values_attempt hne hc hf] at h
    cases hd : drawCoins (distinctVars c).length g₁ with
    | error e g₂ =>
      rw [hd] at h
      cases h
    | ok coins g₂ =>
      have hother := hlast coins g₂ hd
      simp only [hd, if_neg hother] at h
      cases h
      exact ⟨m, g₁, coins, hredrawn, hother, hd, rfl⟩
  · rintro ⟨m, g₁, coins, hredrawn, hother, hd, rfl⟩
    rw [values_redrawn hne hc hf hredrawn, values_attempt hne hc hf]
    simp only [hd, if_neg hother]

theorem values_error_iff (hne : c ≠ []) (hc : ∀ l ∈ c, l ≠ 0) (hf : c.holds A = false) {e : Fault} :
    values (distinctVars c) c g = .error e g' ↔
      ∃ m g₁, Redrawn A (distinctVars c) m g g₁ ∧
        drawCoins (distinctVars c).length g₁ = .error e g' := by
  constructor
  · intro h
    obtain ⟨m, g₁, hredrawn, hlast⟩ := exists_redrawn hne hc hf g
    rw [values_redrawn hne hc hf hredrawn, values_attempt hne hc hf] at h
    cases hd : drawCoins (distinctVars c).length g₁ with
    | error e' g₂ =>
      rw [hd] at h
      cases h
      exact ⟨m, g₁, hredrawn, hd⟩
    | ok coins g₂ =>
      simp only [hd, if_neg (hlast coins g₂ hd)] at h
      cases h
  · rintro ⟨m, g₁, hredrawn, hd⟩
    rw [values_redrawn hne hc hf hredrawn, values_attempt hne hc hf, hd]

end Repair

namespace Sampler

variable {F : Formula} {G : Type} [Source G] {g g' : G} {s : State F} {c : Clause}

theorem uniformRepair_ok_iff {choice : FlipChoice Var} : uniformRepair s c g = .ok choice g' ↔
    ∃ drawn, Repair.values (distinctVars c) c g = .ok drawn g' ∧
      choice = .of (distinctVars c) (Repair.difference s.assignment drawn) := by
  constructor
  · intro h
    obtain ⟨drawn, g₁, hvalues, h₁⟩ := bind_ok h
    cases h₁
    exact ⟨drawn, hvalues, rfl⟩
  · rintro ⟨drawn, hvalues, rfl⟩
    simp only [uniformRepair, bind, EStateM.bind, hvalues]
    rfl

theorem uniformRepair_error_iff {e : Fault} : uniformRepair s c g = .error e g' ↔
    Repair.values (distinctVars c) c g = .error e g' := by
  constructor
  · intro h
    obtain hvalues | ⟨drawn, g₁, -, h₁⟩ := bind_error h
    · exact hvalues
    · cases h₁
  · intro hvalues
    simp only [uniformRepair, bind, EStateM.bind, hvalues]

/-- Fair coins for a clause that does not hold are drawn again while they are the present values, and
only then. The first that are not decide the choice, as one of the combinations that are not empty;
each of these has its own coins. -/
theorem uniformRepair_first_block (s : State F) (i : Fin F.clauses.size)
    (hf : (F.clauseAt i).holds s.assignment = false) :
    let vars := distinctVars (F.clauseAt i)
    let now := Repair.present s.assignment vars
    (∀ coins, coins.length = vars.length →
      (Repair.accepts (vars.zip coins) (F.clauseAt i) = false ↔ coins = now)) ∧
    Set.BijOn (fun coins => Repair.difference s.assignment (vars.zip coins))
      {coins | coins.length = vars.length ∧ coins ≠ now} (Set.Icc 1 (2 ^ vars.length - 1)) ∧
    ∀ g : G,
      (∀ choice g', uniformRepair s (F.clauseAt i) g = .ok choice g' ↔ ∃ m coins, coins ≠ now ∧
        drawCoins ((m + 1) * vars.length) g = .ok ((List.replicate m now).flatten ++ coins) g' ∧
        choice = .of vars (Repair.difference s.assignment (vars.zip coins))) ∧
      (∀ e g', uniformRepair s (F.clauseAt i) g = .error e g' ↔ ∃ m g₁,
        drawCoins (m * vars.length) g = .ok (List.replicate m now).flatten g₁ ∧
        drawCoins vars.length g₁ = .error e g') := by
  intro vars now
  have hclause : F.clauseAt i ∈ F.clauses.toList := Formula.mem_clauses (Formula.getElem?_clauseAt i)
  have hne := F.ne_nil _ hclause
  have hc := F.ne_zero _ hclause
  refine ⟨fun coins => Repair.accepts_eq_false_iff hc hf, Repair.bijOn_difference _ _, ?_⟩
  intro g
  constructor
  · intro choice g'
    rw [uniformRepair_ok_iff]
    constructor
    · rintro ⟨drawn, hvalues, rfl⟩
      obtain ⟨m, g₁, coins, hredrawn, hother, hd, rfl⟩ := (Repair.values_ok_iff hne hc hf).1 hvalues
      exact ⟨m, coins, hother, Repair.redrawn_append.2 ⟨g₁, hredrawn, hd⟩, rfl⟩
    · rintro ⟨m, coins, hother, hd, rfl⟩
      obtain ⟨g₁, hredrawn, hlast⟩ := Repair.redrawn_append.1 hd
      exact ⟨_, (Repair.values_ok_iff hne hc hf).2 ⟨m, g₁, coins, hredrawn, hother, hlast, rfl⟩, rfl⟩
  · intro e g'
    rw [uniformRepair_error_iff]
    exact Repair.values_error_iff hne hc hf

end Sampler

def redrawFormula : Formula := Formula.ofClauses 2 [[1, 1, -2]] [] (by decide) (by decide)

def redrawState : State redrawFormula where
  assignment := .ofList [false, true]
  unsatisfied := State.recordOf redrawFormula (.ofList [false, true])
  fits := rfl

theorem Sampler.uniformRepair_first_block_twice :
    (redrawFormula.clauseAt ⟨0, by decide⟩).holds redrawState.assignment = false ∧
    uniformRepair redrawState (redrawFormula.clauseAt ⟨0, by decide⟩)
      (⟨[4503599627370496, 0, 0, 0]⟩ : Script) = .ok ⟨[1], 1⟩ ⟨[]⟩ := by
  have hf : (redrawFormula.clauseAt ⟨0, by decide⟩).holds redrawState.assignment = false := by
    decide +kernel
  refine ⟨hf, ((uniformRepair_first_block redrawState _ hf).2.2 _).1 _ _ |>.2 ?_⟩
  exact ⟨1, [true, true], by decide +kernel, by rfl, by decide +kernel⟩

end SatWalk
