import SatWalk.Proofs.Record

namespace SatWalk

namespace Assignment

def slotOf (n : Nat) (i : Int) : Nat := (if i < 0 then n + 1 + i else i).toNat

def Names (n : Nat) (i : Int) : Prop := -(n + 1 : Int) ≤ i ∧ i ≤ n

instance (n : Nat) (i : Int) : Decidable (Names n i) :=
  inferInstanceAs (Decidable (-(n + 1 : Int) ≤ i ∧ i ≤ n))

variable {n : Nat} {i : Int} {A : Assignment}

theorem position?_slotOf (h : Names n i) :
    (position? (n + 1) i).map Fin.val = some (slotOf n i) := by
  obtain ⟨hlow, hhigh⟩ := h
  unfold position? slotOf
  by_cases hi : i < 0
  · have hpos : 0 ≤ i + ((n + 1 : Nat) : Int) ∧ i + ((n + 1 : Nat) : Int) < (n + 1 : Nat) := by omega
    simp only [if_pos hi, dif_pos hpos, Option.map_some, Option.some.injEq]
    omega
  · have hpos : 0 ≤ i ∧ i < (n + 1 : Nat) := by omega
    simp only [if_neg hi, dif_pos hpos, Option.map_some]

theorem position?_eq_none (h : ¬ Names n i) : position? (n + 1) i = none := by
  rw [← Option.not_isSome_iff_eq_none, position?_isSome]
  unfold Names at h
  omega

theorem getElem?_toggled (ps : List Nat) (p : Nat) :
    (A.toggled ps).slots[p]? = A.slots[p]?.map (· ^^ decide (ps.count p % 2 = 1)) :=
  Array.getElem?_mapIdx

theorem toggleAll_error (hA : A.numVars = n) {is : List Int} (h : ¬ ∀ i ∈ is, Names n i) :
    toggleAll is A =
      .error .noSuchPosition (A.toggled ((is.takeWhile fun i => Names n i).map (slotOf n))) := by
  induction is generalizing A with
  | nil => exact absurd (List.forall_mem_nil _) h
  | cons i is ih =>
    have hsize : A.slots.size = n + 1 := by
      have := A.slots_pos
      simp only [numVars] at hA
      omega
    by_cases hi : Names n i
    · have htoggle : A.toggle? i = some (A.toggled [slotOf n i]) := by
        apply toggle?_eq
        rw [hsize]
        exact position?_slotOf hi
      have hrest : ¬ ∀ j ∈ is, Names n j := fun hall => h (List.forall_mem_cons.2 ⟨hi, hall⟩)
      have hnum : (A.toggled [slotOf n i]).numVars = n := by
        rw [numVars, size_toggled]
        exact hA
      simp only [toggleAll, toggle, bind, EStateM.bind, htoggle, ih hnum hrest, toggled_toggled,
        List.takeWhile_cons, decide_eq_true hi, if_true, List.map_cons, List.singleton_append]
    · have htoggle : A.toggle? i = none := Option.map_eq_none_iff.2 (hsize ▸ position?_eq_none hi)
      simp only [toggleAll, toggle, bind, EStateM.bind, htoggle, List.takeWhile_cons, decide_eq_false hi,
        Bool.false_eq_true, if_false, List.map_nil, toggled_nil]

end Assignment

def Clause.mentions (vs : List Var) (c : Clause) : Bool := c.any fun l => decide (l.natAbs ∈ vs)

theorem Clause.mentions_iff {vs : List Var} {c : Clause} :
    c.mentions vs = true ↔ ∃ v ∈ vs, v ∈ distinctVars c := by
  simp only [mentions, List.any_eq_true, decide_eq_true_eq, mem_distinctVars]
  constructor
  · rintro ⟨l, hl, hv⟩
    exact ⟨_, hv, l, hl, rfl⟩
  · rintro ⟨_, hv, l, hl, rfl⟩
    exact ⟨l, hl, hv⟩

theorem Formula.mem_touched_iff {F : Formula} {vs : List Var} {id : Nat} {c : Clause}
    (hc : F.clauses[id]? = some c) : id ∈ F.touched vs ↔ c.mentions vs = true := by
  rw [mem_touched, Clause.mentions_iff]
  constructor
  · rintro ⟨d, hd, hv⟩
    exact Option.some.inj (hd.symm.trans hc) ▸ hv
  · intro hv
    exact ⟨c, hc, hv⟩

namespace State

variable {F : Formula} {s s' : State F}

theorem recorded_eq_true {s : State F} {a : Int} : s.recorded a = true ↔ a ∉ s.unsatisfied := by
  rw [recorded, Bool.not_eq_true', ← Bool.not_eq_true]
  exact Iff.rfl

structure Flipped (vs : List Var) (s s' : State F) : Prop where
  assignment_eq : s'.assignment = s.assignment.toggled vs
  anew : ∀ (id : Nat) (c : Clause), F.clauses[id]? = some c → c.mentions vs = true →
    ((id : Int) ∈ s'.unsatisfied ↔ c.holds s'.assignment = false)
  kept : ∀ a : Int, (∀ (id : Nat) (c : Clause), F.clauses[id]? = some c → c.mentions vs = true → a ≠ id) →
    (a ∈ s'.unsatisfied ↔ a ∈ s.unsatisfied)

theorem flip_flipped {is : List Int} (h : ∀ i ∈ is, Assignment.Names F.numVars i) (s : State F) :
    ∃ s', flip is s = .ok () s' ∧ Flipped (is.map (Assignment.slotOf F.numVars)) s s' := by
  have hslots : is.map (fun i => (position? (F.numVars + 1) i).map Fin.val) =
      (is.map (Assignment.slotOf F.numVars)).map some := by
    rw [List.map_map]
    apply List.map_congr_left
    intro i hi
    exact Assignment.position?_slotOf (h i hi)
  obtain ⟨s', hflip, hA, hmem⟩ := flip_ok (s := s) hslots
  refine ⟨s', hflip, hA, ?_, ?_⟩
  · intro id c hc hm
    have htouched := exists_natCast_eq.2 ((Formula.mem_touched_iff hc).2 hm)
    rw [hmem id, if_pos htouched, exists_natCast_eq, Formula.mem_falseClauses_iff hc]
  · intro a ha
    have huntouched : ¬ ∃ id ∈ F.touched (is.map (Assignment.slotOf F.numVars)), a = (id : Int) := by
      rintro ⟨id, hid, he⟩
      obtain ⟨c, hc, -⟩ := Formula.mem_touched.1 hid
      exact ha id c hc ((Formula.mem_touched_iff hc).1 hid) he
    rw [hmem a, if_neg huntouched]

theorem Flipped.recorded_eq {vs : List Var} (h : Flipped vs s s') {id : Nat} {c : Clause}
    (hc : F.clauses[id]? = some c) :
    s'.recorded id = if c.mentions vs then c.holds s'.assignment else s.recorded id := by
  rw [Bool.eq_iff_iff, recorded_eq_true]
  split
  · next hm => rw [h.anew id c hc hm, Bool.not_eq_false]
  · next hm =>
    rw [recorded_eq_true, not_iff_not]
    apply h.kept
    intro j d hd hm' he
    obtain rfl : id = j := Int.ofNat.inj he
    cases hc.symm.trans hd
    exact hm hm'

theorem Flipped.holds_eq {vs : List Var} (h : Flipped vs s s') {id : Nat} {c : Clause}
    (hc : F.clauses[id]? = some c) (hm : c.mentions vs = false) :
    c.holds s'.assignment = c.holds s.assignment := by
  rw [h.assignment_eq]
  apply Clause.holds_toggled (fun l hl => natAbs_le hc hl)
  intro v hv hvc
  cases hm.symm.trans (Clause.mentions_iff.2 ⟨v, hv, hvc⟩)

theorem wrongFrom_filter {p : Nat → Bool} {i : Nat} {cs : List Clause}
    (h : ∀ j c, cs[j]? = some c → (c.holds s'.assignment ≠ s'.recorded (i + j : Nat) ↔
      c.holds s.assignment ≠ s.recorded (i + j : Nat) ∧ p (i + j) = true)) :
    s'.wrongFrom i cs = (s.wrongFrom i cs).filter p := by
  induction cs generalizing i with
  | nil => rfl
  | cons c cs ih =>
    have hrest : s'.wrongFrom (i + 1) cs = (s.wrongFrom (i + 1) cs).filter p := by
      apply ih
      intro j d hd
      rw [Nat.add_assoc, Nat.add_comm 1 j]
      exact h (j + 1) d hd
    have hhead := h 0 c rfl
    rw [Nat.add_zero] at hhead
    rw [wrongFrom, wrongFrom, hrest]
    by_cases hc : c.holds s.assignment = s.recorded i
    · have hright : c.holds s'.assignment = s'.recorded i := by
        by_contra hwrong
        exact (hhead.1 hwrong).1 hc
      rw [if_pos hc, if_pos hright]
    · rw [if_neg hc, List.filter_cons]
      by_cases hp : p i = true
      · rw [if_neg (hhead.2 ⟨hc, hp⟩), if_pos hp]
      · have hright : c.holds s'.assignment = s'.recorded i := by
          by_contra hwrong
          exact hp (hhead.1 hwrong).2
        rw [if_pos hright, if_neg hp]

theorem Flipped.inconsistencies_eq {vs : List Var} (h : Flipped vs s s') :
    s'.inconsistencies = s.inconsistencies.filter fun id => !(F.clauses.getD id []).mentions vs := by
  -- A clause with a toggled variable has a right record now, any other one is as wrong as it was.
  apply wrongFrom_filter
  intro id c hc
  rw [Array.getElem?_toList] at hc
  rw [Nat.zero_add, Formula.getD_clauses hc, h.recorded_eq hc]
  cases hm : c.mentions vs with
  | true => simp
  | false => simp [h.holds_eq hc hm]

/-- A flip of entries that all name a slot negates every slot as often as it is named and records
anew the clauses with one of the named variables, on which no record is wrong then; no other record
changes. A flip that meets an entry that names none has negated the slots before it, and fails. -/
theorem flip_effect (is : List Int) (s : State F) :
    if ∀ i ∈ is, Assignment.Names F.numVars i then
      ∃ s' vs, flip is s = .ok () s' ∧ vs = is.map (Assignment.slotOf F.numVars) ∧
        (∀ p : Nat, s'.assignment.slots[p]? =
          s.assignment.slots[p]?.map (· ^^ decide (vs.count p % 2 = 1))) ∧
        (∀ (id : Nat) (c : Clause), F.clauses[id]? = some c → c.mentions vs = true →
          ((id : Int) ∈ s'.unsatisfied ↔ c.holds s'.assignment = false)) ∧
        (∀ a : Int, (∀ (id : Nat) (c : Clause), F.clauses[id]? = some c → c.mentions vs = true → a ≠ id) →
          (a ∈ s'.unsatisfied ↔ a ∈ s.unsatisfied)) ∧
        s'.inconsistencies = s.inconsistencies.filter fun id => !(F.clauses.getD id []).mentions vs
    else
      ∃ s' vs, flip is s = .error .noSuchPosition s' ∧
        vs = (is.takeWhile fun i => Assignment.Names F.numVars i).map (Assignment.slotOf F.numVars) ∧
        s'.unsatisfied = s.unsatisfied ∧
        ∀ p : Nat, s'.assignment.slots[p]? =
          s.assignment.slots[p]?.map (· ^^ decide (vs.count p % 2 = 1)) := by
  split
  · next hall =>
    obtain ⟨s', hflip, hs'⟩ := flip_flipped hall s
    refine ⟨s', _, hflip, rfl, ?_, hs'.anew, hs'.kept, hs'.inconsistencies_eq⟩
    intro p
    rw [hs'.assignment_eq, Assignment.getElem?_toggled]
  · next hsome =>
    have htoggle := Assignment.toggleAll_error s.fits hsome
    unfold flip
    split
    · next e A he =>
      cases htoggle.symm.trans he
      exact ⟨_, _, rfl, rfl, rfl, Assignment.getElem?_toggled _⟩
    · next A hA => cases htoggle.symm.trans hA

end State

end SatWalk
