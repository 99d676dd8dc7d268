import Mathlib.Data.Finset.Card
import Mathlib.Data.Set.Card
import SatWalk.Proofs.Exactness

namespace SatWalk

namespace PickSet

inductive Change
  | insert (a : Int)
  | erase (a : Int)
  | clear
  | pick
deriving DecidableEq

variable {G : Type} [Source G]

def Change.after : Change → PickSet × G → PickSet × G
  | .insert a, (s, g) => (s.insert a, g)
  | .erase a, (s, g) => (s.erase a, g)
  | .clear, (_, g) => (∅, g)
  | .pick, s => leftBy (onSecond s.1.pick s)

def replay (as : List Int) (ops : List Change) (g : G) : PickSet × G :=
  ops.foldl (fun s op => op.after s) (ofList as, g)

/-- The latest mark of `a` after the last clearing is an insertion. -/
def Marked (history : List Change) (a : Int) : Prop :=
  ∃ before after, history = before ++ .insert a :: after ∧ .erase a ∉ after ∧ .clear ∉ after

theorem marked_concat {history : List Change} {op : Change} {a : Int} :
    Marked (history ++ [op]) a ↔ op = .insert a ∨ Marked history a ∧ op ≠ .erase a ∧ op ≠ .clear := by
  constructor
  · rintro ⟨before, after, he, herase, hclear⟩
    rcases List.eq_nil_or_concat after with rfl | ⟨rest, last, rfl⟩
    · obtain ⟨-, hop⟩ := List.append_inj' he rfl
      exact .inl (List.head_eq_of_cons_eq hop)
    · have hsplit : history ++ [op] = (before ++ .insert a :: rest) ++ [last] := by
        rw [he, List.concat_eq_append, List.append_assoc, List.cons_append]
      obtain ⟨hhistory, hop⟩ := List.append_inj' hsplit rfl
      obtain rfl : op = last := List.head_eq_of_cons_eq hop
      rw [List.concat_eq_append, List.mem_append, not_or, List.mem_singleton] at herase hclear
      exact .inr ⟨⟨before, rest, hhistory, herase.1, hclear.1⟩, Ne.symm herase.2, Ne.symm hclear.2⟩
  · rintro (rfl | ⟨⟨before, after, rfl, herase, hclear⟩, hop, hop'⟩)
    · exact ⟨history, [], rfl, List.not_mem_nil, List.not_mem_nil⟩
    · refine ⟨before, after ++ [op], by rw [List.append_assoc, List.cons_append], ?_, ?_⟩
      · rw [List.mem_append, List.mem_singleton, not_or]
        exact ⟨herase, Ne.symm hop⟩
      · rw [List.mem_append, List.mem_singleton, not_or]
        exact ⟨hclear, Ne.symm hop'⟩

theorem marked_map_insert {as : List Int} {a : Int} : Marked (as.map .insert) a ↔ a ∈ as := by
  constructor
  · rintro ⟨before, after, he, -⟩
    have hmem : Change.insert a ∈ as.map Change.insert := by simp [he]
    simpa using hmem
  · intro h
    obtain ⟨before, after, rfl⟩ := List.append_of_mem h
    exact ⟨before.map .insert, after.map .insert, by simp, by simp, by simp⟩

theorem replay_concat (as : List Int) (ops : List Change) (op : Change) (g : G) :
    replay as (ops ++ [op]) g = op.after (replay as ops g) := by
  rw [replay, List.foldl_append]
  rfl

theorem fst_after_pick (s : PickSet × G) : (Change.after .pick s).1 = s.1 := by
  simp only [Change.after, onSecond]
  split <;> rfl

theorem mem_replay {as : List Int} {ops : List Change} {g : G} {a : Int} :
    a ∈ (replay as ops g).1 ↔ Marked (as.map .insert ++ ops) a := by
  induction ops using List.reverseRecOn with
  | nil =>
    rw [List.append_nil, marked_map_insert]
    exact mem_ofList
  | append_singleton ops op ih =>
    rw [← List.append_assoc, marked_concat, ← ih, replay_concat]
    cases op with
    | insert b =>
      have hmem := mem_insert (s := (replay as ops g).1) (a := b) (b := a)
      simpa [Change.after, eq_comm] using hmem
    | erase b =>
      have hmem := mem_erase (s := (replay as ops g).1) (a := b) (b := a)
      simpa [Change.after, eq_comm, and_comm] using hmem
    | clear => simpa [Change.after] using not_mem_empty
    | pick =>
      rw [fst_after_pick]
      simp

theorem length_toList (s : PickSet) : s.toList.length = s.size := Array.length_toList

theorem erase_of_not_mem {s : PickSet} {a : Int} (h : a ∉ s) : s.erase a = s := by
  rw [mem_iff_places] at h
  simp only [erase]
  split
  · rfl
  · next p hp => simp [hp] at h

theorem toList_erase {s : PickSet} {a : Int} {p : Nat} (h : s.toList[p]? = some a) :
    (s.erase a).toList = (s.toList.set p (s.toList.getLastD a)).dropLast := by
  have hp : s.members[p]? = some a := by rwa [toList, Array.getElem?_toList] at h
  have hplace : s.places[a]? = some p := (s.place_iff a p).2 hp
  have hlt : p < s.members.size := (Array.getElem?_eq_some_iff.1 hp).1
  have hlast : s.toList.getLastD a = s.members[s.members.size - 1] := by
    rw [List.getLastD_eq_getLast?, List.getLast?_eq_getElem?, toList, Array.length_toList,
      Array.getElem?_toList, Array.getElem?_eq_getElem (by omega), Option.getD_some]
  rw [hlast]
  simp only [erase]
  split
  · next hnone => cases hplace.symm.trans hnone
  · next q hq =>
    obtain rfl : p = q := Option.some.inj (hplace.symm.trans hq)
    split
    -- The last member is written over itself before it is dropped.
    · next hend =>
      have hkeep : s.toList.set p s.members[s.members.size - 1] = s.toList := by
        subst hend
        exact List.set_getElem_self _
      rw [hkeep]
      exact Array.toList_pop
    · simp [toList]

theorem toList_erase_insert {s : PickSet} {a : Int} (h : a ∉ s) :
    ((s.insert a).erase a).toList = s.toList := by
  have hlist : (s.insert a).toList = s.toList ++ [a] := toList_insert_of_not_mem h
  have hplace : (s.insert a).toList[s.toList.length]? = some a := by
    rw [hlist, List.getElem?_concat_length]
  rw [toList_erase hplace, hlist]
  simp

theorem pick_eq (s : PickSet) (g : G) : s.pick g =
    if s.toList = [] then .error .pickFromEmpty g
    else match Source.below? s.size g with
      | some (k, g') => .ok (s.get k) g'
      | none => .error .outOfDraws g := by
  have hempty : s.isEmpty = true ↔ s.toList = [] := by
    rw [isEmpty, Array.isEmpty_iff, toList, Array.toList_eq_nil_iff]
  unfold pick
  by_cases hs : s.toList = []
  · rw [if_pos (hempty.2 hs), if_pos hs]
    rfl
  · have hsize : s.members.size ≠ 0 := by
      rwa [ne_eq, Array.size_eq_zero_iff, ← Array.toList_eq_nil_iff]
    rw [if_neg (hempty.not.2 hs), if_neg hs]
    simp only [bind, EStateM.bind, drawBelow, if_neg hsize, size]
    cases Source.below? s.members.size g <;> rfl

theorem get_mem (s : PickSet) (k : Fin s.size) : s.get k ∈ s := by
  rw [mem_iff, toList, Array.mem_toList_iff]
  exact Array.getElem_mem k.isLt

theorem existsUnique_get {s : PickSet} {a : Int} (h : a ∈ s) : ∃! k : Fin s.size, s.get k = a := by
  rw [mem_iff, toList, Array.mem_toList_iff] at h
  obtain ⟨i, hi, he⟩ := Array.mem_iff_getElem.1 h
  refine ⟨⟨i, hi⟩, he, ?_⟩
  intro k hk
  have hget : s.members[k.val]? = some a := by
    rw [Array.getElem?_eq_getElem k.isLt]
    exact congrArg some hk
  have hget' : s.members[i]? = some a := by rw [Array.getElem?_eq_getElem hi, he]
  exact Fin.ext (members_inj hget hget')

theorem encard_members (s : PickSet) : {a | a ∈ s}.encard = s.size := by
  have hset : {a | a ∈ s} = (s.toList.toFinset : Set Int) := by
    ext a
    rw [Set.mem_ofPred_eq, Finset.mem_coe, List.mem_toFinset, mem_iff]
  rw [hset, Set.encard_coe_eq_coe_finsetCard, List.toFinset_card_of_nodup s.nodup_toList, length_toList]

/-- Over any history of operations the set holds the numbers whose latest mark is an insertion, each
at one place, and a pick from it returns the member at the place that is drawn. -/
theorem replay_tracks_marks {as : List Int} {ops : List Change} {g g' : G} {s : PickSet}
    (h : replay as ops g = (s, g')) :
    s.toList.Nodup ∧
      (∀ (a : Int) (i : Nat), s.places[a]? = some i ↔ s.toList[i]? = some a) ∧
      (∀ a, s.contains a = true ↔ Marked (as.map .insert ++ ops) a) ∧
      {a | Marked (as.map .insert ++ ops) a}.encard = s.toList.length ∧
      (∀ a, (s.contains a = true → (s.insert a).toList = s.toList) ∧
        (s.contains a = false → (s.erase a).toList = s.toList ∧
          ((s.insert a).erase a).toList = s.toList)) ∧
      (∀ g₁ : G, s.pick g₁ =
        if s.toList = [] then .error .pickFromEmpty g₁
        else match Source.below? s.size g₁ with
          | some (k, g₂) => .ok (s.get k) g₂
          | none => .error .outOfDraws g₁) ∧
      (∀ k, s.contains (s.get k) = true) ∧
      ∀ a, s.contains a = true → ∃! k : Fin s.size, s.get k = a := by
  have hmem : ∀ a, a ∈ s ↔ Marked (as.map .insert ++ ops) a := by
    intro a
    rw [← mem_replay (g := g), h]
  refine ⟨s.nodup_toList, ?_, hmem, ?_, ?_, s.pick_eq, s.get_mem, fun a ha => existsUnique_get ha⟩
  · intro a i
    rw [s.place_iff, toList, Array.getElem?_toList]
  · simp only [← hmem, encard_members, length_toList]
  · intro a
    constructor
    · intro ha
      rw [insert_of_mem ha]
    · intro ha
      have hnot : a ∉ s := Bool.eq_false_iff.1 ha
      exact ⟨by rw [erase_of_not_mem hnot], toList_erase_insert hnot⟩

theorem replay_tracks_marks_swapped :
    (replay [5, 3, 8] [.erase 5, .insert 7, .pick, .erase 7] (⟨[4]⟩ : Script)).1.toList = [8, 3] ∧
      Marked [.insert 5, .insert 3, .insert 8, .erase 5, .insert 7, .pick, .erase 7] 8 ∧
      ¬ Marked [.insert 5, .insert 3, .insert 8, .erase 5, .insert 7, .pick, .erase 7] 5 := by
  have hrun : replay [5, 3, 8] [.erase 5, .insert 7, .pick, .erase 7] (⟨[4]⟩ : Script) =
      replay [5, 3, 8] [.erase 5, .insert 7, .pick, .erase 7] ⟨[4]⟩ := rfl
  obtain ⟨-, -, hmem, -⟩ := replay_tracks_marks hrun
  have h5 : (replay [5, 3, 8] [.erase 5, .insert 7, .pick, .erase 7] (⟨[4]⟩ : Script)).1.contains 5 ≠ true := by
    decide +kernel
  exact ⟨by decide +kernel, (hmem 8).1 (by decide +kernel), fun h => h5 ((hmem 5).2 h)⟩

end PickSet

end SatWalk
