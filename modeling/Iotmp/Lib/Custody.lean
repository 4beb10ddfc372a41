/-
Items handed out one by one, in the order of their numbers, to holders that finish or lose them.

- `take`, `finish`, `lose`: what a holder does with the next item, or with the one it has.
- `Sound`: every item handed out is at exactly one place; `Sound.take`, `Sound.finish`, `Sound.lose` keep it.
- `finished_iff`: an item is finished exactly if it was handed out, nobody holds it, and it is not lost.
-/
import Mathlib.Tactic

structure Custody where
  /-- the number of items handed out -/
  taken : ℕ := 0
  /-- the item a holder has -/
  held : ℕ → Option ℕ := fun _ => none
  finished : List ℕ := []
  lost : List ℕ := []

namespace Custody

def take (c : Custody) (i : ℕ) : Custody :=
  { c with taken := c.taken + 1, held := Function.update c.held i (some c.taken) }

def finish (c : Custody) (i : ℕ) : Custody :=
  { c with finished := c.finished ++ (c.held i).toList, held := Function.update c.held i none }

def lose (c : Custody) (i : ℕ) : Custody :=
  { c with lost := c.lost ++ (c.held i).toList, held := Function.update c.held i none }

theorem held_update_iff {f : ℕ → Option ℕ} {i : ℕ} {v : Option ℕ} {j k : ℕ} :
    Function.update f i v j = some k ↔ j = i ∧ v = some k ∨ j ≠ i ∧ f j = some k := by
  by_cases hj : j = i
  · rw [hj, Function.update_self]
    simp
  · rw [Function.update_of_ne hj]
    simp [hj]

/-- **Every item handed out is at exactly one place.** -/
structure Sound (c : Custody) : Prop where
  placed : ∀ k, k < c.taken ↔ k ∈ c.finished ∨ k ∈ c.lost ∨ ∃ i, c.held i = some k
  finished : ∀ k ∈ c.finished, k ∉ c.lost ∧ ∀ i, c.held i ≠ some k
  lost : ∀ k ∈ c.lost, ∀ i, c.held i ≠ some k
  one : ∀ i j k, c.held i = some k → c.held j = some k → i = j

theorem sound_init : ({} : Custody).Sound where
  placed := by simp
  finished := by simp
  lost := by simp
  one := by simp

theorem Sound.held_lt {c : Custody} (h : c.Sound) {i k : ℕ} (hi : c.held i = some k) : k < c.taken :=
  (h.placed k).2 (Or.inr (Or.inr ⟨i, hi⟩))

/-- a holder without an item takes the next one -/
theorem Sound.take {c : Custody} (h : c.Sound) {i : ℕ} (hi : c.held i = none) : (c.take i).Sound := by
  have hnew : ∀ j, c.held j ≠ some c.taken := fun j hj => absurd (h.held_lt hj) (lt_irrefl _)
  have hheld : ∀ j k, (c.take i).held j = some k ↔ j = i ∧ c.taken = k ∨ c.held j = some k := by
    intro j k
    rw [Custody.take, held_update_iff, Option.some_inj]
    refine or_congr Iff.rfl ⟨fun hj => hj.2, fun hj => ⟨?_, hj⟩⟩
    rintro rfl
    exact absurd (hi.symm.trans hj) (by simp)
  refine ⟨fun k => ?_, fun k hk => ⟨(h.finished k hk).1, fun j hj => ?_⟩, fun k hk j hj => ?_, fun j j' k hj hj' => ?_⟩
  · show k < c.taken + 1 ↔ k ∈ c.finished ∨ k ∈ c.lost ∨ ∃ j, (c.take i).held j = some k
    have hplaced := h.placed k
    simp only [hheld]
    constructor
    · intro hk
      rcases Nat.lt_succ_iff_lt_or_eq.1 hk with hlt | rfl
      · rcases hplaced.1 hlt with hfin | hlost | ⟨j, hj⟩
        · exact Or.inl hfin
        · exact Or.inr (Or.inl hlost)
        · exact Or.inr (Or.inr ⟨j, Or.inr hj⟩)
      · exact Or.inr (Or.inr ⟨i, Or.inl ⟨rfl, rfl⟩⟩)
    · rintro (hfin | hlost | ⟨j, ⟨-, rfl⟩ | hj⟩)
      · exact Nat.lt_succ_of_lt (hplaced.2 (Or.inl hfin))
      · exact Nat.lt_succ_of_lt (hplaced.2 (Or.inr (Or.inl hlost)))
      · exact Nat.lt_succ_self _
      · exact Nat.lt_succ_of_lt (h.held_lt hj)
  · rcases (hheld j k).1 hj with ⟨-, rfl⟩ | hj
    · exact absurd ((h.placed _).2 (Or.inl hk)) (lt_irrefl _)
    · exact (h.finished k hk).2 j hj
  · rcases (hheld j k).1 hj with ⟨-, rfl⟩ | hj
    · exact absurd ((h.placed _).2 (Or.inr (Or.inl hk))) (lt_irrefl _)
    · exact h.lost k hk j hj
  · rcases (hheld j k).1 hj with ⟨rfl, rfl⟩ | hj
    · rcases (hheld j' _).1 hj' with ⟨rfl, -⟩ | hj'
      · rfl
      · exact absurd hj' (hnew j')
    · rcases (hheld j' k).1 hj' with ⟨-, rfl⟩ | hj'
      · exact absurd hj (hnew j)
      · exact h.one j j' k hj hj'

/-- what a holder lets go is held by nobody -/
theorem Sound.released {c : Custody} (h : c.Sound) (i j k : ℕ) :
    Function.update c.held i none j = some k ↔ c.held j = some k ∧ c.held i ≠ some k := by
  rw [held_update_iff]
  refine ⟨?_, fun hj => Or.inr ⟨?_, hj.1⟩⟩
  · rintro (⟨-, hnone⟩ | ⟨hne, hj⟩)
    · exact absurd hnone (by simp)
    · exact ⟨hj, fun hi => hne (h.one j i k hj hi)⟩
  · rintro rfl
    exact hj.2 hj.1

theorem Sound.finish {c : Custody} (h : c.Sound) (i : ℕ) : (c.finish i).Sound := by
  have hheld := h.released i
  refine ⟨fun k => ?_, fun k hk => ?_, fun k hk j hj => ?_, fun j j' k hj hj' => ?_⟩
  · show k < c.taken ↔ k ∈ c.finished ++ (c.held i).toList ∨ k ∈ c.lost ∨ ∃ j, Function.update c.held i none j = some k
    rw [h.placed k]
    simp only [hheld, List.mem_append, Option.mem_toList]
    by_cases hi : c.held i = some k
    · simp only [hi, or_true, true_or, iff_true]
      exact Or.inr (Or.inr ⟨i, hi⟩)
    · simp [hi]
  · show k ∉ c.lost ∧ ∀ j, Function.update c.held i none j ≠ some k
    rcases List.mem_append.1 hk with hk | hk
    · exact ⟨(h.finished k hk).1, fun j hj => (h.finished k hk).2 j ((hheld j k).1 hj).1⟩
    · have hi := Option.mem_toList.1 hk
      exact ⟨fun hlost => h.lost k hlost i hi, fun j hj => ((hheld j k).1 hj).2 hi⟩
  · exact h.lost k hk j ((hheld j k).1 hj).1
  · exact h.one j j' k ((hheld j k).1 hj).1 ((hheld j' k).1 hj').1

theorem Sound.lose {c : Custody} (h : c.Sound) (i : ℕ) : (c.lose i).Sound := by
  have hheld := h.released i
  refine ⟨fun k => ?_, fun k hk => ⟨fun hlost => ?_, fun j hj => ?_⟩, fun k hk j hj => ?_, fun j j' k hj hj' => ?_⟩
  · show k < c.taken ↔ k ∈ c.finished ∨ k ∈ c.lost ++ (c.held i).toList ∨ ∃ j, Function.update c.held i none j = some k
    rw [h.placed k]
    simp only [hheld, List.mem_append, Option.mem_toList]
    by_cases hi : c.held i = some k
    · simp only [hi, or_true, true_or, iff_true]
      exact Or.inr (Or.inr ⟨i, hi⟩)
    · simp [hi]
  · rcases List.mem_append.1 hlost with hlost | hlost
    · exact (h.finished k hk).1 hlost
    · exact (h.finished k hk).2 i (Option.mem_toList.1 hlost)
  · exact (h.finished k hk).2 j ((hheld j k).1 hj).1
  · obtain ⟨hj, hi⟩ := (hheld j k).1 hj
    rcases List.mem_append.1 hk with hk | hk
    · exact h.lost k hk j hj
    · exact hi (Option.mem_toList.1 hk)
  · exact h.one j j' k ((hheld j k).1 hj).1 ((hheld j' k).1 hj').1

/-- **An item is finished** exactly if it was handed out, nobody holds it, and it is not lost. -/
theorem Sound.finished_iff {c : Custody} (h : c.Sound) (k : ℕ) :
    k ∈ c.finished ↔ k < c.taken ∧ (∀ i, c.held i ≠ some k) ∧ k ∉ c.lost := by
  refine ⟨fun hk => ⟨(h.placed k).2 (Or.inl hk), (h.finished k hk).2, (h.finished k hk).1⟩, fun hk => ?_⟩
  rcases (h.placed k).1 hk.1 with hfin | hlost | ⟨i, hi⟩
  · exact hfin
  · exact absurd hlost hk.2.2
  · exact absurd hi (hk.2.1 i)

end Custody
