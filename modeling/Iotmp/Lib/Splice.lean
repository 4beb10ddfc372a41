/-
Writing into a list at an offset, as into a file, and where the elements come from.

- `splice`: the elements written replace those at their positions; a gap before them is filled.
- `Traced`: every element is, at its position, that of one of the sources, or fills a gap where a source is longer.
- `Traced.splice`: a part of a source that is written at its own offset leaves a list traced.
-/
import Mathlib.Tactic

namespace Splice

variable {α : Type*} {fill : α}

def splice (fill : α) (old : List α) (offset : ℕ) (new : List α) : List α :=
  if new.isEmpty then old
  else old.take offset ++ (List.replicate (offset - old.length) fill ++ (new ++ old.drop (offset + new.length)))

/-- what is at a position afterwards was there, fills a gap, or was written -/
theorem splice_cases {old new : List α} {offset k : ℕ} {a : α} (h : (splice fill old offset new)[k]? = some a) :
    old[k]? = some a ∨ (new ≠ [] ∧ k < offset ∧ a = fill) ∨ (offset ≤ k ∧ new[k - offset]? = some a) := by
  rw [splice] at h
  split_ifs at h with hnew
  · exact .inl h
  · have hne : new ≠ [] := by simpa using hnew
    have htake : (old.take offset).length = min offset old.length := List.length_take
    rcases lt_or_ge k (min offset old.length) with hk | hk
    · -- before the offset, and within what was there
      rw [List.getElem?_append_left (by omega), List.getElem?_take_of_lt (by omega)] at h
      exact .inl h
    · rw [List.getElem?_append_right (by omega), htake] at h
      rcases lt_or_ge k offset with hgap | hgap
      · -- in the gap
        rw [List.getElem?_append_left (by rw [List.length_replicate]; omega)] at h
        exact .inr (.inl ⟨hne, hgap, List.eq_of_mem_replicate (List.mem_of_getElem? h)⟩)
      · have hpad : k - min offset old.length - (List.replicate (offset - old.length) fill).length = k - offset := by
          rw [List.length_replicate]
          omega
        rw [List.getElem?_append_right (by rw [List.length_replicate]; omega), hpad] at h
        rcases lt_or_ge (k - offset) new.length with hin | hin
        · rw [List.getElem?_append_left hin] at h
          exact .inr (.inr ⟨hgap, h⟩)
        · -- behind what was written
          rw [List.getElem?_append_right hin, List.getElem?_drop] at h
          have hindex : offset + new.length + (k - offset - new.length) = k := by omega
          rw [hindex] at h
          exact .inl h

/-! ## Sources -/

def Traced (fill : α) (source : List α → Prop) (l : List α) : Prop :=
  ∀ k a, l[k]? = some a → ∃ src, source src ∧ k < src.length ∧ (src[k]? = some a ∨ a = fill)

variable {source source' : List α → Prop} {l src : List α}

theorem traced_nil : Traced fill source [] := fun _ _ h => absurd h (by simp)

/-- a beginning of a source -/
theorem traced_prefix (hsrc : source src) (h : l <+: src) : Traced fill source l := by
  intro k a hk
  have hsame : src[k]? = some a := by
    obtain ⟨more, rfl⟩ := h
    rw [List.getElem?_append_left (List.getElem?_eq_some_iff.1 hk).1]
    exact hk
  exact ⟨src, hsrc, (List.getElem?_eq_some_iff.1 hsame).1, .inl hsame⟩

/-- sources may go on -/
theorem Traced.grow (h : Traced fill source l) (hgrow : ∀ src, source src → ∃ src', source' src' ∧ src <+: src') :
    Traced fill source' l := by
  intro k a hk
  obtain ⟨src, hsrc, hlt, hat⟩ := h k a hk
  obtain ⟨src', hsrc', more, rfl⟩ := hgrow src hsrc
  refine ⟨src ++ more, hsrc', ?_, ?_⟩
  · rw [List.length_append]
    omega
  · rw [List.getElem?_append_left hlt]
    exact hat

/-- **A part of a source**, written where it is in the source. -/
theorem Traced.splice (h : Traced fill source l) (hsrc : source src) {new : List α} (hnew : new <+: src) (offset : ℕ) :
    Traced fill source (splice fill l offset (new.drop offset)) := by
  intro k a hk
  rcases splice_cases hk with hold | ⟨hne, hgap, rfl⟩ | ⟨hle, hat⟩
  · exact h k a hold
  · refine ⟨src, hsrc, ?_, .inr rfl⟩
    by_contra hlong
    have hlength := hnew.length_le
    exact hne (List.drop_eq_nil_of_le (by omega))
  · rw [List.getElem?_drop, Nat.add_sub_cancel' hle] at hat
    exact traced_prefix hsrc hnew k a hat

end Splice
