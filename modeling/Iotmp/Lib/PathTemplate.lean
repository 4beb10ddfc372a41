/-
Path templates: letters, segments that stand for a word without the separator, and a rest that stands for any word.

- `Expands`: a template with values for its wildcards spells a path.
- `greedy`: one scan from left to right, without backtracking. A segment takes everything up to the next separator.
- `expands_iff_greedy`: where a separator or the end follows every segment, the scan finds the values if there are
  any, and no other values spell the path.
-/
import Mathlib.Tactic
import Mathlib.Data.List.TakeWhile

namespace PathTemplate

variable {α κ : Type*}

inductive Token (α κ : Type*) where
  | letter (a : α)
  | segment (key : κ)
  | rest (key : κ)
deriving DecidableEq

/-- the key a wildcard is known under -/
def Token.key : Token α κ → Option κ
  | .letter _ => none
  | .segment key => some key
  | .rest key => some key

def keys (template : List (Token α κ)) : List κ := template.filterMap Token.key

/-- the template spells the path with these values for its wildcards; a rest can only come last -/
inductive Expands (sep : α) : List (Token α κ) → List (List α) → List α → Prop
  | nil : Expands sep [] [] []
  | letter {template values path} (a : α) (h : Expands sep template values path) :
      Expands sep (.letter a :: template) values (a :: path)
  | segment {template values path} (key : κ) {value : List α} (hvalue : sep ∉ value)
      (h : Expands sep template values path) :
      Expands sep (.segment key :: template) (value :: values) (value ++ path)
  | rest (key : κ) (value : List α) : Expands sep [.rest key] [value] value

/-- a separator or the end follows every segment -/
def Separated (sep : α) : List (Token α κ) → Prop
  | [] => True
  | .segment _ :: template => (template = [] ∨ template.head? = some (.letter sep)) ∧ Separated sep template
  | _ :: template => Separated sep template

/-- a template of letters spells itself, without values -/
theorem expands_letters (sep : α) (word : List α) :
    Expands sep (word.map Token.letter : List (Token α κ)) [] word := by
  induction word with
  | nil => exact .nil
  | cons a word ih => exact .letter a ih

/-- the path of a template that is empty or begins with a separator does so too -/
theorem Expands.head_path {sep : α} {template : List (Token α κ)} {values : List (List α)} {path : List α}
    (h : Expands sep template values path) (hhead : template = [] ∨ template.head? = some (.letter sep)) :
    path = [] ∨ path.head? = some sep := by
  cases h with
  | nil => exact Or.inl rfl
  | letter a h => exact Or.inr (by simpa using hhead)
  | segment key hvalue h => exact absurd hhead (by simp)
  | rest key value => exact absurd hhead (by simp)

/-! ## The scan -/

section Greedy

variable [DecidableEq α]

def greedy (sep : α) : List (Token α κ) → List α → Option (List (List α))
  | [], path => if path.isEmpty then some [] else none
  | .letter _ :: _, [] => none
  | .letter a :: template, b :: path => if a = b then greedy sep template path else none
  | .segment _ :: template, path =>
    (greedy sep template (path.dropWhile (· ≠ sep))).map (path.takeWhile (· ≠ sep) :: ·)
  | .rest _ :: template, path => if template.isEmpty then some [path] else none

/-- a word without the separator, and then the end or a separator, is what a segment takes -/
theorem takeWhile_segment {sep : α} {value path : List α} (hvalue : sep ∉ value)
    (hpath : path = [] ∨ path.head? = some sep) :
    (value ++ path).takeWhile (· ≠ sep) = value ∧ (value ++ path).dropWhile (· ≠ sep) = path := by
  have hall : ∀ a ∈ value, decide (a ≠ sep) = true := fun a ha =>
    decide_eq_true fun heq => hvalue (heq ▸ ha)
  rw [List.takeWhile_append_of_pos hall, List.dropWhile_append_of_pos hall]
  rcases hpath with rfl | hhead
  · simp
  · obtain ⟨path, rfl⟩ : ∃ path', path = sep :: path' := by
      rcases path with _ | ⟨b, path⟩
      · exact absurd hhead (by simp)
      · exact ⟨path, by rw [show b = sep by simpa using hhead]⟩
    simp

/-- what the scan finds spells the path -/
theorem expands_of_greedy {sep : α} {template : List (Token α κ)} {path : List α} {values : List (List α)}
    (h : greedy sep template path = some values) : Expands sep template values path := by
  induction template generalizing path values with
  | nil =>
    rw [greedy] at h
    split_ifs at h with hpath
    obtain rfl := Option.some.inj h
    rw [List.isEmpty_iff.1 hpath]
    exact .nil
  | cons token template ih =>
    cases token with
    | letter a =>
      rcases path with _ | ⟨b, path⟩
      · exact absurd h (by simp [greedy])
      · rw [greedy] at h
        split_ifs at h with hab
        rw [← hab]
        exact .letter a (ih h)
    | segment key =>
      obtain ⟨values, hvalues, rfl⟩ := Option.map_eq_some_iff.1 h
      have hsep : sep ∉ path.takeWhile (· ≠ sep) := fun hmem => by simpa using List.mem_takeWhile_imp hmem
      have hexpands := Expands.segment key hsep (ih hvalues)
      rwa [List.takeWhile_append_dropWhile] at hexpands
    | rest key =>
      rw [greedy] at h
      split_ifs at h with htemplate
      obtain rfl := Option.some.inj h
      rw [List.isEmpty_iff.1 htemplate]
      exact .rest key path

/-- **The scan is complete**, though it never goes back. -/
theorem greedy_of_expands {sep : α} {template : List (Token α κ)} {path : List α} {values : List (List α)}
    (hsep : Separated sep template) (h : Expands sep template values path) :
    greedy sep template path = some values := by
  induction h with
  | nil => rfl
  | letter a h ih => rw [greedy, if_pos rfl, ih hsep]
  | segment key hvalue h ih =>
    obtain ⟨htake, hdrop⟩ := takeWhile_segment hvalue (h.head_path hsep.1)
    rw [greedy, htake, hdrop, ih hsep.2, Option.map_some]
  | rest key value => rfl

/-- **The scan decides the meaning**, and the values are unique. -/
theorem expands_iff_greedy {sep : α} {template : List (Token α κ)} (hsep : Separated sep template) (path : List α)
    (values : List (List α)) : Expands sep template values path ↔ greedy sep template path = some values :=
  ⟨greedy_of_expands hsep, expands_of_greedy⟩

theorem Expands.unique {sep : α} {template : List (Token α κ)} {path : List α} {values values' : List (List α)}
    (hsep : Separated sep template) (h : Expands sep template values path) (h' : Expands sep template values' path) :
    values = values' :=
  Option.some.inj ((greedy_of_expands hsep h).symm.trans (greedy_of_expands hsep h'))

end Greedy

end PathTemplate
