/-
Runs of a deterministic step function over a list of operations.

- `run step s ops`: the state after the operations, one by one.
- `Steps step p s ops`: `p` holds at every step of the run, of the state before it and of the operation.
- `invariant`: what holds at the start and is kept by every step that meets a condition holds after every run whose
  steps all meet it; `always`: the same without a condition; `invariant_of_mem`: what the operations of one run keep.
- `Steps.and_iff`, `Steps.after_iff`: a condition in two parts; a condition on the state after the step.
- `Steps.iff_of_invariant`: two conditions on steps that agree under an invariant agree along runs.
- `always_iff_steps`: a condition on steps that decides, under an invariant, whether a step keeps a property, decides
  for a whole run whether the property holds in every state reached.
- `always_iff_steps_of_invariant`: the same where the condition keeps an invariant that is stronger than the property.
- `once_iff_steps`: the same for a property that must hold in every state after one in which a mark holds.
-/
import Mathlib.Tactic

namespace Run

variable {σ ο : Type*}

def run (step : σ → ο → σ) (s : σ) (ops : List ο) : σ := ops.foldl step s

variable {step : σ → ο → σ}

@[simp] theorem run_nil (s : σ) : run step s [] = s := rfl

@[simp] theorem run_cons (s : σ) (o : ο) (ops : List ο) : run step s (o :: ops) = run step (step s o) ops := rfl

theorem run_append (s : σ) (ops ops' : List ο) : run step s (ops ++ ops') = run step (run step s ops) ops' :=
  List.foldl_append

def Steps (step : σ → ο → σ) (p : σ → ο → Prop) : σ → List ο → Prop
  | _, [] => True
  | s, o :: ops => p s o ∧ Steps step p (step s o) ops

instance decidableSteps (p : σ → ο → Prop) [∀ s o, Decidable (p s o)] :
    ∀ (s : σ) (ops : List ο), Decidable (Steps step p s ops)
  | _, [] => isTrue trivial
  | s, o :: ops => @instDecidableAnd _ _ _ (decidableSteps p (step s o) ops)

theorem Steps.append_iff {p : σ → ο → Prop} (s : σ) (ops ops' : List ο) :
    Steps step p s (ops ++ ops') ↔ Steps step p s ops ∧ Steps step p (run step s ops) ops' := by
  induction ops generalizing s with
  | nil => simp [Steps]
  | cons o ops ih => simp [Steps, ih, and_assoc]

theorem Steps.congr {p q : σ → ο → Prop} (h : ∀ s o, p s o ↔ q s o) (s : σ) (ops : List ο) :
    Steps step p s ops ↔ Steps step q s ops := by
  induction ops generalizing s with
  | nil => exact Iff.rfl
  | cons o ops ih => exact and_congr (h s o) (ih (step s o))

theorem Steps.and_iff {p q : σ → ο → Prop} (s : σ) (ops : List ο) :
    Steps step (fun s o => p s o ∧ q s o) s ops ↔ Steps step p s ops ∧ Steps step q s ops := by
  induction ops generalizing s with
  | nil => simp [Steps]
  | cons o ops ih => simp [Steps, ih, and_and_and_comm]

/-- what holds after every step, and at the start, holds in every state reached -/
theorem Steps.after_iff {P : σ → Prop} (s : σ) (ops : List ο) (h0 : P s) :
    Steps step (fun s o => P (step s o)) s ops ↔ ∀ ops', ops' <+: ops → P (run step s ops') := by
  induction ops generalizing s with
  | nil =>
    refine ⟨fun _ ops' h => ?_, fun _ => trivial⟩
    rw [List.prefix_nil.1 h]
    exact h0
  | cons o ops ih =>
    constructor
    · intro h ops' h'
      rcases ops' with _ | ⟨o', ops'⟩
      · exact h0
      · obtain ⟨rfl, hp⟩ := List.cons_prefix_cons.1 h'
        exact (ih (step s o') h.1).1 h.2 ops' hp
    · intro h
      have h1 : P (step s o) := h [o] (by simp)
      exact ⟨h1, (ih (step s o) h1).2 fun ops' h' => h (o :: ops') (List.cons_prefix_cons.2 ⟨rfl, h'⟩)⟩

/-- the condition holds at every step exactly if it holds wherever the run is cut before a step -/
theorem Steps.iff_splits {p : σ → ο → Prop} (s : σ) (ops : List ο) :
    Steps step p s ops ↔ ∀ before o after, ops = before ++ o :: after → p (run step s before) o := by
  constructor
  · rintro h before o after rfl
    exact ((Steps.append_iff s before (o :: after)).1 h).2.1
  · intro h
    induction ops generalizing s with
    | nil => trivial
    | cons o ops ih =>
      refine ⟨h [] o ops rfl, ih (step s o) fun before o' after hops => ?_⟩
      exact h (o :: before) o' after (by rw [hops, List.cons_append])

/-- **Invariant rule.** -/
theorem invariant {I : σ → Prop} {p : σ → ο → Prop} (hstep : ∀ s o, I s → p s o → I (step s o)) (s : σ)
    (ops : List ο) (h0 : I s) (hp : Steps step p s ops) : I (run step s ops) := by
  induction ops generalizing s with
  | nil => exact h0
  | cons o ops ih => exact ih (step s o) (hstep s o h0 hp.1) hp.2

/-- an invariant of every step is one of every run -/
theorem always {I : σ → Prop} (hstep : ∀ s o, I s → I (step s o)) (s : σ) (ops : List ο) (h0 : I s) :
    I (run step s ops) := by
  induction ops generalizing s with
  | nil => exact h0
  | cons o ops ih => exact ih (step s o) (hstep s o h0)

/-- an invariant of the operations of a run -/
theorem invariant_of_mem {I : σ → Prop} (ops : List ο) (hstep : ∀ s, ∀ o ∈ ops, I s → I (step s o)) (s : σ) (h0 : I s) :
    I (run step s ops) := by
  induction ops generalizing s with
  | nil => exact h0
  | cons o ops ih =>
    exact ih (fun s o' ho' => hstep s o' (List.mem_cons_of_mem o ho')) (step s o) (hstep s o List.mem_cons_self h0)

/-- two conditions that agree under an invariant, which a step that meets them keeps, agree along every run -/
theorem Steps.iff_of_invariant {I : σ → Prop} {p q : σ → ο → Prop} (hstep : ∀ s o, I s → p s o → I (step s o))
    (hpq : ∀ s o, I s → (p s o ↔ q s o)) (s : σ) (ops : List ο) (h0 : I s) :
    Steps step p s ops ↔ Steps step q s ops := by
  induction ops generalizing s with
  | nil => exact Iff.rfl
  | cons o ops ih =>
    constructor
    · intro hp
      exact ⟨(hpq s o h0).1 hp.1, (ih (step s o) (hstep s o h0 hp.1)).1 hp.2⟩
    · intro hq
      have hp := (hpq s o h0).2 hq.1
      exact ⟨hp, (ih (step s o) (hstep s o h0 hp)).2 hq.2⟩

/-- **Exact condition rule.** -/
theorem always_iff_steps {I P : σ → Prop} {p : σ → ο → Prop} (hinv : ∀ s o, I s → I (step s o))
    (hstep : ∀ s o, I s → P s → (P (step s o) ↔ p s o)) (s : σ) (ops : List ο) (hi : I s) (h0 : P s) :
    (∀ ops', ops' <+: ops → P (run step s ops')) ↔ Steps step p s ops := by
  induction ops generalizing s with
  | nil =>
    refine ⟨fun _ => trivial, fun _ ops' h => ?_⟩
    rw [List.prefix_nil.1 h]
    exact h0
  | cons o ops ih =>
    constructor
    · intro h
      have h1 : P (step s o) := h [o] (by simp)
      refine ⟨(hstep s o hi h0).1 h1, (ih (step s o) (hinv s o hi) h1).1 fun ops' h' => ?_⟩
      exact h (o :: ops') (List.cons_prefix_cons.2 ⟨rfl, h'⟩)
    · intro h ops' h'
      have h1 : P (step s o) := (hstep s o hi h0).2 h.1
      rcases ops' with _ | ⟨o', ops'⟩
      · exact h0
      · obtain ⟨rfl, hp⟩ := List.cons_prefix_cons.1 h'
        exact (ih (step s o') (hinv s o' hi) h1).2 h.2 ops' hp

/-- **Exact condition rule, by an invariant of the runs that meet the condition.** -/
theorem always_iff_steps_of_invariant {I P : σ → Prop} {p : σ → ο → Prop} (hkeep : ∀ s o, I s → p s o → I (step s o))
    (himp : ∀ s, I s → P s) (hstep : ∀ s o, P (step s o) → p s o) (s : σ) (ops : List ο) (h0 : I s) :
    (∀ ops', ops' <+: ops → P (run step s ops')) ↔ Steps step p s ops := by
  constructor
  · clear h0
    induction ops generalizing s with
    | nil => exact fun _ => trivial
    | cons o ops ih =>
      intro h
      have h1 : P (step s o) := h [o] (by simp)
      exact ⟨hstep s o h1, ih (step s o) fun ops' h' => h (o :: ops') (List.cons_prefix_cons.2 ⟨rfl, h'⟩)⟩
  · rintro h ops' ⟨rest, rfl⟩
    exact himp _ (invariant hkeep s ops' h0 ((Steps.append_iff s ops' rest).1 h).1)

/-- **Exact condition rule, from a mark on.** -/
theorem once_iff_steps {I P Q : σ → Prop} {p : σ → ο → Prop} (hinv : ∀ s o, I s → I (step s o))
    (hmark : ∀ s, I s → P s → Q s) (hstep : ∀ s o, I s → P s → (Q (step s o) ↔ p s o))
    (hkeep : ∀ s o, I s → P s → p s o → P (step s o)) (s : σ) (ops : List ο) (hi : I s) :
    (∀ before after, before ++ after <+: ops → P (run step s before) → Q (run step s (before ++ after))) ↔
      Steps step (fun s o => P s → p s o) s ops := by
  induction ops generalizing s with
  | nil =>
    refine ⟨fun _ => trivial, fun _ before after h hp => ?_⟩
    obtain ⟨rfl, rfl⟩ := List.append_eq_nil_iff.1 (List.prefix_nil.1 h)
    exact hmark s hi hp
  | cons o ops ih =>
    have hi' := hinv s o hi
    constructor
    · intro h
      refine ⟨fun hp => (hstep s o hi hp).1 (h [] [o] (by simp) hp), (ih (step s o) hi').1 fun before after h' => ?_⟩
      exact h (o :: before) after (List.cons_prefix_cons.2 ⟨rfl, h'⟩)
    · intro h before after h' hp
      rcases before with _ | ⟨o', before⟩
      · -- the mark holds at once, and still after the first step
        rcases after with _ | ⟨o', after⟩
        · exact hmark s hi hp
        · obtain ⟨rfl, htail⟩ := List.cons_prefix_cons.1 h'
          have hp' := hkeep s o' hi hp (h.1 hp)
          exact (ih (step s o') hi').2 h.2 [] after htail hp'
      · obtain ⟨rfl, htail⟩ := List.cons_prefix_cons.1 h'
        exact (ih (step s o') hi').2 h.2 before after htail hp

end Run
