/-
Systems whose events are not always possible.

- `step f s e`: the state after the event, or the same state if it is not possible in it.
- `always`: what holds at the start and is kept by every event that is possible holds after every run; `invariant`: the
  same for runs whose events all meet a condition.
- `Stuck`: no event is possible.
- `reaches`: where some event always brings a goal nearer, a run leads to it.
-/
import Mathlib.Tactic
import Iotmp.Lib.Run

namespace Guarded

variable {σ ε : Type*} (f : σ → ε → Option σ)

def step (s : σ) (e : ε) : σ := (f s e).getD s

abbrev run (s : σ) (events : List ε) : σ := Run.run (step f) s events

def Stuck (s : σ) : Prop := ∀ e, f s e = none

variable {f}

theorem step_of_some {s s' : σ} {e : ε} (h : f s e = some s') : step f s e = s' := by
  rw [step, h]
  rfl

theorem step_of_none {s : σ} {e : ε} (h : f s e = none) : step f s e = s := by
  rw [step, h]
  rfl

/-- **Invariant rule**, for events that are possible. -/
theorem always {I : σ → Prop} (h : ∀ s e s', I s → f s e = some s' → I s') (s : σ) (events : List ε) (h0 : I s) :
    I (run f s events) := by
  refine Run.always (fun s e hs => ?_) s events h0
  rcases hstep : f s e with _ | s'
  · rw [step_of_none hstep]
    exact hs
  · rw [step_of_some hstep]
    exact h s e s' hs hstep

/-- **Invariant rule**, for events that are possible and meet a condition. -/
theorem invariant {I : σ → Prop} {p : σ → ε → Prop} (h : ∀ s e s', I s → p s e → f s e = some s' → I s') (s : σ)
    (events : List ε) (h0 : I s) (hp : Run.Steps (step f) p s events) : I (run f s events) := by
  refine Run.invariant (fun s e hs he => ?_) s events h0 hp
  rcases hstep : f s e with _ | s'
  · rw [step_of_none hstep]
    exact hs
  · rw [step_of_some hstep]
    exact h s e s' hs he hstep

/-- the same where the condition is one on events -/
theorem invariant_of_mem {I : σ → Prop} {p : ε → Prop} (h : ∀ s e s', I s → p e → f s e = some s' → I s') (s : σ)
    (events : List ε) (h0 : I s) (hp : ∀ e ∈ events, p e) : I (run f s events) := by
  refine Run.invariant_of_mem events (fun s e he hs => ?_) s h0
  rcases hstep : f s e with _ | s'
  · rw [step_of_none hstep]
    exact hs
  · rw [step_of_some hstep]
    exact h s e s' hs (hp e he) hstep

/-- **Progress rule.** -/
theorem reaches (I goal : σ → Prop) {allowed : ε → Prop} (measure : σ → ℕ)
    (h : ∀ s, I s → ¬ goal s → ∃ e s', allowed e ∧ f s e = some s' ∧ I s' ∧ measure s' < measure s) (s : σ) (hs : I s) :
    ∃ events, (∀ e ∈ events, allowed e) ∧ goal (run f s events) := by
  induction hm : measure s using Nat.strong_induction_on generalizing s with
  | _ n ih =>
    by_cases hgoal : goal s
    · exact ⟨[], by simp, hgoal⟩
    obtain ⟨e, s', he, hstep, hs', hless⟩ := h s hs hgoal
    obtain ⟨events, hall, hend⟩ := ih (measure s') (hm ▸ hless) s' hs' rfl
    refine ⟨e :: events, List.forall_mem_cons.2 ⟨he, hall⟩, ?_⟩
    rw [run, Run.run_cons, step_of_some hstep]
    exact hend

end Guarded
