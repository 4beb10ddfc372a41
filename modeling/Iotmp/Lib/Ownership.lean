/-
Objects that live as long as a strong reference to them exists, one of which they may hold themselves.

An object is held by its creator until that lets go, by a caller that has locked a weak reference for as long as the
call takes, and by itself. The handlers of an event loop only have its address and keep nothing alive.

- `Code`: the code of a class of such objects. `accesses` are the states in which the statements of an event read or
  write the object, one by one; an event may drop the self reference between two of them.
- `Owned`: an object, whether its creator still holds it, and whether code has touched it with no reference left.
- `Code.Safe`: no such access has happened, and no handler is pending once the last reference is gone.
- `Code.safe_iff`: every state of a run is safe, exactly if no handler drops the self reference after the creator has
  let go, and none is pending whenever a locked call or the creator drops the last reference.
-/
import Mathlib.Tactic
import Iotmp.Lib.Run

namespace Ownership

/-- who runs an event -/
inductive Caller where
  | creator
  /-- a call through a weak reference, which holds the object while it lasts -/
  | lock
  /-- a handler that has only the address -/
  | handler
  /-- no code of the object runs: one of its timers expires -/
  | clock
deriving DecidableEq, Repr

structure Code (σ ε : Type*) where
  step : σ → ε → σ
  caller : ε → Caller
  selfReference : σ → Bool
  /-- how many handlers are queued -/
  pending : σ → ℕ
  queued : σ → ε → Bool
  accesses : σ → ε → List σ
  Drops : σ → ε → Prop
  queued_pos : ∀ s e, queued s e = true → 0 < pending s
  keeps : ∀ s e, caller e ≠ .creator → ¬ Drops s e →
    selfReference (step s e) = selfReference s ∧ ∀ x ∈ accesses s e, selfReference x = selfReference s
  drops : ∀ s e, Drops s e → selfReference (step s e) = false ∧ ∃ x ∈ accesses s e, selfReference x = false
  clock_keeps : ∀ s e, caller e = .clock → selfReference (step s e) = selfReference s
  call_pending : ∀ s e, caller e = .lock → Drops s e → pending (step s e) = pending s

structure Owned (σ : Type*) where
  object : σ
  creator : Bool := true
  unowned : Bool := false

def create {σ : Type*} (s : σ) : Owned σ := { object := s }

/-- the states in which statements run, one after the other -/
def statesBefore {σ : Type*} : List (σ → σ) → σ → List σ
  | [], _ => []
  | f :: statements, s => s :: statesBefore statements (f s)

theorem mem_statesBefore {σ : Type*} (before : List (σ → σ)) (statement : σ → σ) (after : List (σ → σ)) (s : σ) :
    before.foldl (fun s f => f s) s ∈ statesBefore (before ++ statement :: after) s := by
  induction before generalizing s with
  | nil => exact List.mem_cons_self
  | cons f before ih => exact List.mem_cons_of_mem _ (ih (f s))

inductive Event (ε : Type*) where
  | run (e : ε)
  /-- the creator drops its reference -/
  | release

namespace Code

variable {σ ε : Type*} (code : Code σ ε)

/-! ## Running code -/

def alive (o : Owned σ) : Bool := o.creator || code.selfReference o.object

/-- an event's code runs, with `locked` for a reference that its caller holds -/
def execute (o : Owned σ) (locked : Bool) (e : ε) : Owned σ :=
  { o with
    object := code.step o.object e
    unowned := o.unowned ||
      (code.accesses o.object e).any fun x => !(locked || o.creator || code.selfReference x) }

/-- the timers of an object end with it, and a weak reference to it can no longer be locked -/
def ownedStep (o : Owned σ) : Event ε → Owned σ
  | .release => { o with creator := false }
  | .run e =>
    match code.caller e with
    | .creator => if o.creator then code.execute o false e else o
    | .lock => if code.alive o then code.execute o true e else o
    | .handler => if code.queued o.object e then code.execute o false e else o
    | .clock => if code.alive o then { o with object := code.step o.object e } else o

abbrev run (o : Owned σ) (events : List (Event ε)) : Owned σ := Run.run code.ownedStep o events

/-! ## Safety -/

structure Safe (o : Owned σ) : Prop where
  owned : o.unowned = false
  ended : code.alive o = false → code.pending o.object = 0

/-- a handler that drops the self reference is not the last holder, and who drops the last reference leaves no
handler -/
def Held (o : Owned σ) : Event ε → Prop
  | .release => code.selfReference o.object = false → code.pending o.object = 0
  | .run e =>
    match code.caller e with
    | .creator => True
    | .lock => code.Drops o.object e → o.creator = false → code.pending o.object = 0
    | .handler => code.queued o.object e = true → code.Drops o.object e → o.creator = true
    | .clock => True

variable {code}

theorem create_safe (s : σ) : code.Safe (create s) where
  owned := rfl
  ended h := absurd h (by simp [alive, create])

theorem Safe.alive_of_queued {o : Owned σ} (h : code.Safe o) {e : ε} (hq : code.queued o.object e = true) :
    code.alive o = true := by
  by_contra hdead
  have hpending := h.ended (by simpa using hdead)
  have hpos := code.queued_pos _ _ hq
  omega

/-- a reference held by the caller or the creator covers every access -/
theorem execute_unowned {o : Owned σ} {locked : Bool} (e : ε) (h : (locked || o.creator) = true) :
    (code.execute o locked e).unowned = o.unowned := by
  simp [execute, h]

/-- code that keeps the self reference keeps a safe object alive -/
theorem Safe.execute_keeps {o : Owned σ} (h : code.Safe o) (ha : code.alive o = true) (locked : Bool) {e : ε}
    (hc : code.caller e ≠ .creator) (hd : ¬ code.Drops o.object e) : code.Safe (code.execute o locked e) := by
  obtain ⟨hself, haccesses⟩ := code.keeps o.object e hc hd
  constructor
  · have hany : ((code.accesses o.object e).any fun x => !(locked || o.creator || code.selfReference x)) = false := by
      rw [List.any_eq_false]
      intro x hx
      rw [haccesses x hx]
      rw [alive] at ha
      rcases hcreator : o.creator with _ | _
      · simp [show code.selfReference o.object = true by simpa [hcreator] using ha]
      · simp
    rw [execute]
    simp only
    rw [h.owned, hany]
    rfl
  · intro hdead
    rw [alive, execute] at hdead
    simp only at hdead
    rw [hself] at hdead
    exact absurd (ha.symm.trans hdead) (by decide)

/-- a handler that drops the self reference goes on, so someone else must hold the object -/
theorem Safe.handler_drops_iff {o : Owned σ} (h : code.Safe o) {e : ε} (hd : code.Drops o.object e) :
    code.Safe (code.execute o false e) ↔ o.creator = true := by
  obtain ⟨-, x, hx, hself⟩ := code.drops o.object e hd
  constructor
  · intro hsafe
    by_contra hcreator
    have hany : ((code.accesses o.object e).any fun x => !(false || o.creator || code.selfReference x)) = true := by
      rw [List.any_eq_true]
      exact ⟨x, hx, by simp [hself, hcreator]⟩
    have howned := hsafe.owned
    rw [execute] at howned
    simp only at howned
    rw [hany, Bool.or_true] at howned
    exact absurd howned (by decide)
  · intro hcreator
    refine ⟨(execute_unowned e (by simp [hcreator])).trans h.owned, fun hdead => ?_⟩
    simp [alive, execute, hcreator] at hdead

/-- a locked call that drops it ends the object when it returns, unless the creator holds it -/
theorem Safe.lock_drops_iff {o : Owned σ} (h : code.Safe o) {e : ε} (hc : code.caller e = .lock)
    (hd : code.Drops o.object e) :
    code.Safe (code.execute o true e) ↔ (o.creator = false → code.pending o.object = 0) := by
  have hself : code.selfReference (code.execute o true e).object = false := (code.drops o.object e hd).1
  have hpending : code.pending (code.execute o true e).object = code.pending o.object := code.call_pending _ _ hc hd
  constructor
  · intro hsafe hcreator
    rw [← hpending]
    apply hsafe.ended
    rw [alive, hself, Bool.or_false]
    exact hcreator
  · intro hleft
    refine ⟨(execute_unowned e rfl).trans h.owned, fun hdead => ?_⟩
    rw [alive, hself, Bool.or_false] at hdead
    rw [hpending]
    exact hleft hdead

/-- **One event.** -/
theorem safe_step_iff {o : Owned σ} (h : code.Safe o) (e : Event ε) :
    code.Safe (code.ownedStep o e) ↔ code.Held o e := by
  cases e with
  | release =>
    rw [ownedStep, Held]
    constructor
    · intro hsafe hself
      exact hsafe.ended (by simpa [alive] using hself)
    · intro hleft
      refine ⟨h.owned, fun hdead => hleft ?_⟩
      simpa [alive] using hdead
  | run e =>
    rw [ownedStep, Held]
    rcases hc : code.caller e with _ | _ | _ | _
    · -- the creator holds the object while it runs its code
      simp only [iff_true]
      split_ifs with hcreator
      · refine ⟨(execute_unowned e (by simp [hcreator])).trans h.owned, fun hdead => ?_⟩
        simp [alive, execute, hcreator] at hdead
      · exact h
    · simp only
      split_ifs with ha
      · by_cases hd : code.Drops o.object e
        · rw [h.lock_drops_iff hc hd]
          constructor
          · exact fun hleft _ => hleft
          · exact fun hleft => hleft hd
        · have hsafe := h.execute_keeps ha true (by simp [hc]) hd
          exact ⟨fun _ hd' => absurd hd' hd, fun _ => hsafe⟩
      · have hpending := h.ended (by simpa using ha)
        exact ⟨fun _ _ _ => hpending, fun _ => h⟩
    · simp only
      split_ifs with hq
      · have ha := h.alive_of_queued hq
        by_cases hd : code.Drops o.object e
        · rw [h.handler_drops_iff hd]
          constructor
          · exact fun hcreator _ _ => hcreator
          · exact fun hheld => hheld hq hd
        · have hsafe := h.execute_keeps ha false (by simp [hc]) hd
          exact ⟨fun _ _ hd' => absurd hd' hd, fun _ => hsafe⟩
      · exact ⟨fun _ hq' => absurd hq' hq, fun _ => h⟩
    · simp only [iff_true]
      split_ifs with ha
      · refine ⟨h.owned, fun hdead => ?_⟩
        rw [alive] at ha hdead
        simp only at hdead
        rw [code.clock_keeps _ _ hc] at hdead
        exact absurd (ha.symm.trans hdead) (by decide)
      · exact h

/-- **Every state of a run is safe** exactly if every event of it finds the references it needs. -/
theorem safe_iff (s : σ) (events : List (Event ε)) :
    (∀ before, before <+: events → code.Safe (code.run (create s) before)) ↔
      Run.Steps code.ownedStep code.Held (create s) events := by
  apply Run.always_iff_steps (I := fun _ => True)
  · exact fun _ _ _ => trivial
  · exact fun o e _ h => safe_step_iff h e
  · trivial
  · exact create_safe s

end Code

end Ownership
