/-
A steady timer behind a shared pointer, with the completion handlers of its waits.

- `start`: a new expiry time and a wait on it, on a new timer if the pointer is null. A wait on the old expiry time is
  cancelled.
- `expire`: the expiry time is reached. The handler of the wait is queued; neither `cancel` nor `reset` takes it back.
- `next`: the handler queued first, to be called.
A handler carries what it captured, of type `α`. The handler of a cancelled wait is called with an error; it is left
out, for handlers that do nothing then. `waits` counts the handlers that are still to be called without error.
-/
import Mathlib.Tactic

structure Timer (α : Type*) where
  present : Bool := false
  armed : Option α := none
  due : List α := []

namespace Timer

variable {α : Type*}

def start (t : Timer α) (a : α) : Timer α := { t with present := true, armed := some a }

/-- `timer->cancel(); timer.reset();` -/
def reset (t : Timer α) : Timer α := { t with present := false, armed := none }

def expire (t : Timer α) : Timer α := { t with armed := none, due := t.due ++ t.armed.toList }

def next (t : Timer α) : Option (α × Timer α) :=
  match t.due with
  | [] => none
  | a :: due => some (a, { t with due := due })

def waits (t : Timer α) : ℕ := t.armed.toList.length + t.due.length

@[simp] theorem present_start (t : Timer α) (a : α) : (t.start a).present = true := rfl

@[simp] theorem waits_start (t : Timer α) (a : α) : (t.start a).waits = t.due.length + 1 := Nat.add_comm 1 _

@[simp] theorem present_reset (t : Timer α) : t.reset.present = false := rfl

@[simp] theorem present_expire (t : Timer α) : t.expire.present = t.present := rfl

@[simp] theorem waits_expire (t : Timer α) : t.expire.waits = t.waits := by
  simp [waits, expire, Nat.add_comm]

theorem due_le_waits (t : Timer α) : t.due.length ≤ t.waits := Nat.le_add_left _ _

/-- calling a handler uses up one wait -/
theorem next_eq_some {t : Timer α} {x : α × Timer α} (h : t.next = some x) :
    x.2.present = t.present ∧ t.waits = x.2.waits + 1 ∧ t.due.length = x.2.due.length + 1 := by
  rcases hd : t.due with _ | ⟨a, due⟩
  · simp [next, hd] at h
  · simp only [next, hd, Option.some.injEq] at h
    subst h
    simp [waits, hd]
    omega

end Timer
