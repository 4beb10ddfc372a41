/-
When the continuation of a RUN request starts (`client.hpp`, the RUN branch of `handle_resource_request`;
`iotmp_resource.hpp`, `output::after_response`).

The coroutine of a RUN request queues the response with `send_message` and then spawns the continuation that the handler
registered on the resource pool. The frame is written by `process_write_queue`, a coroutine of the io_context.

- `Dispatcher`: the write path, the continuations, and where every frame is: the frames are numbered in the order of
  `sent`, and `Custody` says who writes which one, which are written and which were lost by a failed write.
- `DispatchEvent`: an event of the write path, the resumption of a RUN request's coroutine, the pool starting a
  continuation.
- `acknowledged_iff`: every continuation starts after its response is written exactly if, when the pool starts it, the
  response has left the queue, no coroutine waits for its write, and its write has not failed.
- Counterexample `starts_before_response`: the pool is faster than the io_context.
-/
import Mathlib.Tactic
import Iotmp.Lib.Custody
import Iotmp.Core.Resource
import Iotmp.Client.WriteQueue

namespace Iotmp

/-- an iteration order of the fields of messages -/
structure FieldOrder where
  fields : IotmpMessage → List (UInt8 × Json)
  perm : ∀ m, (fields m).Perm m.fields.entries

def FieldOrder.outgoing (order : FieldOrder) (m : IotmpMessage) : Outgoing := ⟨m, order.fields m, order.perm m⟩

structure Dispatcher where
  path : WritePath := {}
  /-- who has the frames of `path.sent` that have left the queue -/
  custody : Custody := {}
  /-- the continuations spawned on the pool, by the number of their response -/
  continuations : List ℕ := []
  started : List ℕ := []

inductive DispatchEvent where
  | write (e : WritePath.WriteEvent)
  /-- the coroutine of a RUN request resumes after `run_resource` -/
  | respond (resource : Resource) (request : IotmpMessage) (order : FieldOrder)
  /-- the pool starts the continuation of response `k` -/
  | start (k : ℕ)

namespace Dispatcher

/-- `process_write_queue` of coroutine `i` has taken the next frame if the queue is shorter -/
def takeNext (t : Dispatcher) (path : WritePath) (i : ℕ) (custody : Custody) : Custody :=
  if path.writeQueue.length < t.path.writeQueue.length then custody.take i else custody

/-- who has the frames after an event of the write path -/
def track (t : Dispatcher) : WritePath.WriteEvent → Custody
  | .begin i =>
    if t.path.coroutines i = some .processWriteQueue then t.takeNext (t.path.step (.begin i)) i t.custody
    else t.custody
  | .complete i =>
    match t.path.pending i with
    | some w =>
      if t.path.isOpen w.socket ∧ w.written = w.frame.length then
        t.takeNext (t.path.step (.complete i)) i (t.custody.finish i)
      else t.custody
    | none => t.custody
  | .fail i =>
    match t.path.pending i with
    | some _ => t.custody.lose i
    | none => t.custody
  | _ => t.custody

def write (t : Dispatcher) (e : WritePath.WriteEvent) : Dispatcher :=
  { t with path := t.path.step e, custody := t.track e }

/-- the RUN branch from the return of `run_resource` on -/
def respond (t : Dispatcher) (resource : Resource) (request : IotmpMessage) (order : FieldOrder) : Dispatcher :=
  match resource.runResource request (.withStreamId request.getStreamId .ok) with
  | .throws => t
  | .returns ran =>
    let response := ran.response.setMessageType (if ran.success then .ok else .error)
    let sent := t.write (.sendMessage (order.outgoing response))
    -- an exception of the logger leaves the coroutine before the continuation is looked at
    if response.Logs t.path.logging ∧ ran.afterResponse then
      { sent with continuations := sent.continuations ++ [t.path.sent.length] }
    else sent

/-- nothing happens for a continuation that the pool does not have -/
def start (t : Dispatcher) (k : ℕ) : Dispatcher :=
  if k ∈ t.continuations then
    { t with continuations := t.continuations.erase k, started := t.started ++ [k] }
  else t

def step (t : Dispatcher) : DispatchEvent → Dispatcher
  | .write e => t.write e
  | .respond resource request order => t.respond resource request order
  | .start k => t.start k

abbrev run (t : Dispatcher) (events : List DispatchEvent) : Dispatcher := Run.run step t events

/-- the complete frame of response `k` was handed to the socket, and its write has completed -/
def Written (t : Dispatcher) (k : ℕ) : Prop := k ∈ t.custody.finished

instance (t : Dispatcher) (k : ℕ) : Decidable (t.Written k) := inferInstanceAs (Decidable (_ ∈ _))

/-- **after_response runs after the response is on the wire.** -/
def Acknowledged (t : Dispatcher) : Prop := ∀ k ∈ t.started, t.Written k

/-- a continuation that starts finds its response neither queued, nor being written, nor lost -/
def Timely (t : Dispatcher) : DispatchEvent → Prop
  | .start k => k ∈ t.continuations → k < t.custody.taken ∧ (∀ i, t.custody.held i ≠ some k) ∧ k ∉ t.custody.lost
  | _ => True

end Dispatcher

/-! ## What the coroutines of the write path hold -/

namespace WritePath

/-- the frame of the queue that a coroutine writes -/
def queueFrame (s : WritePath) (i : ℕ) : Option Bytes :=
  (s.pending i).bind fun w => if w.queued then some w.frame else none

theorem queueFrame_setCoroutine_none (s : WritePath) (i j : ℕ) :
    (s.setCoroutine i none).queueFrame j = if j = i then none else s.queueFrame j := by
  rw [queueFrame, pending_setCoroutine]
  split_ifs <;> rfl

theorem queueFrame_setCoroutine_write (s : WritePath) (i j : ℕ) (w : PendingWrite) :
    (s.setCoroutine i (some (.write w))).queueFrame j =
      if j = i then (if w.queued then some w.frame else none) else s.queueFrame j := by
  rw [queueFrame, pending_setCoroutine]
  split_ifs <;> simp_all [Coroutine.pendingWrite, queueFrame]

/-- a spawned coroutine holds no frame of the queue yet -/
theorem queueFrame_spawn {s : WritePath} (hfresh : s.coroutines s.spawned = none) {c : Coroutine}
    (hc : ∀ w, c = .write w → w.queued = false) (j : ℕ) : (s.spawn c).queueFrame j = s.queueFrame j := by
  by_cases hj : j = s.spawned
  · rw [hj]
    cases c with
    | processWriteQueue => simp [queueFrame, pending, spawn, hfresh, Coroutine.pendingWrite]
    | write w => simp [queueFrame, pending, spawn, hfresh, Coroutine.pendingWrite, hc w rfl]
  · simp [queueFrame, pending, spawn, Function.update_of_ne hj]

theorem processWriteQueue_setCoroutine (s : WritePath) (i : ℕ) (c : Option Coroutine) :
    (s.setCoroutine i c).processWriteQueue i = s.processWriteQueue i := by
  rw [processWriteQueue, processWriteQueue]
  simp only [setCoroutine, Function.update_idem]
  rcases s.writeQueue with _ | ⟨data, queue⟩
  · rfl
  · rfl

/-- `process_write_queue` takes the next frame, or ends -/
theorem processWriteQueue_takes (s : WritePath) (i : ℕ) :
    (∃ data, s.writeQueue = data :: (s.processWriteQueue i).writeQueue ∧
        s.processWriteQueue i = { s with
          writeQueue := (s.processWriteQueue i).writeQueue }.setCoroutine i (some (.write ⟨s.socket, data, 0, true⟩))) ∨
      s.processWriteQueue i = { s with writeInProgress := false }.setCoroutine i none := by
  have hcases : s.writeQueue = [] ∨ ∃ data queue, s.writeQueue = data :: queue := by
    rcases s.writeQueue with _ | ⟨data, queue⟩ <;> simp
  obtain hq | ⟨data, queue, hq⟩ := hcases
  · exact Or.inr (processWriteQueue_nil hq i)
  · rcases hup : (s.connected && decide (s.socket ≠ 0)) with _ | _
    · exact Or.inr (processWriteQueue_down hup i)
    · have hpwq : s.processWriteQueue i =
          { s with writeQueue := queue }.setCoroutine i (some (.write ⟨s.socket, data, 0, true⟩)) := by
        obtain ⟨hconn, hsock⟩ : s.connected = true ∧ s.socket ≠ 0 := by simpa using hup
        exact processWriteQueue_cons hq hconn hsock i
      have hrest : (s.processWriteQueue i).writeQueue = queue := by rw [hpwq]; rfl
      exact Or.inl ⟨data, by rw [hrest, hq], by rw [hrest, hpwq]⟩

end WritePath

namespace Dispatcher

/-- the frames in the order in which they were queued -/
def frames (t : Dispatcher) : List Bytes := t.path.sent.map Outgoing.encoded

/-- **Every frame is at one place**, and the numbers say which one it is. -/
structure Placed (t : Dispatcher) : Prop where
  custody : t.custody.Sound
  taken : t.custody.taken ≤ t.frames.length
  queue : t.path.writeQueue = t.frames.drop t.custody.taken
  held : ∀ i, t.path.queueFrame i = (t.custody.held i).bind fun k => t.frames[k]?
  fresh : ∀ i, t.path.spawned ≤ i → t.path.coroutines i = none
  completed : t.path.completed.map some = t.custody.finished.map fun k => t.frames[k]?

/-! ## One event -/

/-- a coroutine that writes no frame of the queue has none -/
theorem Placed.held_none {t : Dispatcher} (h : t.Placed) {i : ℕ} (hi : t.path.queueFrame i = none) :
    t.custody.held i = none := by
  by_contra hne
  obtain ⟨k, hk⟩ := Option.ne_none_iff_exists'.1 hne
  have hlt : k < t.frames.length := lt_of_lt_of_le (h.custody.held_lt hk) h.taken
  have hframe := h.held i
  rw [hi, hk, Option.bind_some, List.getElem?_eq_getElem hlt] at hframe
  exact absurd hframe.symm (by simp)

/-- an event that moves no frame -/
theorem Placed.same {t : Dispatcher} (h : t.Placed) {path : WritePath} (hsent : path.sent = t.path.sent)
    (hqueue : path.writeQueue = t.path.writeQueue) (hcompleted : path.completed = t.path.completed)
    (hheld : ∀ i, path.queueFrame i = t.path.queueFrame i)
    (hfresh : ∀ i, path.spawned ≤ i → path.coroutines i = none) : ({ t with path := path } : Dispatcher).Placed := by
  have hframes : ({ t with path := path } : Dispatcher).frames = t.frames := by rw [frames, frames, hsent]
  exact
    { custody := h.custody
      taken := hframes ▸ h.taken
      queue := by rw [hframes]; exact hqueue.trans h.queue
      held := fun i => by rw [hframes]; exact (hheld i).trans (h.held i)
      fresh := hfresh
      completed := by rw [hframes]; exact (congrArg _ hcompleted).trans h.completed }

theorem fresh_setCoroutine {s : WritePath} {i : ℕ} (hfresh : ∀ j, s.spawned ≤ j → s.coroutines j = none)
    (hi : i < s.spawned) (c : Option Coroutine) (j : ℕ) (hj : s.spawned ≤ j) :
    (s.setCoroutine i c).coroutines j = none := by
  have hne : j ≠ i := by omega
  simp only [WritePath.setCoroutine, Function.update_of_ne hne]
  exact hfresh j hj

/-- the loop of `process_write_queue`, in a coroutine that has no frame -/
theorem Placed.processWriteQueue {t : Dispatcher} (h : t.Placed) {i : ℕ} (hi : i < t.path.spawned)
    (hheld : t.custody.held i = none) :
    ({ t with
      path := t.path.processWriteQueue i
      custody := t.takeNext (t.path.processWriteQueue i) i t.custody } : Dispatcher).Placed := by
  have hnone : t.path.queueFrame i = none := by rw [h.held i, hheld]; rfl
  rcases t.path.processWriteQueue_takes i with ⟨data, hqueue, hpwq⟩ | hpwq
  · generalize (t.path.processWriteQueue i).writeQueue = queue at hqueue hpwq
    have hshort : queue.length < t.path.writeQueue.length := by rw [hqueue]; simp
    have hdrop : t.frames.drop t.custody.taken = data :: queue := h.queue.symm.trans hqueue
    have hlt : t.custody.taken < t.frames.length := by
      by_contra hle
      rw [List.drop_eq_nil_of_le (Nat.not_lt.1 hle)] at hdrop
      exact absurd hdrop (by simp)
    obtain ⟨hdata, hrest⟩ : t.frames[t.custody.taken] = data ∧ t.frames.drop (t.custody.taken + 1) = queue := by
      rw [List.drop_eq_getElem_cons hlt] at hdrop
      exact List.cons.inj hdrop
    rw [hpwq, takeNext, if_pos (by exact hshort)]
    exact
      { custody := h.custody.take hheld
        taken := hlt
        queue := hrest.symm
        held := by
          intro j
          show WritePath.queueFrame _ j = (Function.update t.custody.held i (some t.custody.taken) j).bind _
          rw [WritePath.queueFrame_setCoroutine_write]
          by_cases hj : j = i
          · rw [if_pos hj, hj, Function.update_self, Option.bind_some, ← hdata]
            exact (List.getElem?_eq_getElem hlt).symm
          · rw [if_neg hj, Function.update_of_ne hj]
            exact h.held j
        fresh := fresh_setCoroutine (s := { t.path with writeQueue := queue }) h.fresh hi _
        completed := h.completed }
  · have hsame : ¬ (t.path.processWriteQueue i).writeQueue.length < t.path.writeQueue.length := by
      rw [hpwq]
      exact lt_irrefl _
    rw [takeNext, if_neg hsame]
    refine h.same (by rw [hpwq]; rfl) (by rw [hpwq]; rfl) (by rw [hpwq]; rfl) (fun j => ?_) ?_
    · rw [hpwq, WritePath.queueFrame_setCoroutine_none]
      split_ifs with hj
      · rw [hj, hnone]
      · rfl
    · rw [hpwq]
      exact fresh_setCoroutine (s := { t.path with writeInProgress := false }) h.fresh hi none

theorem Placed.sendMessage {t : Dispatcher} (h : t.Placed) (m : Outgoing) : (t.write (.sendMessage m)).Placed := by
  show ({ t with path := t.path.sendMessage m } : Dispatcher).Placed
  by_cases hlogs : m.message.Logs t.path.logging
  swap
  · rw [WritePath.sendMessage_unlogged hlogs]
    exact h
  have hqueued : ({ t with path := { t.path with
      writeQueue := t.path.writeQueue ++ [m.encoded]
      sent := t.path.sent ++ [m] } } : Dispatcher).Placed := by
    have hframes : (t.path.sent ++ [m]).map Outgoing.encoded = t.frames ++ [m.encoded] := by simp [frames]
    have hget : ∀ k, k < t.custody.taken → (t.frames ++ [m.encoded])[k]? = t.frames[k]? := fun k hk =>
      List.getElem?_append_left (lt_of_lt_of_le hk h.taken)
    refine ⟨h.custody, ?_, ?_, fun i => ?_, h.fresh, ?_⟩
    · rw [frames, hframes, List.length_append]
      exact Nat.le_add_right_of_le h.taken
    · rw [frames, hframes, List.drop_append_of_le_length h.taken, ← h.queue]
    · rw [frames, hframes]
      refine (h.held i).trans ?_
      rcases hk : t.custody.held i with _ | k
      · rfl
      · exact (hget k (h.custody.held_lt hk)).symm
    · rw [frames, hframes]
      refine h.completed.trans (List.map_congr_left fun k hk => ?_)
      exact (hget k ((h.custody.placed k).2 (Or.inl hk))).symm
  rcases hflag : t.path.writeInProgress with _ | _
  · rw [WritePath.sendMessage_spawned hlogs hflag]
    refine hqueued.same rfl rfl rfl (fun j => ?_) fun j hj => ?_
    · exact WritePath.queueFrame_spawn (by exact h.fresh _ le_rfl) (by simp) j
    · have hne : j ≠ t.path.spawned := by
        have hj' : t.path.spawned + 1 ≤ j := hj
        omega
      simp only [WritePath.spawn, Function.update_of_ne hne]
      exact h.fresh j (by have hj' : t.path.spawned + 1 ≤ j := hj; omega)
  · rw [WritePath.sendMessage_queued hlogs hflag]
    exact hqueued

theorem Placed.writeMessage {t : Dispatcher} (h : t.Placed) (m : Outgoing) : (t.write (.writeMessage m)).Placed := by
  show ({ t with path := t.path.writeMessage m } : Dispatcher).Placed
  rw [WritePath.writeMessage]
  split_ifs with hlogs
  · refine h.same rfl rfl rfl (fun j => ?_) fun j hj => ?_
    · refine WritePath.queueFrame_spawn (h.fresh _ le_rfl) (fun w hw => ?_) j
      cases hw
      rfl
    · have hj' : t.path.spawned + 1 ≤ j := hj
      have hne : j ≠ t.path.spawned := by omega
      simp only [WritePath.spawn, Function.update_of_ne hne]
      exact h.fresh j (by omega)
  · exact h

theorem Placed.begin {t : Dispatcher} (h : t.Placed) (i : ℕ) : (t.write (.begin i)).Placed := by
  rw [write, track, WritePath.step]
  split_ifs with hi
  · have hnone : t.path.queueFrame i = none := by
      simp [WritePath.queueFrame, WritePath.pending, hi, Coroutine.pendingWrite]
    exact h.processWriteQueue (WritePath.lt_spawned h.fresh hi) (h.held_none hnone)
  · exact h

theorem Placed.put {t : Dispatcher} (h : t.Placed) (i n : ℕ) : (t.write (.put i n)).Placed := by
  show ({ t with path := t.path.step (.put i n) } : Dispatcher).Placed
  rw [WritePath.step]
  rcases hi : t.path.pending i with _ | w
  · exact h
  · have hlt := WritePath.lt_spawned h.fresh (WritePath.coroutine_of_pending hi)
    simp only
    split_ifs
    · refine h.same rfl rfl rfl (fun j => ?_) (fresh_setCoroutine (by exact h.fresh) (by exact hlt) _)
      rw [WritePath.queueFrame, WritePath.pending_put]
      split_ifs with hj
      · rw [hj, WritePath.queueFrame, hi]
        rfl
      · rfl
    · exact h

/-- the holder of a frame lets it go, and ends -/
theorem Placed.release {t : Dispatcher} (h : t.Placed) {i : ℕ} {w : PendingWrite} (hi : t.path.pending i = some w)
    (path : WritePath) (hsent : path.sent = t.path.sent) (hqueue : path.writeQueue = t.path.writeQueue)
    (hspawned : path.spawned = t.path.spawned) (hcoroutines : path.coroutines = t.path.coroutines)
    {custody : Custody} (hcustody : custody.Sound) (htaken : custody.taken = t.custody.taken)
    (hheld : custody.held = Function.update t.custody.held i none)
    (hcompleted : path.completed.map some = custody.finished.map fun k => t.frames[k]?) :
    ({ t with path := path.setCoroutine i none, custody := custody } : Dispatcher).Placed := by
  have hlt := WritePath.lt_spawned h.fresh (WritePath.coroutine_of_pending hi)
  have hframes : ({ t with path := path.setCoroutine i none, custody := custody } : Dispatcher).frames = t.frames := by
    show path.sent.map Outgoing.encoded = t.frames
    rw [hsent, frames]
  refine ⟨hcustody, ?_, ?_, fun j => ?_, fresh_setCoroutine ?_ (hspawned ▸ hlt) none, ?_⟩
  · rw [hframes, htaken]
    exact h.taken
  · rw [hframes, htaken]
    exact hqueue.trans h.queue
  · rw [hframes, hheld, WritePath.queueFrame_setCoroutine_none]
    by_cases hj : j = i
    · rw [if_pos hj, hj, Function.update_self]
      rfl
    · have hsame : path.queueFrame j = t.path.queueFrame j := by
        rw [WritePath.queueFrame, WritePath.pending, hcoroutines]
        rfl
      rw [if_neg hj, Function.update_of_ne hj]
      exact hsame.trans (h.held j)
  · intro j hj
    rw [hcoroutines]
    exact h.fresh j (hspawned ▸ hj)
  · rw [hframes]
    exact hcompleted

theorem Placed.fail {t : Dispatcher} (h : t.Placed) (i : ℕ) : (t.write (.fail i)).Placed := by
  rw [write, track, WritePath.step]
  rcases hi : t.path.pending i with _ | w
  · exact h
  · have hlost : ∀ flag, ({ t with
        path := { t.path with
          connected := false
          isOpen := Function.update t.path.isOpen t.path.socket false
          writeInProgress := flag }.setCoroutine i none
        custody := t.custody.lose i } : Dispatcher).Placed := fun flag =>
      h.release hi { t.path with
          connected := false
          isOpen := Function.update t.path.isOpen t.path.socket false
          writeInProgress := flag } rfl rfl rfl rfl (h.custody.lose i) rfl rfl h.completed
    simp only
    rw [WritePath.fail]
    simp only
    split_ifs
    · exact hlost false
    · exact hlost t.path.writeInProgress

/-- what was written in full is the frame the coroutine had -/
theorem Placed.finish {t : Dispatcher} (h : t.Placed) {i : ℕ} {w : PendingWrite} (hi : t.path.pending i = some w) :
    ({ t with
      path := { t.path with
        completed := t.path.completed ++ if w.queued then [w.frame] else [] }.setCoroutine i none
      custody := t.custody.finish i } : Dispatcher).Placed := by
  refine h.release hi
    { t.path with completed := t.path.completed ++ if w.queued then [w.frame] else [] } rfl rfl rfl rfl
    (h.custody.finish i) rfl rfl ?_
  show (t.path.completed ++ _).map some = (t.custody.finished ++ (t.custody.held i).toList).map _
  have hheld := h.held i
  rw [WritePath.queueFrame, hi, Option.bind_some] at hheld
  rw [List.map_append, List.map_append, h.completed]
  congr 1
  rcases hk : t.custody.held i with _ | k <;> rw [hk] at hheld
  · split_ifs at hheld ⊢
    · exact absurd hheld (by simp)
    · rfl
  · have hlt := lt_of_lt_of_le (h.custody.held_lt hk) h.taken
    rw [Option.bind_some, List.getElem?_eq_getElem hlt] at hheld
    split_ifs at hheld ⊢
    simp only [Option.toList_some, List.map_cons, List.map_nil, List.getElem?_eq_getElem hlt, hheld]

theorem Placed.complete {t : Dispatcher} (h : t.Placed) (i : ℕ) : (t.write (.complete i)).Placed := by
  rw [write, track, WritePath.step]
  rcases hi : t.path.pending i with _ | w
  · exact h
  · have hlt := WritePath.lt_spawned h.fresh (WritePath.coroutine_of_pending hi)
    have hdone := h.finish hi
    simp only
    split_ifs with hwritten
    · rw [WritePath.complete]
      split_ifs with hq
      · rw [if_pos hq] at hdone
        have hnext := hdone.processWriteQueue (i := i) hlt (by simp [Custody.finish])
        rw [WritePath.processWriteQueue_setCoroutine] at hnext
        exact hnext
      · rw [if_neg hq, List.append_nil] at hdone
        rw [takeNext, if_neg (by exact lt_irrefl _)]
        exact hdone
    · exact h

/-- **One event of the write path.** -/
theorem Placed.write {t : Dispatcher} (h : t.Placed) (e : WritePath.WriteEvent) : (t.write e).Placed := by
  cases e with
  | sendMessage m => exact h.sendMessage m
  | writeMessage m => exact h.writeMessage m
  | begin i => exact h.begin i
  | put i n => exact h.put i n
  | complete i => exact h.complete i
  | fail i => exact h.fail i
  | lost => exact h.same rfl rfl rfl (fun _ => rfl) h.fresh
  | connect =>
    show ({ t with path := t.path.step .connect } : Dispatcher).Placed
    rw [WritePath.step]
    split_ifs
    · exact h
    · exact h.same rfl rfl rfl (fun _ => rfl) h.fresh
  | authenticated => exact h.same rfl rfl rfl (fun _ => rfl) h.fresh

/-- the frames do not depend on the continuations -/
theorem Placed.continuations {t : Dispatcher} (h : t.Placed) (continuations started : List ℕ) :
    ({ t with continuations := continuations, started := started } : Dispatcher).Placed where
  custody := h.custody
  taken := h.taken
  queue := h.queue
  held := h.held
  fresh := h.fresh
  completed := h.completed

/-- what a response does to the rest: it is queued, or nothing happens -/
theorem respond_eq (t : Dispatcher) (resource : Resource) (request : IotmpMessage) (order : FieldOrder) :
    t.respond resource request order = t ∨
      ∃ m continuations, t.respond resource request order =
        { t.write (.sendMessage m) with continuations := continuations } := by
  rw [respond]
  rcases resource.runResource request (.withStreamId request.getStreamId .ok) with ran | _
  · simp only
    generalize ran.response.setMessageType (if ran.success then .ok else .error) = response
    split_ifs
    · exact Or.inr ⟨order.outgoing response, _, rfl⟩
    · exact Or.inr ⟨order.outgoing response, t.continuations, rfl⟩
  · exact Or.inl rfl

/-- **One event.** -/
theorem Placed.step {t : Dispatcher} (h : t.Placed) (e : DispatchEvent) : (t.step e).Placed := by
  cases e with
  | write e => exact h.write e
  | respond resource request order =>
    rcases t.respond_eq resource request order with hr | ⟨m, continuations, hr⟩
    · rw [Dispatcher.step, hr]
      exact h
    · rw [Dispatcher.step, hr]
      exact (h.sendMessage m).continuations continuations t.started
  | start k =>
    rw [Dispatcher.step, Dispatcher.start]
    split_ifs
    · exact h.continuations _ _
    · exact h

/-- written frames stay written -/
theorem track_finished (t : Dispatcher) (e : WritePath.WriteEvent) : t.custody.finished <+: (t.track e).finished := by
  have htake : ∀ path i c, t.custody.finished <+: c.finished →
      t.custody.finished <+: (t.takeNext path i c).finished := by
    intro path i c hc
    rw [takeNext]
    split_ifs
    · exact hc
    · exact hc
  cases e with
  | begin i =>
    rw [track]
    split_ifs
    · exact htake _ _ _ List.prefix_rfl
    · exact List.prefix_rfl
  | complete i =>
    rw [track]
    rcases t.path.pending i with _ | w
    · exact List.prefix_rfl
    · simp only
      split_ifs
      · exact htake _ _ _ (List.prefix_append _ _)
      · exact List.prefix_rfl
  | fail i =>
    rw [track]
    rcases t.path.pending i with _ | w
    · exact List.prefix_rfl
    · exact List.prefix_rfl
  | _ => exact List.prefix_rfl

/-- an event that starts nothing keeps what was acknowledged -/
theorem Acknowledged.of_finished {t t' : Dispatcher} (h : t.Acknowledged) (hstarted : t'.started = t.started)
    (hfinished : t.custody.finished <+: t'.custody.finished) : t'.Acknowledged := by
  intro k hk
  exact hfinished.subset (h k (hstarted ▸ hk))

theorem Acknowledged.write {t : Dispatcher} (h : t.Acknowledged) (e : WritePath.WriteEvent) :
    (t.write e).Acknowledged := h.of_finished rfl (t.track_finished e)

/-- **One event keeps the order** exactly if a continuation that starts has its response written. -/
theorem acknowledged_step_iff {t : Dispatcher} (hp : t.Placed) (h : t.Acknowledged) (e : DispatchEvent) :
    (t.step e).Acknowledged ↔ t.Timely e := by
  cases e with
  | write e => exact iff_of_true (h.write e) trivial
  | respond resource request order =>
    refine iff_of_true ?_ trivial
    rcases t.respond_eq resource request order with hr | ⟨m, continuations, hr⟩
    · rw [step, hr]
      exact h
    · rw [step, hr]
      exact (h.write (.sendMessage m)).of_finished rfl List.prefix_rfl
  | start k =>
    rw [step, start, Timely, ← hp.custody.finished_iff k]
    split_ifs with hk
    · refine ⟨fun hs _ => hs k (by simp), fun hw k' hk' => ?_⟩
      rcases List.mem_append.1 hk' with hk' | hk'
      · exact h k' hk'
      · rw [List.mem_singleton.1 hk']
        exact hw hk
    · exact ⟨fun _ hk' => absurd hk' hk, fun _ => h⟩

/-- a continuation that the pool starts at once is too early, whatever the queue and the coroutines do -/
theorem at_once_not_timely {t : Dispatcher} (hp : t.Placed) (resource : Resource) (request : IotmpMessage)
    (order : FieldOrder) (hk : t.path.sent.length ∈ (t.respond resource request order).continuations) :
    ¬ (t.respond resource request order).Timely (.start t.path.sent.length) := by
  intro ht
  have hlt := (ht hk).1
  have htaken : (t.respond resource request order).custody.taken = t.custody.taken := by
    rcases t.respond_eq resource request order with hr | ⟨m, continuations, hr⟩
    · rw [hr]
    · rw [hr]
      rfl
  have hle := hp.taken
  rw [frames, List.length_map] at hle
  omega

/-! ## Runs -/

/-- a client before its first connection -/
def init (logging : Bool) : Dispatcher where
  path := { logging := logging }

theorem placed_init (logging : Bool) : (init logging).Placed where
  custody := Custody.sound_init
  taken := Nat.zero_le _
  queue := rfl
  held _ := rfl
  fresh _ _ := rfl
  completed := rfl

/-- **after_response.** In every run each frame that was sent is at one place; every continuation starts after the
complete response was written exactly if, when the pool starts it, the response has left the queue, no coroutine waits
for its write, and its write has not failed. -/
theorem acknowledged_iff (logging : Bool) (events : List DispatchEvent) :
    (run (init logging) events).Placed ∧
      ((∀ events', events' <+: events → (run (init logging) events').Acknowledged) ↔
        Run.Steps step Timely (init logging) events) := by
  refine ⟨Run.always (fun _ e h => h.step e) _ events (placed_init logging), ?_⟩
  apply Run.always_iff_steps (I := Placed)
  · exact fun t e hp => hp.step e
  · exact fun t e hp h => acknowledged_step_iff hp h e
  · exact placed_init logging
  · exact fun k hk => absurd hk (by simp [init])

/-- a handler that registers a continuation -/
def rebooting : Resource where
  callback := .output fun out => .returns { out with afterResponse := true }

theorem entries_perm (m : IotmpMessage) : m.fields.entries.Perm m.fields.entries := List.Perm.refl _

def entries : FieldOrder := ⟨fun m => m.fields.entries, entries_perm⟩

/-- **The continuation starts while the response is still in the queue.** -/
theorem starts_before_response :
    ¬ (run (init true) [.write .connect, .write .authenticated,
      .respond rebooting (.withStreamId 7 .run) entries, .start 0]).Acknowledged := by
  intro h
  exact absurd (h 0 (by decide)) (by decide)

end Dispatcher

end Iotmp
