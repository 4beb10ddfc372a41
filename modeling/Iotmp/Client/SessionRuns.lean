/-
Runs of START_STREAM, STOP_STREAM, session starts and session ends.

A session is running from the moment its start succeeded until it is told to stop or its object ends. `Inv` says what
the manager intends: one active session per stream id, the running ones exactly those in `sessions_`, and the stream
table leading a STOP_STREAM to each of them.

- `Inv.step`: every event keeps it, if no START_STREAM or STOP_STREAM for an id arrives while a start for that id is
  pending, and no START_STREAM moves the id of an active session to another resource (`Orderly`).
- `stop_takes_effect`: in every run of orderly events, a STOP_STREAM leaves no earlier session of its id inserted or
  running, ever after, and no id has two running sessions.
Witness: `orderly_stop`. Counterexample: `stop_while_starting`.
- `ends_harmless_iff`: over every run, each end of a session leaves the others alone iff each time the listener's lookup
  finds nothing, or the ended session itself while no other session is active on its id.
Counterexample: `late_end_stops_successor`.
-/
import Mathlib.Tactic
import Iotmp.Client.Sessions

namespace Iotmp

namespace Session

/-- started, not told to stop, and not ended -/
def Running (o : Session) : Prop := o.phase = .started ∧ o.alive = true ∧ o.stopped = false

/-- starting or running -/
def Active (o : Session) : Prop := o.phase = .starting ∨ o.Running

instance (o : Session) : Decidable o.Running := inferInstanceAs (Decidable (_ ∧ _ ∧ _))

instance (o : Session) : Decidable o.Active := inferInstanceAs (Decidable (_ ∨ _))

end Session

namespace Client

/-! ## The invariant -/

structure Inv (c : Client) : Prop where
  unique : ∀ (i j : ℕ) (o p : Session), c.objects[i]? = some o → c.objects[j]? = some p → o.Active → p.Active →
    o.streamId = p.streamId → i = j
  entry : ∀ m streamId i, c.sessions m streamId = some i →
    ∃ o, c.objects[i]? = some o ∧ o.manager = m ∧ o.streamId = streamId ∧ o.Running
  running : ∀ (i : ℕ) (o : Session), c.objects[i]? = some o → o.Running → c.sessions o.manager o.streamId = some i
  stream : ∀ (i : ℕ) (o : Session), c.objects[i]? = some o → o.Active →
    ∃ config ref, c.streams.get o.streamId = some config ∧ config.resource = some ref ∧
      c.handlerOf ref = some (some o.manager)
  starting : ∀ (i : ℕ) (o : Session), c.objects[i]? = some o → o.phase = .starting → o.alive = true ∧ o.stopped = false
  listener : ∀ (i : ℕ) (o : Session), c.objects[i]? = some o → o.phase = .started → o.onEnd = true

/-- no session object yet -/
def Fresh (c : Client) : Prop := c.objects = [] ∧ ∀ m streamId, c.sessions m streamId = none

theorem Fresh.inv {c : Client} (h : c.Fresh) : c.Inv := by
  obtain ⟨ho, hs⟩ := h
  have hnone : ∀ (i : ℕ) (o : Session), c.objects[i]? = some o → False := fun i o hi => by simp [ho] at hi
  have hentry : ∀ m s i, c.sessions m s = some i → False := fun m s i hi => by rw [hs] at hi; cases hi
  exact ⟨fun i _ o _ hi => (hnone i o hi).elim, fun m s i hi => (hentry m s i hi).elim,
    fun i o hi => (hnone i o hi).elim, fun i o hi => (hnone i o hi).elim, fun i o hi => (hnone i o hi).elim,
    fun i o hi => (hnone i o hi).elim⟩

theorem SameTables.inv {c c' : Client} (h : SameTables c c') (hi : c.Inv) : c'.Inv := by
  obtain ⟨ho, hs, hst, hh⟩ := h
  obtain ⟨h1, h2, h3, h4, h5, h6⟩ := hi
  constructor <;> simp only [ho, hs, hst, hh] <;> assumption

/-! ## Table operations that keep it -/

/-- a session stops being active, and its entry goes -/
theorem Inv.deactivate {c c' : Client} (hi : c.Inv) {i : ℕ} {f : Session → Session}
    (hobjects : c'.objects = c.objects.modify i f) (hstreams : c'.streams = c.streams)
    (hhandler : c'.handlerOf = c.handlerOf)
    (hsessions : ∀ m s, c'.sessions m s = if c.sessions m s = some i then none else c.sessions m s)
    (hf : ∀ o : Session, c.objects[i]? = some o → ¬ (f o).Active)
    (hl : ∀ o : Session, c.objects[i]? = some o → (f o).phase = .started → (f o).onEnd = true) : c'.Inv := by
  -- an object of the new table is an old one, or the inactive one
  have hget : ∀ (j : ℕ) (o : Session), c'.objects[j]? = some o → (j ≠ i ∧ c.objects[j]? = some o) ∨
      (j = i ∧ ¬ o.Active ∧ (o.phase = .started → o.onEnd = true)) := by
    intro j o hj
    rw [hobjects] at hj
    rcases modify_cases hj with hold | ⟨rfl, o', ho', rfl⟩
    · exact Or.inl hold
    · exact Or.inr ⟨rfl, hf o' ho', hl o' ho'⟩
  have hactive : ∀ (j : ℕ) (o : Session), c'.objects[j]? = some o → o.Active → j ≠ i ∧ c.objects[j]? = some o := by
    intro j o hj ha
    rcases hget j o hj with h | ⟨-, hna, -⟩
    · exact h
    · exact absurd ha hna
  have hold : ∀ (j : ℕ) (o : Session), j ≠ i → c.objects[j]? = some o → c'.objects[j]? = some o := by
    intro j o hji hj
    rw [hobjects, List.getElem?_modify, hj]
    simp [Ne.symm hji]
  constructor
  · intro j k o p hj hk ha hb hid
    exact hi.unique j k o p (hactive j o hj ha).2 (hactive k p hk hb).2 ha hb hid
  · intro m s j hj
    rw [hsessions] at hj
    split_ifs at hj with h
    obtain ⟨o, ho, hm, hs, hr⟩ := hi.entry m s j hj
    exact ⟨o, hold j o (fun hji => h (hji ▸ hj)) ho, hm, hs, hr⟩
  · intro j o hj hr
    obtain ⟨hji, hj'⟩ := hactive j o hj (Or.inr hr)
    have he := hi.running j o hj' hr
    rw [hsessions, he, if_neg fun h => hji (Option.some.inj h)]
  · intro j o hj ha
    rw [hstreams, hhandler]
    exact hi.stream j o (hactive j o hj ha).2 ha
  · intro j o hj hp
    exact hi.starting j o (hactive j o hj (Or.inl hp)).2 hp
  · intro j o hj hp
    rcases hget j o hj with ⟨-, hj'⟩ | ⟨-, -, h⟩
    · exact hi.listener j o hj' hp
    · exact h hp

/-- the entry of a session is under its own manager and id only -/
theorem Inv.setSession_none {c : Client} (hi : c.Inv) {m : ManagerId} {streamId : UInt16} {i : ℕ}
    (h : c.sessions m streamId = some i) (m' : ManagerId) (s' : UInt16) :
    (c.setSession m streamId none).sessions m' s' = if c.sessions m' s' = some i then none else c.sessions m' s' := by
  obtain ⟨o, ho, hm, hs, -⟩ := hi.entry m streamId i h
  simp only [setSession, Function.update_apply]
  by_cases hm' : m' = m
  · subst hm'
    by_cases hs' : s' = streamId
    · subst hs'; simp [h]
    · have hne : c.sessions m' s' ≠ some i := by
        intro h'
        obtain ⟨o', ho', -, hs'', -⟩ := hi.entry m' s' i h'
        rw [ho] at ho'
        exact hs' (hs''.symm.trans (Option.some.inj ho' ▸ hs))
      simp [hs', hne]
  · have hne : c.sessions m' s' ≠ some i := by
      intro h'
      obtain ⟨o', ho', hm'', -, -⟩ := hi.entry m' s' i h'
      rw [ho] at ho'
      exact hm' (hm''.symm.trans (Option.some.inj ho' ▸ hm))
    simp [hm', hne]

/-- a session without an entry -/
theorem Inv.no_entry {c : Client} (hi : c.Inv) {i : ℕ} {o : Session} (ho : c.objects[i]? = some o) (hr : ¬ o.Running)
    (m : ManagerId) (s : UInt16) : c.sessions m s ≠ some i := by
  intro h
  obtain ⟨o', ho', -, -, hr'⟩ := hi.entry m s i h
  rw [ho] at ho'
  exact hr (Option.some.inj ho' ▸ hr')

/-- `streams_[id]` is pointed to a resource whose manager owns whatever is active under the id -/
theorem Inv.setStream {c : Client} (hi : c.Inv) {streamId : UInt16} {config : StreamConfig} {ref : ResourceRef}
    (hc : config.resource = some ref)
    (h : ∀ (i : ℕ) (o : Session), c.objects[i]? = some o → o.Active → o.streamId = streamId →
      c.handlerOf ref = some (some o.manager)) : (c.setStream streamId config).Inv := by
  refine ⟨hi.unique, hi.entry, hi.running, fun i o ho ha => ?_, hi.starting, hi.listener⟩
  show ∃ config' ref', (c.streams.set streamId config).get o.streamId = some config' ∧ _
  rw [SortedMap.get_set]
  split_ifs with hid
  · exact ⟨config, ref, rfl, hc, h i o ho ha hid⟩
  · exact hi.stream i o ho ha

/-- `streams_.erase(id)` when nothing is active under the id -/
theorem Inv.eraseStream {c : Client} (hi : c.Inv) {streamId : UInt16}
    (h : ∀ (i : ℕ) (o : Session), c.objects[i]? = some o → o.Active → o.streamId ≠ streamId) :
    (c.eraseStream streamId).Inv := by
  refine ⟨hi.unique, hi.entry, hi.running, fun i o ho ha => ?_, hi.starting, hi.listener⟩
  show ∃ config' ref', (c.streams.remove streamId).get o.streamId = some config' ∧ _
  rw [SortedMap.get_remove, if_neg (h i o ho ha)]
  exact hi.stream i o ho ha

/-- a new session under an id that nothing is active under, its stream already pointing to its manager's resource -/
theorem Inv.create {c : Client} (hi : c.Inv) {streamId : UInt16} {m : ManagerId} {config : StreamConfig}
    {ref : ResourceRef} (hs : c.streams.get streamId = some config) (hc : config.resource = some ref)
    (hh : c.handlerOf ref = some (some m))
    (hfree : ∀ (i : ℕ) (o : Session), c.objects[i]? = some o → o.Active → o.streamId ≠ streamId) :
    Inv { c with objects := c.objects ++ [{ streamId := streamId, manager := m, resource := ref }] } := by
  -- an object of the new table is an old one, or the new one
  have hget : ∀ (j : ℕ) (o : Session),
      (c.objects ++ [{ streamId := streamId, manager := m, resource := ref }])[j]? = some o →
        c.objects[j]? = some o ∨
          (j = c.objects.length ∧ o = { streamId := streamId, manager := m, resource := ref }) := by
    intro j o hj
    rcases lt_trichotomy j c.objects.length with h | h | h
    · exact Or.inl (by rwa [List.getElem?_append_left h] at hj)
    · subst h
      rw [List.getElem?_concat_length] at hj
      exact Or.inr ⟨rfl, (Option.some.inj hj).symm⟩
    · rw [List.getElem?_append_right h.le, List.getElem?_eq_none (by simp; omega)] at hj
      cases hj
  have hold : ∀ (j : ℕ) (o : Session), c.objects[j]? = some o →
      (c.objects ++ [{ streamId := streamId, manager := m, resource := ref }])[j]? = some o := by
    intro j o hj
    rw [List.getElem?_append_left (List.getElem?_eq_some_iff.1 hj).1, hj]
  constructor
  · intro j k o p hj hk ha hb hid
    rcases hget j o hj with hj | ⟨rfl, rfl⟩ <;> rcases hget k p hk with hk | ⟨rfl, rfl⟩
    · exact hi.unique j k o p hj hk ha hb hid
    · exact absurd hid (hfree j o hj ha)
    · exact absurd hid.symm (hfree k p hk hb)
    · rfl
  · intro m' s j hj
    obtain ⟨o, ho, h⟩ := hi.entry m' s j hj
    exact ⟨o, hold j o ho, h⟩
  · intro j o hj hr
    rcases hget j o hj with hj | ⟨rfl, rfl⟩
    · exact hi.running j o hj hr
    · exact absurd hr.1 (by simp)
  · intro j o hj ha
    rcases hget j o hj with hj | ⟨rfl, rfl⟩
    · exact hi.stream j o hj ha
    · exact ⟨config, ref, hs, hc, hh⟩
  · intro j o hj hp
    rcases hget j o hj with hj | ⟨rfl, rfl⟩
    · exact hi.starting j o hj hp
    · exact ⟨rfl, rfl⟩
  · intro j o hj hp
    rcases hget j o hj with hj | ⟨rfl, rfl⟩
    · exact hi.listener j o hj hp
    · exact absurd hp (by simp)

/-- a starting session has no entry under its id yet: that would be a second active session -/
theorem Inv.starting_no_entry {c : Client} (hi : c.Inv) {i : ℕ} {o : Session} (ho : c.objects[i]? = some o)
    (hp : o.phase = .starting) : c.sessions o.manager o.streamId = none := by
  rcases h : c.sessions o.manager o.streamId with _ | j
  · rfl
  · obtain ⟨p, hj, -, hid, hr⟩ := hi.entry _ _ _ h
    obtain rfl := hi.unique i j o p ho hj (Or.inl hp) (Or.inr hr) hid.symm
    rw [ho] at hj
    exact absurd ((Option.some.inj hj ▸ hr).1) (by simp [hp])

theorem registerSession_sessions {c : Client} {o : Session} (h : c.sessions o.manager o.streamId = none) (i : ℕ)
    (m : ManagerId) (s : UInt16) :
    (c.registerSession i o).sessions m s = if m = o.manager ∧ s = o.streamId then some i else c.sessions m s := by
  simp only [registerSession, h, Option.isSome_none, Bool.false_eq_true, if_false, modifySession, setSession,
    Function.update_apply]
  by_cases hm : m = o.manager
  · subst hm
    by_cases hs : s = o.streamId
    · simp [hs]
    · simp [hs]
  · simp [hm]

/-- a starting session is inserted and starts to run -/
theorem Inv.register {c : Client} (hi : c.Inv) {i : ℕ} {o : Session} (ho : c.objects[i]? = some o)
    (hp : o.phase = .starting) : (c.registerSession i o).Inv := by
  obtain ⟨halive, hstopped⟩ := hi.starting i o ho hp
  have hnone := hi.starting_no_entry ho hp
  have hsessions := registerSession_sessions hnone i
  obtain ⟨sessions, heq⟩ := registerSession_eq c i o
  have hframe : (c.registerSession i o).streams = c.streams ∧ (c.registerSession i o).handlerOf = c.handlerOf := by
    rw [heq]
    exact ⟨rfl, rfl⟩
  have hobjects : (c.registerSession i o).objects =
      c.objects.modify i fun o => { o with phase := .started, onEnd := true } := by
    rw [heq]
  have hget : ∀ (j : ℕ) (p : Session), (c.registerSession i o).objects[j]? = some p →
      (j ≠ i ∧ c.objects[j]? = some p) ∨ (j = i ∧ p = { o with phase := .started, onEnd := true }) := by
    intro j p hj
    rw [hobjects] at hj
    rcases modify_cases hj with hold | ⟨rfl, o', ho', rfl⟩
    · exact Or.inl hold
    · obtain rfl := Option.some.inj (ho.symm.trans ho')
      exact Or.inr ⟨rfl, rfl⟩
  have hold : ∀ (j : ℕ) (p : Session), j ≠ i → c.objects[j]? = some p →
      (c.registerSession i o).objects[j]? = some p := by
    intro j p hji hj
    rw [hobjects, List.getElem?_modify_ne _ _ hji.symm]
    exact hj
  have hself : (c.registerSession i o).objects[i]? = some { o with phase := .started, onEnd := true } := by
    rw [hobjects, List.getElem?_modify_eq, ho]
    rfl
  constructor
  · intro j k p q hj hk ha hb hid
    rcases hget j p hj with ⟨-, hj'⟩ | ⟨rfl, rfl⟩ <;> rcases hget k q hk with ⟨-, hk'⟩ | ⟨rfl, rfl⟩
    · exact hi.unique j k p q hj' hk' ha hb hid
    · exact hi.unique j _ p o hj' ho ha (Or.inl hp) hid
    · exact hi.unique _ k o q ho hk' (Or.inl hp) hb hid
    · rfl
  · intro m s j hj
    rw [hsessions] at hj
    split_ifs at hj with h
    · obtain rfl := Option.some.inj hj
      exact ⟨_, hself, h.1.symm, h.2.symm, rfl, halive, hstopped⟩
    · obtain ⟨p, hj', hm, hs, hr⟩ := hi.entry m s j hj
      refine ⟨p, hold j p (fun hji => ?_) hj', hm, hs, hr⟩
      rw [hji, ho] at hj'
      exact absurd ((Option.some.inj hj' ▸ hr).1) (by simp [hp])
  · intro j p hj hr
    rw [hsessions]
    rcases hget j p hj with ⟨hji, hj⟩ | ⟨rfl, rfl⟩
    · have he := hi.running j p hj hr
      have hne : ¬ (p.manager = o.manager ∧ p.streamId = o.streamId) := fun h => by
        rw [h.1, h.2, hnone] at he
        cases he
      rw [if_neg hne, he]
    · exact if_pos ⟨rfl, rfl⟩
  · intro j p hj ha
    rw [hframe.1, hframe.2]
    rcases hget j p hj with ⟨-, hj⟩ | ⟨rfl, rfl⟩
    · exact hi.stream j p hj ha
    · exact hi.stream _ o ho (Or.inl hp)
  · intro j p hj hp'
    rcases hget j p hj with ⟨-, hj⟩ | ⟨rfl, rfl⟩
    · exact hi.starting j p hj hp'
    · exact absurd hp' (by simp)
  · intro j p hj hp'
    rcases hget j p hj with ⟨-, hj⟩ | ⟨rfl, rfl⟩
    · exact hi.listener j p hj hp'
    · rfl

theorem isAlive_eq {c : Client} {i : ℕ} {o : Session} (ho : c.objects[i]? = some o) : c.isAlive i = o.alive := by
  rw [isAlive, ho]; rfl

/-- the session under an id is taken out of the table and told to stop -/
theorem Inv.entryStopped {c : Client} (hi : c.Inv) {m : ManagerId} {streamId : UInt16} {i : ℕ}
    (h : c.sessions m streamId = some i) : (c.entryStopped m streamId i (.returns ())).Inv := by
  obtain ⟨o, ho, -, -, hr⟩ := hi.entry m streamId i h
  have heq : c.entryStopped m streamId i (.returns ()) =
      (c.setSession m streamId none).modifySession i fun o => { o with stopped := true } := by
    unfold Client.entryStopped
    rw [isAlive_eq ho, hr.2.1]
  rw [heq]
  refine hi.deactivate (i := i) (f := fun o => { o with stopped := true }) rfl rfl rfl
    (fun m' s' => hi.setSession_none h m' s') (fun o' ho' => ?_) fun o' ho' hp => hi.listener i o' ho' hp
  rw [ho] at ho'
  obtain rfl := Option.some.inj ho'
  rintro (hp | ⟨-, -, hs⟩)
  · exact absurd (hr.1.symm.trans hp) (by simp)
  · exact absurd hs (by simp)

/-- a session that is neither starting nor running ends -/
theorem Inv.end_inactive {c : Client} (hi : c.Inv) {i : ℕ} {o : Session} (ho : c.objects[i]? = some o)
    (ha : ¬ o.Active) : (c.modifySession i fun o => { o with alive := false }).Inv := by
  refine hi.deactivate (i := i) (f := fun o => { o with alive := false }) rfl rfl rfl (fun m s => ?_)
    (fun o' ho' => ?_) fun o' ho' hp => hi.listener i o' ho' hp
  · rw [if_neg (hi.no_entry ho (fun hr => ha (Or.inr hr)) m s)]; rfl
  · rw [ho] at ho'
    obtain rfl := Option.some.inj ho'
    rintro (hp | ⟨-, hal, -⟩)
    · exact ha (Or.inl hp)
    · exact absurd hal (by simp)

/-! ## Every event keeps it -/

/-- No START_STREAM to a resource arrives for an id under which a session is starting, unless the request makes no
session of its own, or for the id of an active session of another manager. No STOP_STREAM arrives for an id under which
a session is starting, and `session->stop()` returns. -/
def Orderly (c : Client) : SessionOp → Prop
  | .start request create =>
    ∀ target ∈ c.target (request.setMessageType .startStream), ∀ o ∈ c.objects, o.streamId = request.getStreamId →
      o.Active → target.2.streamHandler = some o.manager ∧ (o.phase = .starting → create ≠ .returns true)
  | .stop request stop =>
    ∀ o ∈ c.objects, o.streamId = request.getStreamId → o.phase ≠ .starting ∧ (o.Running → stop = .returns ())
  | .finish _ _ => True
  | .release _ => True

theorem Inv.step_start {c : Client} (hi : c.Inv) (request : IotmpMessage) (create : Call Bool)
    (ho : c.Orderly (.start request create)) : (step c (.start request create)).Inv := by
  rcases ht : c.target (request.setMessageType .startStream) with _ | ⟨ref, r⟩
  · exact (start_same c request create ht).inv hi
  · have hown : ∀ (i : ℕ) (o : Session), c.objects[i]? = some o → o.Active → o.streamId = request.getStreamId →
        r.streamHandler = some o.manager ∧ (o.phase = .starting → create ≠ .returns true) :=
      fun i o hi' ha hid => ho (ref, r) ht o (List.mem_of_getElem? hi') hid ha
    have hhandler : c.handlerOf ref = some r.streamHandler := by
      obtain ⟨-, -, hd⟩ := target_eq_some.1 ht
      rw [handlerOf, hd]; rfl
    obtain ⟨config, hc, hcases⟩ := start_cases c request create ht
    have hset : (c.setStream request.getStreamId config).Inv :=
      hi.setStream hc fun i o hi' ha hid => by rw [hhandler, (hown i o hi' ha hid).1]
    rcases hcases with hsame | ⟨m, hm, hs, hcreate, hsame⟩
    · exact hsame.inv hset
    · refine hsame.inv (hset.create (SortedMap.get_set_self _ _ config) hc (by rw [← hm]; exact hhandler)
        fun i o hi' ha hid => ?_)
      -- an active session of this id is running under the same manager, which has no entry for it
      obtain ⟨hsame', hstarting⟩ := hown i o hi' ha hid
      rcases ha with hp | hr
      · exact hstarting hp hcreate
      · have he := hi.running i o hi' hr
        rw [hid, ← Option.some.inj (hm.symm.trans hsame'), hs] at he
        cases he

theorem entryStopped_eraseStream (c : Client) (streamId streamId' : UInt16) (m : ManagerId) (i : ℕ)
    (stop : Call Unit) :
    (c.eraseStream streamId).entryStopped m streamId' i stop =
      (c.entryStopped m streamId' i stop).eraseStream streamId := by
  have halive : (c.eraseStream streamId).isAlive i = c.isAlive i := rfl
  unfold Client.entryStopped
  rw [halive]
  split <;> rfl

/-- a STOP_STREAM for the id of a running session reaches it -/
theorem Inv.target_of_running {c : Client} (hi : c.Inv) {i : ℕ} {o : Session} (ho : c.objects[i]? = some o)
    (hr : o.Running) {request : IotmpMessage} (hid : o.streamId = request.getStreamId) :
    ∃ ref r, c.target (request.setMessageType .stopStream) = some (ref, r) ∧ r.streamHandler = some o.manager := by
  obtain ⟨config, ref, hs, hc, hh⟩ := hi.stream i o ho (Or.inr hr)
  obtain ⟨r, hd, hm⟩ : ∃ r, c.deref ref = some r ∧ r.streamHandler = some o.manager := by
    simpa [handlerOf] using hh
  refine ⟨ref, r, target_eq_some.2 ⟨request.setMessageType .stopStream, ?_, hd⟩, hm⟩
  rw [hid] at hs
  simp [resolve, hs, hc]

/-- after a STOP_STREAM nothing is active under its id, and the invariant holds -/
theorem Inv.step_stop {c : Client} (hi : c.Inv) (request : IotmpMessage) (stop : Call Unit)
    (ho : c.Orderly (.stop request stop)) :
    (step c (.stop request stop)).Inv ∧ ∀ (i : ℕ) (o : Session), (step c (.stop request stop)).objects[i]? = some o →
      o.Active → o.streamId ≠ request.getStreamId := by
  have hord : ∀ (i : ℕ) (o : Session), c.objects[i]? = some o → o.streamId = request.getStreamId →
      o.phase ≠ .starting ∧ (o.Running → stop = .returns ()) :=
    fun i o hi' hid => ho o (List.mem_of_getElem? hi') hid
  by_cases hrun : ∃ (i : ℕ) (o : Session), c.objects[i]? = some o ∧ o.streamId = request.getStreamId ∧ o.Running
  · obtain ⟨i, o, ho', hid, hr⟩ := hrun
    obtain ⟨ref, r, ht, hm⟩ := hi.target_of_running ho' hr hid
    have he := hi.running i o ho' hr
    rw [hid] at he
    obtain rfl := (hord i o ho' hid).2 hr
    rcases stop_cases c request (.returns ()) ht with ⟨hnone, -⟩ | ⟨m, j, hm', hs, hsame⟩
    · exact absurd (he.symm.trans (hnone o.manager hm)) (by simp)
    · obtain rfl := Option.some.inj (hm.symm.trans hm')
      obtain rfl : i = j := Option.some.inj (he.symm.trans hs)
      rw [entryStopped_eraseStream] at hsame
      have hstopped := hi.entryStopped hs
      -- an active session left under the id would have been active beside the stopped one
      have hfree : ∀ (k : ℕ) (p : Session),
          (c.entryStopped o.manager request.getStreamId i (.returns ())).objects[k]? = some p → p.Active →
            p.streamId ≠ request.getStreamId := by
        intro k p hk ha hpid
        have hobj : (c.entryStopped o.manager request.getStreamId i (.returns ())).objects =
            c.objects.modify i fun o => { o with stopped := true } := by
          unfold Client.entryStopped
          rw [isAlive_eq ho', hr.2.1]; rfl
        rw [hobj] at hk
        rcases modify_cases hk with ⟨hki, hk'⟩ | ⟨-, o', hko, rfl⟩
        · exact hki (hi.unique k i p o hk' ho' ha (Or.inr hr) (hpid.trans hid.symm))
        · obtain rfl := Option.some.inj (ho'.symm.trans hko)
          rcases ha with hp | ⟨-, -, hs'⟩
          · exact absurd (hr.1.symm.trans hp) (by simp)
          · exact absurd hs' (by simp)
      refine ⟨hsame.inv (hstopped.eraseStream hfree), fun k p hk => ?_⟩
      rw [hsame.objects] at hk
      exact hfree k p hk
  · have hfree : ∀ (k : ℕ) (p : Session), c.objects[k]? = some p → p.Active → p.streamId ≠ request.getStreamId := by
      intro k p hk ha hpid
      rcases ha with hp | hr
      · exact (hord k p hk hpid).1 hp
      · exact hrun ⟨k, p, hk, hpid, hr⟩
    rcases ht : c.target (request.setMessageType .stopStream) with _ | ⟨ref, r⟩
    · have hsame := stop_same c request stop ht
      exact ⟨hsame.inv hi, fun k p hk => hfree k p (hsame.objects ▸ hk)⟩
    · rcases stop_cases c request stop ht with ⟨-, hsame⟩ | ⟨m, j, -, hs, -⟩
      · exact ⟨hsame.inv (hi.eraseStream hfree), fun k p hk => hfree k p (hsame.objects ▸ hk)⟩
      · obtain ⟨o, ho', -, hid, hr⟩ := hi.entry m _ j hs
        exact absurd ⟨j, o, ho', hid, hr⟩ hrun

theorem Inv.step_finish {c : Client} (hi : c.Inv) (i : ℕ) (outcome : Call ExecResult) :
    (step c (.finish i outcome)).Inv := by
  simp only [step]
  split_ifs with hs
  · obtain ⟨o, ho, hp⟩ := hs
    rcases finish_cases c i o outcome ho with hsame | hsame
    · refine hsame.inv (hi.deactivate (i := i) (f := fun o => { o with phase := .failed }) rfl rfl rfl (fun m s => ?_)
        (fun o' _ => ?_) fun o' _ h => by cases h)
      · have hr : ¬ o.Running := fun hr => absurd (hr.1.symm.trans hp) (by simp)
        rw [if_neg (hi.no_entry ho hr m s)]; rfl
      · rintro (h | ⟨h, -⟩) <;> cases h
    · exact hsame.inv (hi.register ho hp)
  · exact hi

theorem Inv.step_release {c : Client} (hi : c.Inv) (i : ℕ) : (step c (.release i)).Inv := by
  simp only [step]
  split_ifs with hs
  · obtain ⟨o, ho, hp, -⟩ := hs
    rcases endSession_cases c i o ho with ⟨hend, hsame⟩ | ⟨j, hend, hj, hsame⟩
    · -- without listener or entry it was not running
      have hr : ¬ o.Running := fun hr => by
        rcases hend with h | h
        · rw [hi.listener i o ho hr.1] at h; cases h
        · rw [hi.running i o ho hr] at h; cases h
      exact hsame.inv (hi.end_inactive ho (fun ha => ha.elim hp hr))
    · by_cases hji : j = i
      · -- its own entry goes, and there is nobody to stop
        subst hji
        have hdead : (c.modifySession j fun o => { o with alive := false }).isAlive j = false := by
          simp [isAlive, modifySession, ho]
        have heq : (c.modifySession j fun o => { o with alive := false }).entryStopped o.manager o.streamId j
            (.returns ()) =
            (c.modifySession j fun o => { o with alive := false }).setSession o.manager o.streamId none := by
          unfold Client.entryStopped
          rw [hdead]
        rw [heq] at hsame
        refine hsame.inv (hi.deactivate (i := j) (f := fun o => { o with alive := false }) rfl rfl rfl
          (fun m s => hi.setSession_none hj m s) (fun o' ho' => ?_) fun o' ho' h => hi.listener j o' ho' h)
        rw [ho] at ho'
        obtain rfl := Option.some.inj ho'
        rintro (h | ⟨-, h, -⟩)
        · exact hp h
        · cases h
      · -- another session's entry: this one was not running, and that one is stopped
        have hr : ¬ o.Running := fun hr => hji (Option.some.inj (hj.symm.trans (hi.running i o ho hr)))
        exact hsame.inv ((hi.end_inactive ho (fun ha => ha.elim hp hr)).entryStopped hj)
  · exact hi

/-- **Every orderly event keeps the invariant.** -/
theorem Inv.step (c : Client) (op : SessionOp) (hi : c.Inv) (ho : c.Orderly op) : (step c op).Inv := by
  cases op with
  | start request create => exact hi.step_start request create ho
  | stop request stop => exact (hi.step_stop request stop ho).1
  | finish i outcome => exact hi.step_finish i outcome
  | release i => exact hi.step_release i

/-! ## Stopped for good -/

/-- session `i` belongs to the id and is not active -/
def InactiveAt (c : Client) (i : ℕ) (streamId : UInt16) : Prop :=
  ∃ o, c.objects[i]? = some o ∧ o.streamId = streamId ∧ ¬ o.Active

theorem InactiveAt.same {c c' : Client} {i : ℕ} {streamId : UInt16} (h : c.InactiveAt i streamId)
    (hs : SameTables c c') : c'.InactiveAt i streamId := by
  rw [InactiveAt, hs.objects]; exact h

/-- a change to a session that starts nothing -/
theorem InactiveAt.modify {c : Client} {i : ℕ} {streamId : UInt16} (h : c.InactiveAt i streamId) (j : ℕ)
    (f : Session → Session) (hf : j = i → ∀ o, (f o).streamId = o.streamId ∧ (¬ o.Active → ¬ (f o).Active)) :
    (c.modifySession j f).InactiveAt i streamId := by
  obtain ⟨o, ho, hid, ha⟩ := h
  have hget : (c.modifySession j f).objects[i]? = some (if j = i then f o else o) := by
    simp only [modifySession, List.getElem?_modify, ho]
    split_ifs <;> rfl
  refine ⟨_, hget, ?_⟩
  split_ifs with hji
  · exact ⟨(hf hji o).1.trans hid, (hf hji o).2 ha⟩
  · exact ⟨hid, ha⟩

theorem InactiveAt.entryStopped {c : Client} {i : ℕ} {streamId : UInt16} (h : c.InactiveAt i streamId) (m : ManagerId)
    (s : UInt16) (j : ℕ) (stop : Call Unit) : (c.entryStopped m s j stop).InactiveAt i streamId := by
  unfold Client.entryStopped
  split
  · exact InactiveAt.modify (c := c.setSession m s none) h j _ fun _ o =>
      ⟨rfl, fun ha hb => ha (hb.imp id fun hr => absurd hr.2.2 (by simp))⟩
  · exact h

/-- no event starts a session again -/
theorem InactiveAt.step {c : Client} {i : ℕ} {streamId : UInt16} (h : c.InactiveAt i streamId) (op : SessionOp) :
    (step c op).InactiveAt i streamId := by
  cases op with
  | start request create =>
    rcases ht : c.target (request.setMessageType .startStream) with _ | ⟨ref, r⟩
    · exact h.same (start_same c request create ht)
    · obtain ⟨config, -, hsame | ⟨m, -, -, -, hsame⟩⟩ := start_cases c request create ht
      · exact InactiveAt.same (c := c.setStream _ config) h hsame
      · obtain ⟨o, ho, hid, ha⟩ := h
        refine InactiveAt.same ⟨o, ?_, hid, ha⟩ hsame
        rw [List.getElem?_append_left (List.getElem?_eq_some_iff.1 ho).1, ho]
  | stop request stop =>
    rcases ht : c.target (request.setMessageType .stopStream) with _ | ⟨ref, r⟩
    · exact h.same (stop_same c request stop ht)
    · rcases stop_cases c request stop ht with ⟨-, hsame⟩ | ⟨m, j, -, -, hsame⟩
      · exact InactiveAt.same (c := c.eraseStream _) h hsame
      · exact (InactiveAt.entryStopped (c := c.eraseStream _) h _ _ _ _).same hsame
  | finish j outcome =>
    simp only [Client.step]
    split_ifs with hs
    · obtain ⟨p, hp, hphase⟩ := hs
      have hne : j ≠ i := by
        rintro rfl
        obtain ⟨o, ho, -, ha⟩ := h
        rw [ho] at hp
        exact ha (Or.inl (Option.some.inj hp ▸ hphase))
      rcases finish_cases c j p outcome hp with hsame | hsame
      · exact (h.modify j _ fun hji => absurd hji hne).same hsame
      · refine InactiveAt.same ?_ hsame
        obtain ⟨sessions, heq⟩ := registerSession_eq c j p
        rw [heq]
        exact InactiveAt.modify (c := { c with sessions := sessions }) h j _ fun hji => absurd hji hne
    · exact h
  | release j =>
    simp only [Client.step]
    split_ifs with hs
    · obtain ⟨p, hp, -, -⟩ := hs
      have hend : (c.modifySession j fun o => { o with alive := false }).InactiveAt i streamId :=
        h.modify j _ fun _ o => ⟨rfl, fun ha hb => ha (hb.imp id fun hr => absurd hr.2.1 (by simp))⟩
      rcases endSession_cases c j p hp with ⟨-, hsame⟩ | ⟨k, -, -, hsame⟩
      · exact hend.same hsame
      · exact (hend.entryStopped _ _ _ _).same hsame
    · exact h

theorem InactiveAt.run {c : Client} {i : ℕ} {streamId : UInt16} (h : c.InactiveAt i streamId) (ops : List SessionOp) :
    (run c ops).InactiveAt i streamId := by
  induction ops generalizing c with
  | nil => exact h
  | cons op ops ih => exact ih (h.step op)

/-- a STOP_STREAM leaves every session its id -/
theorem step_streamId {c : Client} {i : ℕ} {o : Session} (ho : c.objects[i]? = some o) (request : IotmpMessage)
    (stop : Call Unit) : ∃ o', (step c (.stop request stop)).objects[i]? = some o' ∧ o'.streamId = o.streamId := by
  have hentry : ∀ m s j, ∃ o', (c.entryStopped m s j stop).objects[i]? = some o' ∧ o'.streamId = o.streamId := by
    intro m s j
    unfold Client.entryStopped
    split
    · refine ⟨if j = i then { o with stopped := true } else o, ?_, by split_ifs <;> rfl⟩
      simp only [modifySession, setSession, List.getElem?_modify, ho]
      split_ifs <;> rfl
    · exact ⟨o, ho, rfl⟩
  rcases ht : c.target (request.setMessageType .stopStream) with _ | ⟨ref, r⟩
  · exact ⟨o, (stop_same c request stop ht).objects ▸ ho, rfl⟩
  · rcases stop_cases c request stop ht with ⟨-, hsame⟩ | ⟨m, j, -, -, hsame⟩
    · exact ⟨o, hsame.objects ▸ ho, rfl⟩
    · rw [entryStopped_eraseStream] at hsame
      rw [hsame.objects]
      exact hentry _ _ _

/-! ## Stopping takes effect -/

def Inserted (c : Client) (i : ℕ) : Prop := ∃ m streamId, c.sessions m streamId = some i

def IsRunning (c : Client) (i : ℕ) : Prop := ∃ o, c.objects[i]? = some o ∧ o.Running

theorem run_inv {c : Client} (hf : c.Fresh) {ops : List SessionOp} (ho : Run.Steps step Orderly c ops) :
    (run c ops).Inv := Run.invariant Inv.step c ops hf.inv ho

/-- **Stopping takes effect.** In every run of orderly events, no two running sessions ever share a stream id, and from
a STOP_STREAM on, no session that was there under its id is in `sessions_` or running. -/
theorem stop_takes_effect (c : Client) (hf : c.Fresh) (ops : List SessionOp) (ho : Run.Steps step Orderly c ops) :
    (∀ (i j : ℕ) (o p : Session), (run c ops).objects[i]? = some o → (run c ops).objects[j]? = some p →
        o.Running → p.Running → o.streamId = p.streamId → i = j) ∧
      ∀ pre request stop post, ops = pre ++ .stop request stop :: post → ∀ (i : ℕ) (o : Session),
        (run c pre).objects[i]? = some o → o.streamId = request.getStreamId →
          ¬ (run c ops).Inserted i ∧ ¬ (run c ops).IsRunning i := by
  have hinv := run_inv hf ho
  refine ⟨fun i j o p hi hj hr hr' hid => hinv.unique i j o p hi hj (Or.inr hr) (Or.inr hr') hid, ?_⟩
  rintro pre request stop post rfl i o hi hid
  obtain ⟨hpre, hstop, -⟩ := (Run.Steps.append_iff c pre _).1 ho
  obtain ⟨-, hnone⟩ := (run_inv hf hpre).step_stop request stop hstop
  -- right after the STOP_STREAM the session is not active, and it stays so
  obtain ⟨o', ho', hid'⟩ := step_streamId hi request stop
  have hinactive : (step (run c pre) (.stop request stop)).InactiveAt i request.getStreamId :=
    ⟨o', ho', hid'.trans hid, fun ha => hnone i o' ho' ha (hid'.trans hid)⟩
  have hrun : run c (pre ++ .stop request stop :: post) = run (step (run c pre) (.stop request stop)) post := by
    rw [run, Run.run_append]; rfl
  obtain ⟨q, hq, -, ha⟩ := hrun ▸ hinactive.run post
  refine ⟨fun ⟨m, s, h⟩ => hinv.no_entry hq (fun hr => ha (Or.inr hr)) m s h, ?_⟩
  rintro ⟨q', hq', hr⟩
  rw [hq] at hq'
  exact ha (Or.inr (Option.some.inj hq' ▸ hr))

/-- a client with one managed resource -/
def terminalClient : Client :=
  { resources := SortedMap.empty.set (text "terminal")
      { callback := .input fun i => .returns i.data, streamHandler := some 0, streamEcho := false } }

/-- a request for stream 5 of that resource -/
def terminalRequest : IotmpMessage :=
  (IotmpMessage.withStreamId 5 .startStream).setField Field.RESOURCE (.string (text "terminal"))

theorem orderly_stop :
    ¬ (run terminalClient [.start terminalRequest (.returns true), .finish 0 (.returns (.ofBool true)),
      .stop terminalRequest (.returns ())]).IsRunning 0 := by
  refine ((stop_takes_effect terminalClient ⟨rfl, fun _ _ => rfl⟩ _ ?_).2 [_, _] terminalRequest (.returns ()) [] rfl 0
    { streamId := 5, manager := 0, resource := .resource (text "terminal"), phase := .started, onEnd := true }
    (by decide)
    (by decide)).2
  refine ⟨fun t ht o ho => ?_, trivial, ?_, trivial⟩
  · exact absurd ho List.not_mem_nil
  · show ∀ o ∈ _, _
    decide

/-- a STOP_STREAM that arrives while the session is starting leaves it inserted and running, and two START_STREAMs for
one id end with two running sessions -/
theorem stop_while_starting :
    let stopped := run terminalClient [.start terminalRequest (.returns true), .stop terminalRequest (.returns ()),
      .finish 0 (.returns (.ofBool true))]
    let twice := run terminalClient [.start terminalRequest (.returns true), .start terminalRequest (.returns true),
      .finish 0 (.returns (.ofBool true)), .finish 1 (.returns (.ofBool true))]
    stopped.Inserted 0 ∧ stopped.IsRunning 0 ∧ twice.IsRunning 0 ∧ twice.IsRunning 1 :=
  ⟨⟨0, 5, by decide⟩, ⟨_, rfl, by decide⟩, ⟨_, rfl, by decide⟩, ⟨_, rfl, by decide⟩⟩

/-! ## The end of a session -/

/-- the end of session `i` stops no other session, erases no other session's entry, and sends no STOP_STREAM for the
stream of another active session -/
structure HarmlessEnd (c c' : Client) (i : ℕ) : Prop where
  objects : ∀ k, k ≠ i → c'.objects[k]? = c.objects[k]?
  sessions : ∀ k m streamId, k ≠ i → c.sessions m streamId = some k → c'.sessions m streamId = some k
  sent : ∀ msg ∈ c'.sent.drop c.sent.length, msg.messageType = .stopStream → ∀ (k : ℕ) (p : Session), k ≠ i →
    c.objects[k]? = some p → p.Active → p.streamId ≠ msg.getStreamId

def Harmless (c : Client) : SessionOp → Prop
  | .release i => HarmlessEnd c (step c (.release i)) i
  | _ => True

/-- When a session with a listener ends, its manager has no entry under its stream id, or the entry is its own and, with
the connection up, no other session is active under that id. -/
def EndsAlone (c : Client) : SessionOp → Prop
  | .release i =>
    c.CanEnd i → ∀ o : Session, c.objects[i]? = some o → o.onEnd = true → ∀ j,
      c.sessions o.manager o.streamId = some j → j = i ∧ (c.connected = true → ∀ (k : ℕ) (p : Session), k ≠ i →
        c.objects[k]? = some p → p.Active → p.streamId ≠ o.streamId)
  | _ => True

theorem harmlessEnd_refl (c : Client) (i : ℕ) : HarmlessEnd c c i :=
  ⟨fun _ _ => rfl, fun _ _ _ _ h => h, fun msg h => by rw [List.drop_length] at h; cases h⟩

/-- an end without a listener's lookup finding anything -/
theorem harmlessEnd_quiet (c : Client) (i : ℕ) :
    HarmlessEnd c (c.modifySession i fun o => { o with alive := false }) i := by
  refine ⟨fun k hk => ?_, fun _ _ _ _ h => h, (harmlessEnd_refl c i).sent⟩
  simp only [modifySession, List.getElem?_modify, if_neg (Ne.symm hk), id_map']

/-- the session's own entry goes, and a STOP_STREAM goes out for its stream -/
theorem endSession_own {c : Client} {i : ℕ} {o : Session} (ho : c.objects[i]? = some o) (hend : o.onEnd = true)
    (hs : c.sessions o.manager o.streamId = some i) :
    c.endSession i = (((c.modifySession i fun o => { o with alive := false }).setSession o.manager o.streamId
      none).stopStream o.streamId).1 := by
  have hdead : ((c.modifySession i fun o => { o with alive := false }).setSession o.manager o.streamId none).isAlive i =
      false := by simp [isAlive, modifySession, setSession, ho]
  have hs' : (c.modifySession i fun o => { o with alive := false }).sessions o.manager o.streamId = some i := hs
  simp only [endSession, ho, hend, if_true, managerStop, hs', hdead, Bool.false_eq_true, if_false]
  split <;> next h => rw [h]

theorem stopStream_eq (c : Client) (streamId : UInt16) :
    (c.stopStream streamId).1 =
      if c.connected then { c with sent := c.sent ++ [.withStreamId streamId .stopStream] } else c := by
  have hlogs : (IotmpMessage.withStreamId streamId .stopStream).Logs c.logging :=
    fun _ _ => IotmpMessage.dumpable_withStreamId _ _
  unfold stopStream
  split_ifs
  · rw [sendMessage, if_pos hlogs]
  · rfl

theorem harmlessEnd_own {c : Client} {i : ℕ} {o : Session} (ho : c.objects[i]? = some o) (hend : o.onEnd = true)
    (hs : c.sessions o.manager o.streamId = some i) :
    HarmlessEnd c (c.endSession i) i ↔ (c.connected = true → ∀ (k : ℕ) (p : Session), k ≠ i → c.objects[k]? = some p →
      p.Active → p.streamId ≠ o.streamId) := by
  set d := (c.modifySession i fun o => { o with alive := false }).setSession o.manager o.streamId none with hd
  have hobjects : ∀ k, k ≠ i → d.objects[k]? = c.objects[k]? := (harmlessEnd_quiet c i).objects
  have hsessions : ∀ k m streamId, k ≠ i → c.sessions m streamId = some k → d.sessions m streamId = some k := by
    intro k m streamId hk h
    simp only [hd, setSession, modifySession, Function.update_apply]
    by_cases hm : m = o.manager
    · subst hm
      by_cases hid : streamId = o.streamId
      · rw [hid, hs] at h
        exact absurd (Option.some.inj h).symm hk
      · simp [hid, h]
    · simp [hm, h]
  have hconnected : d.connected = c.connected := rfl
  have hsent : d.sent = c.sent := rfl
  rw [endSession_own ho hend hs, stopStream_eq, hconnected]
  by_cases hc : c.connected = true
  · rw [if_pos hc, hsent]
    constructor
    · intro h _ k p hk hp ha
      have hmem : IotmpMessage.withStreamId o.streamId .stopStream ∈
          (c.sent ++ [IotmpMessage.withStreamId o.streamId .stopStream]).drop c.sent.length := by simp
      have hne := h.sent _ hmem (IotmpMessage.messageType_withStreamId _ _) k p hk hp ha
      rwa [IotmpMessage.getStreamId_withStreamId] at hne
    · intro h
      refine ⟨hobjects, hsessions, fun msg hmsg _ k p hk hp ha => ?_⟩
      simp only [List.drop_left, List.mem_singleton] at hmsg
      rw [hmsg, IotmpMessage.getStreamId_withStreamId]
      exact h hc k p hk hp ha
  · rw [if_neg hc]
    exact iff_of_true ⟨hobjects, hsessions, (harmlessEnd_refl c i).sent⟩ fun h => absurd h hc

theorem harmless_iff (c : Client) (op : SessionOp) : c.Harmless op ↔ c.EndsAlone op := by
  cases op with
  | release i =>
    simp only [Harmless, EndsAlone, step]
    by_cases hcan : c.CanEnd i
    · rw [if_pos hcan]
      obtain ⟨o, ho, hp, halive⟩ := hcan
      rcases hend : o.onEnd with _ | _
      · have heq : c.endSession i = c.modifySession i fun o => { o with alive := false } := by
          simp [endSession, ho, hend]
        rw [heq]
        refine iff_of_true (harmlessEnd_quiet c i) fun _ o' ho' hend' => ?_
        rw [ho] at ho'
        rw [← Option.some.inj ho', hend] at hend'
        cases hend'
      · rcases hs : c.sessions o.manager o.streamId with _ | j
        · have hs' : (c.modifySession i fun o => { o with alive := false }).sessions o.manager o.streamId = none := hs
          have heq : c.endSession i = c.modifySession i fun o => { o with alive := false } := by
            simp [endSession, ho, hend, managerStop, hs']
          rw [heq]
          refine iff_of_true (harmlessEnd_quiet c i) fun _ o' ho' _ j hj => ?_
          rw [ho] at ho'
          rw [← Option.some.inj ho', hs] at hj
          cases hj
        · by_cases hji : j = i
          · subst hji
            rw [harmlessEnd_own ho hend hs]
            constructor
            · intro h _ o' ho' _ k hk
              rw [ho] at ho'
              obtain rfl := Option.some.inj ho'
              exact ⟨(Option.some.inj (hs.symm.trans hk)).symm, h⟩
            · intro h
              exact (h ⟨o, ho, hp, halive⟩ o ho hend j hs).2
          · -- the entry of another session is erased
            refine iff_of_false (fun h => ?_) fun h => hji (h ⟨o, ho, hp, halive⟩ o ho hend j hs).1
            have hkept := h.sessions j o.manager o.streamId hji hs
            rcases endSession_cases c i o ho with ⟨hno, -⟩ | ⟨k, -, hk, hsame⟩
            · rcases hno with h' | h'
              · rw [hend] at h'; cases h'
              · rw [hs] at h'; cases h'
            · rw [hsame.sessions] at hkept
              unfold Client.entryStopped at hkept
              split at hkept <;> simp [setSession, modifySession] at hkept
    · rw [if_neg hcan]
      exact iff_of_true (harmlessEnd_refl c i) fun h => absurd h hcan
  | start request create => exact Iff.rfl
  | stop request stop => exact Iff.rfl
  | finish i outcome => exact Iff.rfl

/-- **A session's end ends only itself**, at every step of a run, iff at every step each ending session's listener finds
nothing under the stream id, or only the session itself with nobody else active there. -/
theorem ends_harmless_iff (c : Client) (ops : List SessionOp) :
    Run.Steps step Harmless c ops ↔ Run.Steps step EndsAlone c ops := Run.Steps.congr harmless_iff c ops

/-- session 0 is stopped and survives, session 1 starts under the same id, and the end of session 0 stops session 1 and
erases its entry -/
theorem late_end_stops_successor :
    let before := run terminalClient [.start terminalRequest (.returns true), .finish 0 (.returns (.ofBool true)),
      .stop terminalRequest (.returns ()), .start terminalRequest (.returns true), .finish 1 (.returns (.ofBool true))]
    before.IsRunning 1 ∧ before.Inserted 1 ∧ ¬ Run.Steps step Harmless before [.release 0] := by
  refine ⟨⟨_, rfl, by decide⟩, ⟨0, 5, by decide⟩, fun h => ?_⟩
  exact absurd (h.1.objects 1 (by decide)) (by decide)

end Client

end Iotmp
