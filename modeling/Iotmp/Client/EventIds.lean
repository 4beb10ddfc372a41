/-
The ids of server events: last key plus one, in eight bits.

The ids are 1 to 255, then 0. From then on the last key stays 255, and every further call is given event 0 again.

- `assignments_object`: none of the four calls throws on parameters that calls have made.
- `own_event_iff`: every call returns an event of its own, and leaves the others' parameters alone, exactly if there are
  at most 256 calls.
- Counterexample `event_reused`: 257 calls.
-/
import Mathlib.Tactic
import Iotmp.Client.Events

namespace Iotmp

/-! ## Assignments -/

/-- parameters that every call can assign to -/
def Assignable (params : Json) : Prop :=
  params = .null ∨
    ∃ ms, params = .object ms ∧
      ∀ inner, SortedMap.find (text "filters") ms = some inner → ∃ inner', inner = .object inner'

/-- an assignment returns, and leaves parameters that can be assigned to -/
def Assigned (p : Json × Bool) : Prop := Assignable p.1 ∧ p.2 = true

theorem assigned_assign (key : String) (hkey : text key ≠ text "filters") (value : Json) {p : Json × Bool}
    (h : Assigned p) : Assigned (assign key value p) := by
  obtain ⟨params, ok⟩ := p
  obtain ⟨hparams | ⟨ms, hparams, hfilters⟩, hok⟩ := h
  · obtain rfl : params = .null := hparams
    obtain rfl : ok = true := hok
    refine ⟨Or.inr ⟨_, rfl, fun inner hfind => ?_⟩, rfl⟩
    simp only [SortedMap.find] at hfind
    rw [if_neg hkey.symm] at hfind
    exact absurd hfind (by simp)
  · obtain rfl : params = .object ms := hparams
    obtain rfl : ok = true := hok
    refine ⟨Or.inr ⟨_, rfl, fun inner hfind => ?_⟩, rfl⟩
    rw [SortedMap.find_insert, if_neg hkey.symm] at hfind
    exact hfilters inner hfind

theorem assigned_filters (key : String) (value : Json) {p : Json × Bool} (h : Assigned p) :
    Assigned (assignIn "filters" key value p) := by
  obtain ⟨params, ok⟩ := p
  obtain ⟨hparams | ⟨ms, hparams, hfilters⟩, hok⟩ := h
  · obtain rfl : params = .null := hparams
    obtain rfl : ok = true := hok
    refine ⟨Or.inr ⟨_, rfl, fun inner hfind => ?_⟩, rfl⟩
    simp only [SortedMap.find, if_true] at hfind
    exact ⟨_, (Option.some.inj hfind).symm⟩
  · obtain rfl : params = .object ms := hparams
    obtain rfl : ok = true := hok
    have hinner : ∃ ms',
        assign key value ((SortedMap.find (text "filters") ms).getD .null, true) = (.object ms', true) := by
      rcases hf : SortedMap.find (text "filters") ms with _ | inner
      · exact ⟨_, rfl⟩
      · obtain ⟨inner', rfl⟩ := hfilters inner hf
        exact ⟨_, rfl⟩
    obtain ⟨ms', hms'⟩ := hinner
    rw [assignIn, hms']
    refine ⟨Or.inr ⟨_, rfl, fun inner hfind => ?_⟩, rfl⟩
    rw [SortedMap.find_insert, if_pos rfl] at hfind
    exact ⟨ms', (Option.some.inj hfind).symm⟩

/-- **None of the calls throws**, and none makes parameters on which one would. -/
theorem assignments_object (call : Subscription) {params : Json} (h : Assignable params) :
    Assigned (call.assignments params) := by
  have hstart : Assigned (params, true) := ⟨h, rfl⟩
  have hif : ∀ (c : Prop) [Decidable c] (p q : Json × Bool), Assigned p → Assigned q →
      Assigned (if c then p else q) := by
    intro c _ p q hp hq
    split_ifs
    · exact hp
    · exact hq
  cases call with
  | topicPublishStream topic qos retained =>
    have htopic := assigned_assign "topic" (by decide) (.string topic)
      (assigned_assign "scope" (by decide) (.string (text "publish"))
        (assigned_assign "event" (by decide) (.string (text "device_topic_publish")) hstart))
    have hqos := hif (qos ≠ 0) _ _ (assigned_assign "qos" (by decide) (.numberUnsigned qos.toUInt64) htopic) htopic
    exact hif (retained = true) _ _ (assigned_assign "retained" (by decide) (.boolean retained) hqos) hqos
  | topicSubscribeStream topic qos =>
    have htopic := assigned_assign "topic" (by decide) (.string topic)
      (assigned_assign "scope" (by decide) (.string (text "subscribe"))
        (assigned_assign "event" (by decide) (.string (text "device_topic_publish")) hstart))
    exact hif (qos ≠ 0) _ _ (assigned_assign "qos" (by decide) (.numberUnsigned qos.toUInt64) htopic) htopic
  | propertyStream property fetchAtSubscription =>
    have hevent := assigned_assign "event" (by decide) (.string (text "device_property_update")) hstart
    exact assigned_filters "property" (.string property)
      (hif (fetchAtSubscription = true) _ _ (assigned_assign "current" (by decide) (.boolean true) hevent) hevent)
  | eventSubscribe eventName => exact assigned_assign "event" (by decide) (.string eventName) hstart

namespace Subscriber

def step (s : Subscriber) (call : Subscription) : Subscriber := (s.subscribe call).1

/-- **A call returns an event of its own**, or reports failure, and changes no other event's parameters. -/
structure OwnEvent (s : Subscriber) (call : Subscription) : Prop where
  created : ∀ eventId, (s.subscribe call).2 = .returns eventId →
    s.client.events.get eventId = none ∧ ((s.step call).client.events.get eventId).isSome
  kept : ∀ eventId, (s.client.events.get eventId).isSome → (s.step call).configs eventId = s.configs eventId

/-- the place of an id in the order in which ids are given -/
def place (eventId : UInt8) : ℕ := (eventId.toNat + 255) % 256

/-- the first `n` ids are given, and their parameters can be assigned to -/
structure Numbered (s : Subscriber) (n : ℕ) : Prop where
  ids : ∀ eventId, (s.client.events.get eventId).isSome ↔ place eventId < n
  params : ∀ eventId, Assignable (s.config eventId).params

/-- the id that is given next; after the last one it is 0 for ever -/
theorem Numbered.nextEventId {s : Subscriber} {n : ℕ} (h : s.Numbered n) (hn : n ≤ 256) :
    s.client.nextEventId.toNat = if n ≤ 255 then (n + 1) % 256 else 0 := by
  rw [Client.nextEventId]
  rcases hlast : s.client.events.entries.getLast? with _ | ⟨k, v⟩
  · have hzero : n = 0 := by
      by_contra hpos
      have hone := (h.ids 1).2 (by show (1 + 255) % 256 < n; omega)
      obtain ⟨v, hv⟩ := Option.isSome_iff_exists.1 hone
      have hmem := (SortedMap.get_eq_some_iff _ _ _).1 hv
      rw [List.getLast?_eq_none_iff.1 hlast] at hmem
      exact absurd hmem (by simp)
    rw [hzero]
    rfl
  · obtain ⟨hk, hgreatest⟩ := SortedMap.getLast_greatest _ hlast
    have hplace : (k.toNat + 255) % 256 < n := (h.ids k).1 (by rw [hk]; rfl)
    have hlt := k.toNat_lt
    have hmax : ∀ i, i < 256 → (i + 255) % 256 < n → i ≤ k.toNat := by
      intro i hi hin
      have hofNat : (UInt8.ofNat i).toNat = i := by simp [Nat.mod_eq_of_lt hi]
      have hle := hgreatest (UInt8.ofNat i) ((h.ids _).2 (by rw [place, hofNat]; exact hin))
      rw [UInt8.le_iff_toNat_le, hofNat] at hle
      exact hle
    simp only
    rw [UInt8.toNat_add, UInt8.toNat_one]
    split_ifs with hle
    · have hn' := hmax n (by omega) (by omega)
      have hkn : k.toNat = n := by omega
      rw [hkn]
    · have hk255 := hmax 255 (by omega) (by omega)
      omega

theorem subscribe_events (s : Subscriber) (call : Subscription) (eventId : UInt8) :
    ((s.step call).client.events.get eventId).isSome ↔
      eventId = s.client.nextEventId ∨ (s.client.events.get eventId).isSome := by
  show ((s.client.events.set s.client.nextEventId _).get eventId).isSome ↔ _
  rw [SortedMap.get_set]
  split_ifs with h
  · simp [h]
  · simp [h]

/-- while there are ids left, a call takes the next one -/
theorem Numbered.step {s : Subscriber} {n : ℕ} (h : s.Numbered n) (hn : n < 256) (call : Subscription) :
    (s.step call).Numbered (n + 1) := by
  have hnext := h.nextEventId (Nat.le_of_lt hn)
  rw [if_pos (by omega)] at hnext
  refine ⟨fun eventId => ?_, fun eventId => ?_⟩
  · rw [subscribe_events, h.ids, ← UInt8.toNat_inj, hnext, place]
    have hlt := eventId.toNat_lt
    omega
  · rw [config]
    split_ifs with hsome
    · show Assignable (Function.update s.configs s.client.nextEventId _ eventId).params
      by_cases he : eventId = s.client.nextEventId
      · rw [he, Function.update_self]
        exact (assignments_object call (h.params _)).1
      · rw [Function.update_of_ne he]
        have hold := h.params eventId
        rwa [config, if_pos] at hold
        rw [subscribe_events] at hsome
        exact hsome.resolve_left he
    · exact Or.inl rfl

theorem Numbered.own {s : Subscriber} {n : ℕ} (h : s.Numbered n) (hn : n < 256) (call : Subscription) :
    s.OwnEvent call := by
  have hnext := h.nextEventId (Nat.le_of_lt hn)
  rw [if_pos (by omega)] at hnext
  have hfree : ¬ (s.client.events.get s.client.nextEventId).isSome := by
    rw [h.ids, place, hnext]
    omega
  refine ⟨fun eventId hreturns => ?_, fun eventId hsome => ?_⟩
  · have hid : s.client.nextEventId = eventId := by
      rw [subscribe] at hreturns
      simp only at hreturns
      split_ifs at hreturns
      exact Call.returns.inj hreturns
    rw [← hid]
    exact ⟨by simpa using hfree, (s.subscribe_events call _).2 (Or.inl rfl)⟩
  · have hne : eventId ≠ s.client.nextEventId := by
      rintro rfl
      exact hfree hsome
    exact Function.update_of_ne hne ..

/-- the call after the last id is given event 0, which is there -/
theorem Numbered.not_own {s : Subscriber} (h : s.Numbered 256) (call : Subscription) : ¬ s.OwnEvent call := by
  intro hown
  have hreturns : (s.subscribe call).2 = .returns s.client.nextEventId := by
    rw [subscribe]
    simp only
    rw [if_pos (assignments_object call (h.params _)).2]
  have hnone := (hown.created _ hreturns).1
  have hsome := (h.ids s.client.nextEventId).2 (by rw [place]; omega)
  rw [hnone] at hsome
  exact absurd hsome (by simp)

/-! ## Runs -/

/-- a client without events -/
def noEvents (c : Client) (configs : UInt8 → EventConfig) : Subscriber where
  client := { c with events := SortedMap.empty }
  configs := configs

theorem noEvents_numbered (c : Client) (configs : UInt8 → EventConfig) : (noEvents c configs).Numbered 0 where
  ids eventId := by simp [noEvents]
  params eventId := Or.inl (by simp [config, noEvents])

theorem Numbered.run {s : Subscriber} {n : ℕ} (h : s.Numbered n) (calls : List Subscription)
    (hcalls : n + calls.length ≤ 256) :
    (Run.run Subscriber.step s calls).Numbered (n + calls.length) ∧ Run.Steps Subscriber.step OwnEvent s calls := by
  induction calls generalizing s n with
  | nil => exact ⟨h, trivial⟩
  | cons call calls ih =>
    rw [List.length_cons] at hcalls ⊢
    have hn : n < 256 := by omega
    obtain ⟨hrun, hsteps⟩ := ih (h.step hn call) (by omega)
    rw [show n + (calls.length + 1) = n + 1 + calls.length by omega]
    exact ⟨hrun, h.own hn call, hsteps⟩

theorem not_own_of_many (c : Client) (configs : UInt8 → EventConfig) {calls : List Subscription}
    (hcalls : 256 < calls.length) : ¬ Run.Steps step OwnEvent (noEvents c configs) calls := by
  intro hsteps
  have hlength : (calls.take 256).length = 256 := List.length_take_of_le hcalls.le
  have hfull := ((noEvents_numbered c configs).run (calls.take 256) (by omega)).1
  rw [Nat.zero_add, hlength] at hfull
  rw [← List.take_append_drop 256 calls, Run.Steps.append_iff] at hsteps
  rcases hrest : calls.drop 256 with _ | ⟨call, rest⟩
  · exact absurd (List.drop_eq_nil_iff.1 hrest) (by omega)
  · rw [hrest] at hsteps
    exact hfull.not_own call hsteps.2.1

/-- **Every subscription is its own event** exactly if there are at most 256 of them. -/
theorem own_event_iff (c : Client) (configs : UInt8 → EventConfig) (calls : List Subscription) :
    Run.Steps step OwnEvent (noEvents c configs) calls ↔ calls.length ≤ 256 := by
  refine ⟨fun hsteps => ?_, fun hcalls => ?_⟩
  · by_contra hlong
    exact not_own_of_many c configs (Nat.lt_of_not_ge hlong) hsteps
  · exact ((noEvents_numbered c configs).run calls (by omega)).2

/-- **The 257th subscription is given the event of the 256th.** -/
theorem event_reused :
    ¬ Run.Steps step OwnEvent (noEvents {} fun _ => {}) (List.replicate 257 (.eventSubscribe (text "e"))) :=
  not_own_of_many {} _ (by rw [List.length_replicate]; decide)

end Subscriber

end Iotmp
