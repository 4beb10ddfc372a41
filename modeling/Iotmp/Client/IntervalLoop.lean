/-
The loop that streams resources periodically (`client.hpp`: `stream_interval_loop`, `stream_resource`, `run_loop`).

The loop is a detached coroutine. A callback that throws ends it: the rest of the round is not reached, and nothing
starts the loop again before the next connection. `run_loop` has a handler of its own for exceptions, this loop none.

- `IntervalLoop`: the client, the `last_streaming` of the entries of `streams_`, and whether the coroutine is alive.
- `Tick`: the clock at a wake-up, and what the resources are then, so what their callbacks do.
- `demanded`: what a tick should send, one message for every due stream whose callback gives data. `missed`: the part
  behind the first callback that throws.
- `scan_streamInterval`: the round is that of the client's tables. `scan_sent`: it sends what is demanded but missed.
  `looping_iff`: the loop is alive exactly if nothing threw.
- `served_iff`: every tick of a run sends all that is demanded exactly if, while the loop is alive, nothing is missed,
  and nothing is demanded any more once it has ended.
Witness: `served_twice`. Counterexample: `one_throws_all_stop`.
-/
import Mathlib.Tactic
import Mathlib.Data.List.TakeWhile
import Iotmp.Lib.Run
import Iotmp.Client.Answers
import Iotmp.Client.References

namespace Iotmp

/-- the message `stream_resource` sends for a resource, if it gives data -/
def Resource.streamed (r : Resource) (streamId : UInt16) : Call (Option IotmpMessage) :=
  match r.runResource { messageType := .streamData } { messageType := .streamData } with
  | .throws => .throws
  | .returns ran =>
    let message := if ran.response.hasField Field.PAYLOAD then ran.response else ran.request
    .returns (if message.hasField Field.PAYLOAD then some (message.setStreamId streamId) else none)

/-- an exception came out -/
def Call.thrown {α : Type} : Call α → Bool
  | .throws => true
  | .returns _ => false

@[simp] theorem Call.thrown_throws {α : Type} : (Call.throws : Call α).thrown = true := rfl

@[simp] theorem Call.thrown_returns {α : Type} (value : α) : (Call.returns value).thrown = false := rfl

structure IntervalLoop where
  client : Client
  /-- `last_streaming` in milliseconds, zero in a new entry -/
  last : UInt16 → UInt64 := fun _ => 0
  looping : Bool := true

structure Tick where
  now : UInt64
  resourceAt : ResourceRef → Resource

namespace IntervalLoop

/-! ## The loop -/

/-- `elapsed >= config.interval`, in unsigned arithmetic, of an interval above zero -/
def Due (s : IntervalLoop) (t : Tick) (streamId : UInt16) (config : StreamConfig) : Prop :=
  0 < config.interval ∧ config.interval.toUInt64 ≤ t.now - s.last streamId

instance instDecidableDue (s : IntervalLoop) (t : Tick) (streamId : UInt16) (config : StreamConfig) :
    Decidable (s.Due t streamId config) := inferInstanceAs (Decidable (_ ∧ _))

/-- the `for` over `streams_`; false if a callback throws -/
def scan (t : Tick) : List (UInt16 × StreamConfig) → IntervalLoop → IntervalLoop × Bool
  | [], s => (s, true)
  | (streamId, config) :: rest, s =>
    match config.resource with
    | none => scan t rest s
    | some ref =>
      if s.Due t streamId config then
        let s := { s with last := Function.update s.last streamId t.now }
        match s.client.streamResource (t.resourceAt ref) streamId with
        | (c, false) => ({ s with client := c }, false)
        | (c, true) => scan t rest { s with client := c }
      else scan t rest s

/-- a wake-up -/
def tick (s : IntervalLoop) (t : Tick) : IntervalLoop :=
  if s.looping = false then s
  else if s.client.connected = false then { s with looping := false }
  else
    match scan t s.client.streams.entries s with
    | (s, false) => { s with looping := false }
    | (s, true) => s

inductive LoopEvent where
  | tick (t : Tick)
  /-- anything else that happens on the connection; it may leave any client and any entries -/
  | between (client : Client) (last : UInt16 → UInt64)

def step (s : IntervalLoop) : LoopEvent → IntervalLoop
  | .tick t => s.tick t
  | .between client last => { s with client := client, last := last }

abbrev run (s : IntervalLoop) (events : List LoopEvent) : IntervalLoop := Run.run step s events

/-! ## What a tick should do -/

/-- what the entry's callback does at this tick, if it is due -/
def outcome (s : IntervalLoop) (t : Tick) (entry : UInt16 × StreamConfig) : Call (Option IotmpMessage) :=
  match entry.2.resource with
  | none => .returns none
  | some ref => if s.Due t entry.1 entry.2 then (t.resourceAt ref).streamed entry.1 else .returns none

/-- the data of a callback that returns -/
def given : Call (Option IotmpMessage) → Option IotmpMessage
  | .throws => none
  | .returns message => message

@[simp] theorem given_returns (message : Option IotmpMessage) : given (.returns message) = message := rfl

/-- what the entries' callbacks do, in the order of the ids -/
def outcomes (s : IntervalLoop) (t : Tick) (entries : List (UInt16 × StreamConfig)) :
    List (Call (Option IotmpMessage)) :=
  entries.map (s.outcome t)

/-- one message for every due stream whose callback gives data, whatever the other callbacks do -/
def demanded (s : IntervalLoop) (t : Tick) : List IotmpMessage :=
  (s.outcomes t s.client.streams.entries).filterMap given

/-- the part behind the first due callback that throws -/
def missed (s : IntervalLoop) (t : Tick) : List IotmpMessage :=
  ((s.outcomes t s.client.streams.entries).dropWhile fun outcome => !outcome.thrown).filterMap given

/-- a due callback throws -/
def Fails (s : IntervalLoop) (t : Tick) : Prop :=
  ∃ entry ∈ s.client.streams.entries, (s.outcome t entry).thrown = true

instance instDecidableFails (s : IntervalLoop) (t : Tick) : Decidable (s.Fails t) :=
  inferInstanceAs (Decidable (∃ entry ∈ s.client.streams.entries, (s.outcome t entry).thrown = true))

/-- no due callback throws -/
def Quiet (s : IntervalLoop) : LoopEvent → Prop
  | .tick t => ¬ s.Fails t
  | .between _ _ => True

/-- the connection is up at the tick -/
def Up (s : IntervalLoop) : LoopEvent → Prop
  | .tick _ => s.client.connected = true
  | .between _ _ => True

/-- **The tick sends all that is demanded.** -/
def Served (s : IntervalLoop) (t : Tick) : Prop := (s.tick t).client.sent = s.client.sent ++ s.demanded t

/-! ## What it does -/

/-- what is streamed is stream data under the id -/
theorem streamed_data {r : Resource} {streamId : UInt16} {m : IotmpMessage}
    (h : r.streamed streamId = .returns (some m)) : m.messageType = .streamData ∧ m.getStreamId = streamId := by
  rw [Resource.streamed] at h
  rcases hr : r.runResource { messageType := .streamData } { messageType := .streamData } with ran | _
  · obtain ⟨hrequest, hresponse, -⟩ := runResource_kept hr
    simp only [hr] at h
    split_ifs at h
    · obtain rfl := Option.some.inj (Call.returns.inj h)
      exact ⟨hresponse, by simp⟩
    · obtain rfl := Option.some.inj (Call.returns.inj h)
      exact ⟨hrequest, by simp⟩
    · exact absurd (Call.returns.inj h) (by simp)
  · simp [hr] at h

theorem streamResource_eq (c : Client) (r : Resource) (streamId : UInt16) :
    c.streamResource r streamId =
      match r.streamed streamId with
      | .throws => (c, false)
      | .returns message => ({ c with sent := c.sent ++ message.toList }, true) := by
  have hsend : ∀ m : IotmpMessage, m.messageType = .streamData →
      c.sendMessage (m.setStreamId streamId) = ({ c with sent := c.sent ++ [m.setStreamId streamId] }, true) :=
    fun m hm => if_pos fun _ htype => absurd hm (by simpa using htype)
  rw [Client.streamResource, Resource.streamed]
  rcases h : r.runResource { messageType := .streamData } { messageType := .streamData } with ran | _
  · obtain ⟨hrequest, hresponse, -⟩ := runResource_kept h
    simp only
    split_ifs
    · exact hsend _ hresponse
    · exact hsend _ hrequest
    · simp
  · rfl

theorem due_congr {s s' : IntervalLoop} (t : Tick) (config : StreamConfig) {streamId : UInt16}
    (h : s'.last streamId = s.last streamId) : s'.Due t streamId config ↔ s.Due t streamId config := by
  rw [Due, Due, h]

theorem outcome_congr {s s' : IntervalLoop} (t : Tick) {entry : UInt16 × StreamConfig}
    (h : s'.last entry.1 = s.last entry.1) : s'.outcome t entry = s.outcome t entry := by
  rw [outcome, outcome]
  rcases entry.2.resource with _ | ref
  · rfl
  · simp only [due_congr t entry.2 h]

theorem outcomes_congr {s s' : IntervalLoop} (t : Tick) {entries : List (UInt16 × StreamConfig)}
    (h : ∀ entry ∈ entries, s'.last entry.1 = s.last entry.1) : s'.outcomes t entries = s.outcomes t entries :=
  List.map_congr_left fun entry hentry => outcome_congr t (h entry hentry)

/-- an entry of another stream keeps its `last_streaming` -/
theorem last_update (last : UInt16 → UInt64) (now : UInt64) {streamId : UInt16} {rest : List (UInt16 × StreamConfig)}
    (hid : streamId ∉ rest.map Prod.fst) :
    ∀ entry ∈ rest, Function.update last streamId now entry.1 = last entry.1 := fun entry hentry =>
  Function.update_of_ne (fun heq => hid (List.mem_map.2 ⟨entry, hentry, heq⟩)) _ _

/-- **A round sends what is demanded up to the first callback that throws**, and returns if none does. -/
theorem scan_sent (t : Tick) (entries : List (UInt16 × StreamConfig)) (s : IntervalLoop)
    (hnodup : (entries.map Prod.fst).Nodup) :
    (scan t entries s).1.client.sent =
        s.client.sent ++ ((s.outcomes t entries).takeWhile fun outcome => !outcome.thrown).filterMap given ∧
      (scan t entries s).1.looping = s.looping ∧
      (scan t entries s).2 = (s.outcomes t entries).all fun outcome => !outcome.thrown := by
  induction entries generalizing s with
  | nil => simp [scan, outcomes]
  | cons entry rest ih =>
    obtain ⟨streamId, config⟩ := entry
    obtain ⟨hid, hrest⟩ := List.nodup_cons.1 hnodup
    have hcons : s.outcomes t ((streamId, config) :: rest) = s.outcome t (streamId, config) :: s.outcomes t rest := rfl
    rw [hcons]
    -- nothing is sent for the entry
    have hskip : s.outcome t (streamId, config) = .returns none →
        scan t ((streamId, config) :: rest) s = scan t rest s →
        (scan t ((streamId, config) :: rest) s).1.client.sent =
            s.client.sent ++ ((s.outcome t (streamId, config) :: s.outcomes t rest).takeWhile fun outcome =>
              !outcome.thrown).filterMap given ∧
          (scan t ((streamId, config) :: rest) s).1.looping = s.looping ∧
          (scan t ((streamId, config) :: rest) s).2 =
            (s.outcome t (streamId, config) :: s.outcomes t rest).all fun outcome => !outcome.thrown := by
      intro hout hscan
      rw [hscan, hout]
      simpa [List.filterMap_cons] using ih s hrest
    rcases hr : config.resource with _ | ref
    · exact hskip (by simp [outcome, hr]) (by simp [scan, hr])
    · by_cases hdue : s.Due t streamId config
      · have hout : s.outcome t (streamId, config) = (t.resourceAt ref).streamed streamId := by
          simp [outcome, hr, hdue]
        rw [hout]
        simp only [scan, hr, if_pos hdue, streamResource_eq]
        rcases (t.resourceAt ref).streamed streamId with message | _
        · simp only
          have hlast := last_update s.last t.now hid
          obtain ⟨hsent, hlooping, hreturns⟩ := ih { s with
            last := Function.update s.last streamId t.now
            client := { s.client with sent := s.client.sent ++ message.toList } } hrest
          rw [outcomes_congr t hlast] at hsent hreturns
          refine ⟨?_, hlooping, ?_⟩
          · rw [hsent]
            cases message with
            | none => simp [List.filterMap_cons]
            | some m => simp
          · rw [hreturns]
            simp
        · simp
      · exact hskip (by simp [outcome, hr, hdue]) (by simp [scan, hr, hdue])

/-- **The round is that of the client's tables**, where a pointer leads to what the resource is at the tick. -/
theorem scan_streamInterval (t : Tick) (due : UInt16 → Bool) (entries : List (UInt16 × StreamConfig)) (s : IntervalLoop)
    (hnodup : (entries.map Prod.fst).Nodup)
    (hdue : ∀ entry ∈ entries, s.Due t entry.1 entry.2 ↔ 0 < entry.2.interval ∧ due entry.1 = true)
    (hderef : ∀ entry ∈ entries, ∀ ref, entry.2.resource = some ref → s.client.deref ref = some (t.resourceAt ref)) :
    Client.streamInterval due entries s.client = ((scan t entries s).1.client, (scan t entries s).2) := by
  induction entries generalizing s with
  | nil => rfl
  | cons entry rest ih =>
    obtain ⟨streamId, config⟩ := entry
    obtain ⟨hid, hrest⟩ := List.nodup_cons.1 hnodup
    obtain ⟨hdueHead, hdueRest⟩ := List.forall_mem_cons.1 hdue
    obtain ⟨hderefHead, hderefRest⟩ := List.forall_mem_cons.1 hderef
    rw [Client.streamInterval, scan]
    rcases hr : config.resource with _ | ref
    · simpa [hr] using ih s hrest hdueRest hderefRest
    · simp only
      by_cases h : s.Due t streamId config
      · rw [if_pos h, if_pos (hdueHead.1 h), hderefHead ref hr]
        simp only [streamResource_eq]
        rcases (t.resourceAt ref).streamed streamId with message | _
        · simp only
          have hlast := last_update s.last t.now hid
          exact ih { s with
            last := Function.update s.last streamId t.now
            client := { s.client with sent := s.client.sent ++ message.toList } } hrest
            (fun entry hentry => (due_congr t entry.2 (hlast entry hentry)).trans (hdueRest entry hentry)) hderefRest
        · rfl
      · rw [if_neg h, if_neg fun hd => h (hdueHead.2 hd)]
        exact ih s hrest hdueRest hderefRest

theorem demanded_split (s : IntervalLoop) (t : Tick) :
    s.demanded t = ((s.outcomes t s.client.streams.entries).takeWhile fun outcome => !outcome.thrown).filterMap given ++
      s.missed t := by
  rw [missed, ← List.filterMap_append, List.takeWhile_append_dropWhile, demanded]

/-- **What a tick does** while the loop is alive: all but the missed part, and it ends the loop if a callback throws. -/
theorem tick_sent {s : IntervalLoop} (t : Tick) (hconnected : s.client.connected = true) (hlooping : s.looping = true) :
    (s.tick t).client.sent ++ s.missed t = s.client.sent ++ s.demanded t ∧
      ((s.tick t).looping = true ↔ ¬ s.Fails t) := by
  obtain ⟨hsent, hkept, hreturns⟩ :=
    scan_sent t s.client.streams.entries s (SortedMap.nodup_of_ordered s.client.streams.ordered)
  have hall : ((s.outcomes t s.client.streams.entries).all fun outcome => !outcome.thrown) = true ↔ ¬ s.Fails t := by
    simp [outcomes, Fails]
  rw [demanded_split, ← List.append_assoc, ← hsent, ← hall, ← hreturns, tick, if_neg (by simp [hlooping]),
    if_neg (by simp [hconnected])]
  rcases hscan : scan t s.client.streams.entries s with ⟨s', _ | _⟩
  · exact ⟨rfl, by simp⟩
  · rw [hscan] at hkept
    exact ⟨rfl, iff_of_true (hkept.trans hlooping) rfl⟩

theorem tick_of_ended {s : IntervalLoop} (t : Tick) (h : s.looping = false) : s.tick t = s := if_pos h

/-- a tick serves all exactly if nothing is missed, or demanded if the loop has ended -/
theorem served_iff_missed {s : IntervalLoop} (t : Tick) (hconnected : s.client.connected = true) :
    s.Served t ↔ if s.looping = true then s.missed t = [] else s.demanded t = [] := by
  split_ifs with hlooping
  · rw [Served, ← (tick_sent t hconnected hlooping).1]
    exact List.self_eq_append_right
  · rw [Served, tick_of_ended t (by simpa using hlooping)]
    exact List.self_eq_append_right

/-! ## Runs -/

/-- **The loop is alive exactly if no due callback has thrown.** -/
theorem looping_iff (s : IntervalLoop) (events : List LoopEvent) (hup : Run.Steps step Up s events) :
    (run s events).looping = true ↔ s.looping = true ∧ Run.Steps step Quiet s events := by
  induction events generalizing s with
  | nil => exact ⟨fun h => ⟨h, trivial⟩, fun h => h.1⟩
  | cons e events ih =>
    rw [run, Run.run_cons, ih (step s e) hup.2]
    cases e with
    | between client last => exact ⟨fun h => ⟨h.1, trivial, h.2⟩, fun h => ⟨h.1, h.2.2⟩⟩
    | tick t =>
      by_cases hlooping : s.looping = true
      · have hquiet : (step s (.tick t)).looping = true ↔ Quiet s (.tick t) := (tick_sent t hup.1 hlooping).2
        rw [hquiet]
        exact ⟨fun h => ⟨hlooping, h⟩, fun h => h.2⟩
      · have hended : step s (.tick t) = s := tick_of_ended t (by simpa using hlooping)
        rw [hended]
        exact iff_of_false (fun h => hlooping h.1) fun h => hlooping h.1

/-- **A failing resource stops the others**: every tick sends all that is demanded exactly if, as long as no due
callback has thrown, nothing is missed behind the first one that does, and after that nothing is demanded. -/
theorem served_iff (s : IntervalLoop) (events : List LoopEvent) (hlooping : s.looping = true)
    (hup : Run.Steps step Up s events) :
    (∀ before t after, events = before ++ .tick t :: after → (run s before).Served t) ↔
      ∀ before t after, events = before ++ .tick t :: after →
        (Run.Steps step Quiet s before → (run s before).missed t = []) ∧
        (¬ Run.Steps step Quiet s before → (run s before).demanded t = []) := by
  refine forall_congr' fun before => forall_congr' fun t => forall_congr' fun after => forall_congr' fun hevents => ?_
  subst hevents
  obtain ⟨hbefore, htick, -⟩ := (Run.Steps.append_iff s before (.tick t :: after)).1 hup
  rw [served_iff_missed t htick]
  have halive := looping_iff s before hbefore
  by_cases hquiet : Run.Steps step Quiet s before
  · rw [if_pos (halive.2 ⟨hlooping, hquiet⟩)]
    exact ⟨fun h => ⟨fun _ => h, fun hnot => absurd hquiet hnot⟩, fun h => h.1 hquiet⟩
  · rw [if_neg fun h => hquiet (halive.1 h).2]
    exact ⟨fun h => ⟨fun hq => absurd hq hquiet, fun _ => h⟩, fun h => h.2 hquiet⟩

/-- nothing is missed if nothing throws -/
theorem missed_of_quiet {s : IntervalLoop} {t : Tick} (h : ¬ s.Fails t) : s.missed t = [] := by
  have hall : ((s.outcomes t s.client.streams.entries).dropWhile fun outcome => !outcome.thrown) = [] := by
    rw [List.dropWhile_eq_nil_iff]
    intro outcome houtcome
    obtain ⟨entry, hentry, rfl⟩ := List.mem_map.1 houtcome
    simpa using fun hthrown => h ⟨entry, hentry, hthrown⟩
  rw [missed, hall]
  rfl

theorem undisturbed_of_quiet {s : IntervalLoop} {events : List LoopEvent} (h : Run.Steps step Quiet s events)
    (before : List LoopEvent) (t : Tick) (after : List LoopEvent) (hevents : events = before ++ .tick t :: after) :
    (Run.Steps step Quiet s before → (run s before).missed t = []) ∧
      (¬ Run.Steps step Quiet s before → (run s before).demanded t = []) := by
  subst hevents
  obtain ⟨hbefore, htick, -⟩ := (Run.Steps.append_iff s before (.tick t :: after)).1 h
  exact ⟨fun _ => missed_of_quiet htick, fun hnot => absurd hbefore hnot⟩

/-! ## Two streams -/

/-- a resource that gives a number -/
def sensor : Resource where
  callback := .output fun out => .returns { out with data := .numberUnsigned 7 }

def broken : Resource where
  callback := .output fun _ => .throws

/-- streams 1 and 2, of one resource each, every second -/
def twoStreams : IntervalLoop where
  client :=
    ({} : Client).setStream 1 { resource := some (.resource (text "a")), interval := 1000 }
      |>.setStream 2 { resource := some (.resource (text "b")), interval := 1000 }

/-- the tick at a time, with the resource of stream 1 -/
def tickWith (now : UInt64) (first : Resource) : Tick where
  now := now
  resourceAt ref := if ref = .resource (text "a") then first else sensor

theorem served_twice :
    twoStreams.Served (tickWith 1000 sensor) ∧
      (run twoStreams [.tick (tickWith 1000 sensor)]).Served (tickWith 2000 sensor) := by
  have hfirst : ¬ twoStreams.Fails (tickWith 1000 sensor) := by decide
  have hsecond : ¬ (run twoStreams [.tick (tickWith 1000 sensor)]).Fails (tickWith 2000 sensor) := by decide
  have hall := (served_iff twoStreams [.tick (tickWith 1000 sensor), .tick (tickWith 2000 sensor)] rfl
    ⟨rfl, rfl, trivial⟩).2 (undisturbed_of_quiet ⟨hfirst, hsecond, trivial⟩)
  exact ⟨hall [] _ _ rfl, hall [.tick (tickWith 1000 sensor)] _ _ rfl⟩

/-- **One callback throws and all stop**: stream 2 is not served at that tick, nor at the next one, when the callback
of stream 1 returns again. -/
theorem one_throws_all_stop :
    ¬ twoStreams.Served (tickWith 1000 broken) ∧
      ¬ (run twoStreams [.tick (tickWith 1000 broken)]).Served (tickWith 2000 sensor) := by
  refine ⟨fun h => ?_, fun h => ?_⟩
  · exact absurd (congrArg List.length h) (by decide)
  · exact absurd (congrArg List.length h) (by decide)

end IntervalLoop

end Iotmp
