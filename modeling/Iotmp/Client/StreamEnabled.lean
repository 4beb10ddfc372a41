/-
What a resource's stream id says about `streams_` (`iotmp_resource.hpp`: `stream_enabled`, `get_stream_id`).

A START_STREAM with interval 0 writes its id to the resource, the STOP_STREAM of that id clears it. The id is one field
of the resource; `streams_` may hold any number of entries for it.

- `Continuous`: an entry for the resource with interval 0. `Truthful`: every resource is enabled iff it has one, and
  then its stream id leads to one.
- `CarefulStart`: with interval 0 the id is not 0, and an id that a resource has as its own is taken again for that
  resource and with interval 0 only. `CarefulStop`: a resource's own id is stopped last.
- `truthful_openStream`, `truthful_closeStream`: a step keeps `Truthful` exactly if it is careful.
- `stream_enabled_iff`: so a whole run. Witness: `stream_enabled_once`. Counterexample: `enabled_out_of_step`.
-/
import Mathlib.Tactic
import Iotmp.Client.LiveStreams

namespace Iotmp.Client

/-! ## The entries of a resource -/

/-- `streams_` has this entry for the resource, and its interval is 0 -/
def Continuous (c : Client) (streamId : UInt16) (ref : ResourceRef) : Prop :=
  c.streams.get streamId = some { resource := some ref, interval := 0 }

structure TruthfulAt (c : Client) (ref : ResourceRef) (r : Resource) : Prop where
  enabled_iff : r.streamEnabled = true ↔ ∃ streamId, c.Continuous streamId ref
  streamId : r.streamEnabled = true → c.Continuous r.streamId ref

def Truthful (c : Client) : Prop := ∀ ref r, c.deref ref = some r → c.TruthfulAt ref r

/-- nothing is streamed yet -/
structure Unstreamed (c : Client) : Prop where
  streams : ∀ streamId, c.streams.get streamId = none
  streamId : ∀ ref r, c.deref ref = some r → r.streamId = 0

/-- a stream with interval 0 gets an id other than 0; a resource that has the id as its own is this one, and the
interval is 0 again -/
def CarefulStart (c : Client) (request : IotmpMessage) (ref : ResourceRef) : Prop :=
  (getInterval (request.get Field.PARAMETERS) = 0 → request.getStreamId ≠ 0) ∧
    ∀ ref' r', c.deref ref' = some r' → r'.streamEnabled = true → r'.streamId = request.getStreamId →
      ref' = ref ∧ getInterval (request.get Field.PARAMETERS) = 0

/-- if the resource has the id as its own, it has no other entry with interval 0 -/
def CarefulStop (c : Client) (request : IotmpMessage) (ref : ResourceRef) (r : Resource) : Prop :=
  r.streamId = request.getStreamId → ∀ streamId ≠ request.getStreamId, ¬ c.Continuous streamId ref

def Careful (c : Client) : SessionOp → Prop
  | .start request _ =>
    ∀ ref r, c.target (request.setMessageType .startStream) = some (ref, r) → c.CarefulStart request ref
  | .stop request _ =>
    ∀ ref r, c.target (request.setMessageType .stopStream) = some (ref, r) → c.CarefulStop request ref r
  | .finish _ _ | .release _ => True

theorem streamEnabled_iff (r : Resource) : r.streamEnabled = true ↔ r.streamId ≠ 0 := by
  simp [Resource.streamEnabled]

theorem truthfulAt_iff {c : Client} {ref : ResourceRef} {r : Resource} :
    c.TruthfulAt ref r ↔
      (r.streamId ≠ 0 → c.Continuous r.streamId ref) ∧
        (r.streamId = 0 → ∀ streamId, ¬ c.Continuous streamId ref) := by
  constructor
  · intro h
    refine ⟨fun hid => h.streamId ((streamEnabled_iff r).2 hid), fun hid streamId hentry => ?_⟩
    exact (streamEnabled_iff r).1 (h.enabled_iff.2 ⟨streamId, hentry⟩) hid
  · intro h
    obtain ⟨hown, hnone⟩ := h
    refine ⟨?_, fun henabled => hown ((streamEnabled_iff r).1 henabled)⟩
    rw [streamEnabled_iff]
    constructor
    · intro hid
      exact ⟨r.streamId, hown hid⟩
    · intro hentry hid
      obtain ⟨streamId, hentry⟩ := hentry
      exact hnone hid streamId hentry

theorem Unstreamed.truthful {c : Client} (h : c.Unstreamed) : c.Truthful := by
  intro ref r hd
  refine truthfulAt_iff.2 ⟨fun hid => absurd (h.streamId ref r hd) hid, fun _ streamId hentry => ?_⟩
  rw [Continuous, h.streams] at hentry
  exact absurd hentry (by simp)

/-! ## A START_STREAM -/

theorem SameResources.truthful_same {c c' : Client} (h : SameResources c c') : c'.Truthful ↔ c.Truthful := by
  have hentry : ∀ streamId ref, c'.Continuous streamId ref ↔ c.Continuous streamId ref := by
    intro streamId ref
    rw [Continuous, Continuous, h.streams]
  simp only [Truthful, truthfulAt_iff, hentry, h.deref]

theorem continuous_openStream (c : Client) (ref ref' : ResourceRef) (request : IotmpMessage) (streamId : UInt16) :
    (c.openStream ref request).Continuous streamId ref' ↔
      if streamId = request.getStreamId then ref' = ref ∧ getInterval (request.get Field.PARAMETERS) = 0
      else c.Continuous streamId ref' := by
  rw [Continuous, streams_openStream, SortedMap.get_set]
  split_ifs
  · simp only [Option.some.injEq, StreamConfig.mk.injEq]
    exact and_congr_left fun _ => eq_comm
  · rfl

/-- **A START_STREAM keeps every resource truthful exactly if it is careful.** -/
theorem truthful_openStream {c : Client} (h : c.Truthful) {ref : ResourceRef} {r : Resource}
    (hd : c.deref ref = some r) (request : IotmpMessage) :
    (c.openStream ref request).Truthful ↔ c.CarefulStart request ref := by
  constructor
  · intro hopen
    constructor
    · intro hzero hid
      have hderef : (c.openStream ref request).deref ref = some { r with streamId := request.getStreamId } := by
        rw [deref_openStream, if_pos ⟨hzero, rfl⟩, hd]
        rfl
      refine (truthfulAt_iff.1 (hopen ref _ hderef)).2 hid request.getStreamId ?_
      rw [continuous_openStream, if_pos rfl]
      exact ⟨rfl, hzero⟩
    · intro ref' r' hd' henabled hid
      by_cases hown : getInterval (request.get Field.PARAMETERS) = 0 ∧ ref' = ref
      · exact hown.symm
      · have hderef : (c.openStream ref request).deref ref' = some r' := by rw [deref_openStream, if_neg hown, hd']
        have hentry := (hopen ref' r' hderef).streamId henabled
        rw [hid, continuous_openStream, if_pos rfl] at hentry
        exact hentry
  · intro hcareful ref' r'' hderef
    obtain ⟨hnonzero, hfree⟩ := hcareful
    rw [deref_openStream] at hderef
    rw [truthfulAt_iff]
    split_ifs at hderef with hown
    · -- the resource itself, which gets the id
      obtain ⟨hzero, rfl⟩ := hown
      rw [hd] at hderef
      obtain rfl := Option.some.inj hderef
      refine ⟨fun _ => ?_, fun hid => absurd hid (hnonzero hzero)⟩
      rw [continuous_openStream, if_pos rfl]
      exact ⟨rfl, hzero⟩
    · -- a resource that keeps its own id
      obtain ⟨hentry, hnone⟩ := truthfulAt_iff.1 (h ref' r'' hderef)
      constructor
      · intro hid
        have hne : r''.streamId ≠ request.getStreamId := fun heq =>
          hown (hfree ref' r'' hderef ((streamEnabled_iff r'').2 hid) heq).symm
        rw [continuous_openStream, if_neg hne]
        exact hentry hid
      · intro hid streamId
        rw [continuous_openStream]
        split_ifs
        · exact fun hopened => hown hopened.symm
        · exact hnone hid streamId

/-! ## A STOP_STREAM -/

theorem continuous_closeStream (c : Client) (ref ref' : ResourceRef) (r : Resource) (closed streamId : UInt16) :
    (c.closeStream ref r closed).Continuous streamId ref' ↔ streamId ≠ closed ∧ c.Continuous streamId ref' := by
  have hstreams : (c.closeStream ref r closed).streams = c.streams.remove closed :=
    (closeStream_same c ref r closed).streams
  rw [Continuous, hstreams, SortedMap.get_remove]
  split_ifs with heq
  · simp [heq]
  · simp [heq, Continuous]

theorem deref_closeStream (c : Client) (ref ref' : ResourceRef) (r : Resource) (closed : UInt16) :
    (c.closeStream ref r closed).deref ref' =
      if r.streamId = closed ∧ ref' = ref then (c.deref ref).map fun r => { r with streamId := 0 }
      else c.deref ref' := by
  unfold closeStream
  simp only
  split_ifs with hid hand hand
  · exact (deref_setResourceStreamId c ref ref' 0).trans (if_pos hand.2)
  · exact (deref_setResourceStreamId c ref ref' 0).trans (if_neg fun heq => hand ⟨hid, heq⟩)
  · exact absurd hand.1 hid
  · rfl

/-- a STOP_STREAM goes to the resource of the entry -/
theorem target_of_continuous {c : Client} {request : IotmpMessage} {ref ref' : ResourceRef} {r : Resource}
    (h : c.target (request.setMessageType .stopStream) = some (ref, r))
    (hentry : c.Continuous request.getStreamId ref') : ref' = ref := by
  obtain ⟨request', hr, -⟩ := target_eq_some.1 h
  have hresolve : c.resolve (request.setMessageType .stopStream) =
      .returns (some ref', request.setMessageType .stopStream) := by
    rw [Continuous] at hentry
    unfold resolve
    simp [hentry]
  rw [hresolve] at hr
  exact Option.some.inj (Prod.mk.inj (Call.returns.inj hr)).1

/-- **A STOP_STREAM keeps every resource truthful exactly if it is careful.** -/
theorem truthful_closeStream {c : Client} (h : c.Truthful) {request : IotmpMessage} {ref : ResourceRef} {r : Resource}
    (ht : c.target (request.setMessageType .stopStream) = some (ref, r)) :
    (c.closeStream ref r request.getStreamId).Truthful ↔ c.CarefulStop request ref r := by
  obtain ⟨-, -, hd⟩ := target_eq_some.1 ht
  constructor
  · intro hclose hid streamId hne hentry
    have hderef : (c.closeStream ref r request.getStreamId).deref ref = some { r with streamId := 0 } := by
      rw [deref_closeStream, if_pos ⟨hid, rfl⟩, hd]
      rfl
    refine (truthfulAt_iff.1 (hclose ref _ hderef)).2 rfl streamId ?_
    rw [continuous_closeStream]
    exact ⟨hne, hentry⟩
  · intro hcareful ref' r' hderef
    rw [deref_closeStream] at hderef
    simp only [truthfulAt_iff, continuous_closeStream]
    split_ifs at hderef with hown
    · -- the resource itself, which loses the id
      obtain ⟨hid, rfl⟩ := hown
      rw [hd] at hderef
      obtain rfl := Option.some.inj hderef
      exact ⟨fun hzero => absurd rfl hzero, fun _ streamId hentry => hcareful hid streamId hentry.1 hentry.2⟩
    · obtain ⟨hentry, hnone⟩ := truthfulAt_iff.1 (h ref' r' hderef)
      refine ⟨fun hid => ⟨fun heq => ?_, hentry hid⟩, fun hid streamId hclosed => hnone hid streamId hclosed.2⟩
      -- its entry is the one that goes, so the request was its own
      obtain rfl := target_of_continuous ht (heq ▸ hentry hid)
      rw [hd] at hderef
      obtain rfl := Option.some.inj hderef
      exact hown ⟨heq, rfl⟩

/-! ## Runs -/

/-- what is asked of the resource that a request reaches -/
theorem forall_target_iff {found : Option (ResourceRef × Resource)} {ref : ResourceRef} {r : Resource}
    {Q : ResourceRef → Resource → Prop} (h : found = some (ref, r)) :
    (∀ ref' r', found = some (ref', r') → Q ref' r') ↔ Q ref r := by
  constructor
  · intro hall
    exact hall ref r h
  · intro hq ref' r' h'
    obtain ⟨rfl, rfl⟩ := Prod.mk.inj (Option.some.inj (h.symm.trans h'))
    exact hq

/-- **One step.** -/
theorem truthful_step_iff {c : Client} (h : c.Truthful) (op : SessionOp) : (step c op).Truthful ↔ c.Careful op := by
  cases op with
  | start request create =>
    rcases ht : c.target (request.setMessageType .startStream) with _ | ⟨ref, r⟩
    · have hsame : SameResources c (step c (.start request create)) := by
        simp only [step, handleMessage, IotmpMessage.messageType_setMessageType]
        exact (handleResourceRequest_sends c _ _ ht).sameResources
      exact iff_of_true (hsame.truthful_same.2 h) fun ref r hr => absurd (ht.symm.trans hr) (by simp)
    · obtain ⟨-, -, hd⟩ := target_eq_some.1 ht
      rw [(start_resources create ht).truthful_same, truthful_openStream h hd request]
      exact (forall_target_iff (Q := fun ref _ => c.CarefulStart request ref) ht).symm
  | stop request stop =>
    rcases ht : c.target (request.setMessageType .stopStream) with _ | ⟨ref, r⟩
    · have hsame : SameResources c (step c (.stop request stop)) := by
        simp only [step, handleMessage, IotmpMessage.messageType_setMessageType]
        exact (handleResourceRequest_sends c _ _ ht).sameResources
      exact iff_of_true (hsame.truthful_same.2 h) fun ref r hr => absurd (ht.symm.trans hr) (by simp)
    · rw [(stop_resources stop ht).truthful_same, truthful_closeStream h ht]
      exact (forall_target_iff (Q := fun ref r => c.CarefulStop request ref r) ht).symm
  | finish i outcome => exact iff_of_true ((finish_resources c i outcome).truthful_same.2 h) trivial
  | release i => exact iff_of_true ((release_resources c i).truthful_same.2 h) trivial

/-- **When `stream_enabled()` tells the truth**, along a run of a client that streams nothing at its start. -/
theorem stream_enabled_iff (c : Client) (hc : c.Unstreamed) (ops : List SessionOp) :
    (∀ ops', ops' <+: ops → (run c ops').Truthful) ↔ Run.Steps step Careful c ops :=
  Run.always_iff_steps (I := fun _ => True) (P := Truthful) (fun _ _ _ => trivial)
    (fun _ op _ h => truthful_step_iff h op) c ops trivial hc.truthful

/-- one resource, `a` -/
def plainClient : Client := { resources := SortedMap.empty.set [0x61] {} }

/-- a request for it -/
def forPlain (streamId : UInt16) (interval : UInt64) : IotmpMessage :=
  (IotmpMessage.setField (.withStreamId streamId .startStream) Field.RESOURCE (.string [0x61])).setField
    Field.PARAMETERS (.object [([0x69, 0x6E, 0x74, 0x65, 0x72, 0x76, 0x61, 0x6C], .numberUnsigned interval)])

theorem deref_plainClient {ref : ResourceRef} {r : Resource} (h : plainClient.deref ref = some r) :
    ref = .resource [0x61] ∧ r = {} := by
  cases ref with
  | resource path =>
    have hget : (SortedMap.empty.set [0x61] ({} : Resource)).get path = some r := h
    rw [SortedMap.get_set] at hget
    split_ifs at hget with hpath
    · exact ⟨congrArg ResourceRef.resource hpath, (Option.some.inj hget).symm⟩
    · exact absurd hget (by simp)
  | event eventId => exact absurd h (by simp [deref, plainClient])

theorem plainClient_unstreamed : plainClient.Unstreamed := by
  refine ⟨fun _ => rfl, ?_⟩
  intro ref r hd
  obtain ⟨-, rfl⟩ := deref_plainClient hd
  rfl

/-- one stream, started and stopped -/
theorem stream_enabled_once :
    (run plainClient [.start (forPlain 5 0) (.returns true)]).Truthful ∧
      (run plainClient [.start (forPlain 5 0) (.returns true), .stop (forPlain 5 0) (.returns ())]).Truthful := by
  have hrun := (stream_enabled_iff plainClient plainClient_unstreamed
    [.start (forPlain 5 0) (.returns true), .stop (forPlain 5 0) (.returns ())]).2 ⟨?_, ?_, trivial⟩
  · exact ⟨hrun [_] (by simp), hrun _ (List.prefix_refl _)⟩
  · intro ref r _
    refine ⟨fun _ => by decide, ?_⟩
    intro ref' r' hd henabled
    obtain ⟨-, rfl⟩ := deref_plainClient hd
    exact absurd henabled (by decide)
  · intro ref r _ _ streamId hne hentry
    have hid : (forPlain 5 0).getStreamId = 5 := by decide
    rw [hid] at hne
    have hget : ((SortedMap.empty.set 5 { resource := some (.resource [0x61]), interval := 0 }).get streamId :
        Option StreamConfig) = some { resource := some ref, interval := 0 } := hentry
    rw [SortedMap.get_set_ne _ _ hne] at hget
    exact absurd hget (by simp)

/-- **Out of step**: two streams, of which the later one is stopped; a stream with the id 0; a stream that starts again
with an interval. -/
theorem enabled_out_of_step :
    ¬ (run plainClient [.start (forPlain 5 0) (.returns true), .start (forPlain 6 0) (.returns true),
      .stop (forPlain 6 0) (.returns ())]).Truthful ∧
    ¬ (run plainClient [.start (forPlain 0 0) (.returns true)]).Truthful ∧
    ¬ (run plainClient [.start (forPlain 5 0) (.returns true), .start (forPlain 5 1000) (.returns true)]).Truthful := by
  refine ⟨fun h => ?_, fun h => ?_, fun h => ?_⟩
  · have henabled := (h (.resource [0x61]) {} rfl).enabled_iff.2 ⟨5, rfl⟩
    exact absurd henabled (by decide)
  · have henabled := (h (.resource [0x61]) {} rfl).enabled_iff.2 ⟨0, rfl⟩
    exact absurd henabled (by decide)
  · have hentry := (h (.resource [0x61]) { streamId := 5 } rfl).streamId (by decide)
    have hinterval : some (1000 : UInt32) = some 0 := congrArg (Option.map StreamConfig.interval) hentry
    exact absurd hinterval (by decide)

end Iotmp.Client
