/-
Handling a message (`client.hpp`: `handle_message`, `handle_resource_request`).

Every handler gives the state it leaves and whether it returned. An exception leaves the state as far as it got, and is
dropped, since the handlers run in detached coroutines.
-/
import Mathlib.Tactic
import Iotmp.Client.StreamManager

namespace Iotmp

/-- what the session code called while a request is handled does -/
structure SessionCode where
  create : Call Bool := .returns true
  stop : Call Unit := .returns ()

namespace Client

/-! ## The resource of a request -/

/-- stream data and STOP_STREAM go to the stream's resource; otherwise the resource field is matched, and its captures
go to field 0 -/
def resolve (c : Client) (request : IotmpMessage) : Call (Option ResourceRef × IotmpMessage) :=
  let fromStream :=
    if request.messageType = .streamData ∨ request.messageType = .stopStream then
      (c.streams.get request.getStreamId).bind StreamConfig.resource
    else none
  match fromStream with
  | some ref => .returns (some ref, request)
  | none =>
    match request.fields.get Field.RESOURCE with
    | some (.string path) =>
      match getResource c.resources.entries path (request.get 0) with
      | .throws => .throws
      | .returns (found, pathMatches) => .returns (found.map .resource, request.setField 0 pathMatches)
    | _ => .returns (none, request)

/-- the request the handlers get has the type and the stream id of the one that arrived -/
theorem resolve_kept {c : Client} {request request' : IotmpMessage} {ref : Option ResourceRef}
    (h : c.resolve request = .returns (ref, request')) :
    request'.messageType = request.messageType ∧ request'.getStreamId = request.getStreamId := by
  unfold resolve at h
  simp only at h
  split at h
  · cases h; exact ⟨rfl, rfl⟩
  · split at h
    · split at h
      · cases h
      · cases h; exact ⟨rfl, IotmpMessage.getStreamId_setField_ne _ _ (by decide)⟩
    · cases h; exact ⟨rfl, rfl⟩

/-! ## The branches -/

/-- the API listing of a DESCRIBE without resource -/
def describeApi (c : Client) (response : IotmpMessage) : IotmpMessage :=
  match c.resources.entries with
  | [] => response
  | entries =>
    response.setField Field.PAYLOAD (.object (entries.foldl (fun api e => SortedMap.insert e.1 e.2.fillApi api) []))

def handleNoResource (c : Client) (request : IotmpMessage) : Client × Bool :=
  if request.messageType = .describe ∧ ¬ request.hasField Field.RESOURCE then
    c.sendMessage (c.describeApi (.withStreamId request.getStreamId .ok))
  else if request.messageType ≠ .streamData then c.sendMessage (.withStreamId request.getStreamId .error)
  else (c, true)

def handleRun (c : Client) (resource : Resource) (request : IotmpMessage) : Client × Bool :=
  match resource.runResource request (.withStreamId request.getStreamId .ok) with
  | .throws => (c, false)
  | .returns ran => c.sendMessage (ran.response.setMessageType (if ran.success then .ok else .error))

def handleDescribe (c : Client) (resource : Resource) (request : IotmpMessage) : Client × Bool :=
  match resource.describe (.withStreamId request.getStreamId .ok) with
  | .throws => (c, false)
  | .returns response => c.sendMessage response

/-- `streams_[stream_id]` and the resource's own stream id -/
def openStream (c : Client) (ref : ResourceRef) (request : IotmpMessage) : Client :=
  let interval := getInterval (request.get Field.PARAMETERS)
  let c := c.setStream request.getStreamId { resource := some ref, interval := interval }
  if interval = 0 then c.setResourceStreamId ref request.getStreamId else c

def handleStartStream (c : Client) (ref : ResourceRef) (resource : Resource) (request : IotmpMessage)
    (create : Call Bool) : Client × Bool :=
  let streamId := request.getStreamId
  let c := c.openStream ref request
  match resource.streamHandler with
  | some manager => c.managerStart manager streamId ref create
  | none =>
    match c.sendMessage (.withStreamId streamId .ok) with
    | (c, false) => (c, false)
    | (c, true) => if resource.streamEcho then c.streamResource resource streamId else (c, true)

/-- `streams_.erase` and the resource's own stream id -/
def closeStream (c : Client) (ref : ResourceRef) (resource : Resource) (streamId : UInt16) : Client :=
  let c := if resource.streamId = streamId then c.setResourceStreamId ref 0 else c
  c.eraseStream streamId

def handleStopStream (c : Client) (ref : ResourceRef) (resource : Resource) (request : IotmpMessage)
    (stop : Call Unit) : Client × Bool :=
  let streamId := request.getStreamId
  let c := c.closeStream ref resource streamId
  match resource.streamHandler with
  | some manager =>
    match c.managerStop manager streamId stop with
    | (c, .throws) => (c, false)
    | (c, .returns stopped) => c.sendMessage ((ExecResult.ofBool stopped).message.setStreamId streamId)
  | none => c.sendMessage (.withStreamId streamId .ok)

def handleStreamData (c : Client) (resource : Resource) (request : IotmpMessage) : Client × Bool :=
  match resource.runResource request (.withStreamId request.getStreamId .streamData) with
  | .throws => (c, false)
  | .returns _ =>
    if resource.streamEcho ∧ (resource.ioType = .inputWrapper ∨ resource.ioType = .inputOutputWrapper) then
      c.streamResource resource request.getStreamId
    else (c, true)

def handleResource (c : Client) (ref : ResourceRef) (resource : Resource) (request : IotmpMessage)
    (code : SessionCode) : Client × Bool :=
  match request.messageType with
  | .run => c.handleRun resource request
  | .describe => c.handleDescribe resource request
  | .startStream => c.handleStartStream ref resource request code.create
  | .stopStream => c.handleStopStream ref resource request code.stop
  | .streamData => c.handleStreamData resource request
  | _ => (c, true)

def handleResourceRequest (c : Client) (request : IotmpMessage) (code : SessionCode) : Client × Bool :=
  match c.resolve request with
  | .throws => (c, false)
  | .returns (none, request) => c.handleNoResource request
  | .returns (some ref, request) =>
    match c.deref ref with
    -- a dangling pointer
    | none => (c, false)
    | some resource => c.handleResource ref resource request code

def handleMessage (c : Client) (message : IotmpMessage) (code : SessionCode) : Client × Bool :=
  match message.messageType with
  | .run | .describe | .startStream | .stopStream | .streamData => c.handleResourceRequest message code
  | _ => (c, true)

end Client

end Iotmp
