/-
The client's tables (`client.hpp`): registered resources, event subscriptions, active streams, and under them the
sessions of the stream managers.

- `ResourceRef`: an `iotmp_resource*`. It names the map entry it points into; `deref` follows it.
- `Session`: a session object. It is starting until `session->start()` returned, then running or failed, and it stays
  alive until its last reference is dropped. `sessions m id` is the entry a manager's `sessions_` holds.
- `sendMessage`: logging, which may throw, and the write queue. `sent` is everything ever queued.
- `matchesPath`, `getResource`: the dispatch of a request path over the registered patterns.
-/
import Mathlib.Tactic
import Iotmp.Core.Logger
import Iotmp.Core.Resource

namespace Iotmp

inductive ResourceRef where
  | resource (path : Bytes)
  | event (eventId : UInt8)
deriving DecidableEq

structure StreamConfig where
  resource : Option ResourceRef := none
  interval : UInt32 := 0

inductive SessionPhase where
  | starting
  | started
  | failed
deriving DecidableEq

structure Session where
  streamId : UInt16
  manager : ManagerId
  /-- the resource the START_STREAM named, as its answer handler holds it -/
  resource : ResourceRef
  phase : SessionPhase := .starting
  /-- whether `session->stop()` was called and returned -/
  stopped : Bool := false
  alive : Bool := true
  /-- whether the manager set its listener -/
  onEnd : Bool := false
deriving DecidableEq

structure Client where
  resources : SortedMap Bytes Resource := SortedMap.empty
  events : SortedMap UInt8 Resource := SortedMap.empty
  streams : SortedMap UInt16 StreamConfig := SortedMap.empty
  sessions : ManagerId → UInt16 → Option ℕ := fun _ _ => none
  objects : List Session := []
  connected : Bool := true
  logging : Bool := true
  sent : List IotmpMessage := []

namespace Client

/-! ## Resources behind pointers -/

def deref (c : Client) : ResourceRef → Option Resource
  | .resource path => c.resources.get path
  | .event eventId => c.events.get eventId

/-- `resource->set_stream_id(stream_id)` -/
def setResourceStreamId (c : Client) (ref : ResourceRef) (streamId : UInt16) : Client :=
  match c.deref ref, ref with
  | none, _ => c
  | some r, .resource path => { c with resources := c.resources.set path { r with streamId := streamId } }
  | some r, .event eventId => { c with events := c.events.set eventId { r with streamId := streamId } }

def setStream (c : Client) (streamId : UInt16) (config : StreamConfig) : Client :=
  { c with streams := c.streams.set streamId config }

def eraseStream (c : Client) (streamId : UInt16) : Client := { c with streams := c.streams.remove streamId }

/-! ## Sending -/

/-- `send_message`: false if the logger throws, before anything is queued -/
def sendMessage (c : Client) (message : IotmpMessage) : Client × Bool :=
  if message.Logs c.logging then ({ c with sent := c.sent ++ [message] }, true) else (c, false)

/-- `stop_stream` -/
def stopStream (c : Client) (streamId : UInt16) : Client × Bool :=
  if c.connected then c.sendMessage (.withStreamId streamId .stopStream) else (c, true)

/-- `stream_resource(resource, stream_id)` -/
def streamResource (c : Client) (resource : Resource) (streamId : UInt16) : Client × Bool :=
  match resource.runResource { messageType := .streamData } { messageType := .streamData } with
  | .throws => (c, false)
  | .returns ran =>
    -- output resources write to the response, input resources to the request
    let message := if ran.response.hasField Field.PAYLOAD then ran.response else ran.request
    if message.hasField Field.PAYLOAD then c.sendMessage (message.setStreamId streamId) else (c, true)

end Client

/-! ## Finding a resource by its path -/

def slash : UInt8 := 0x2F

/-- `path_matches[key] = value`: a type error on anything but an object or null -/
def assignMatch (pathMatches : Json) (key value : Bytes) : Call Json :=
  match pathMatches with
  | .null => .returns (.object [(key, .string value)])
  | .object ms => .returns (.object (SortedMap.insert key (.string value) ms))
  | _ => .throws

/-- the loop of `matches`, on what is left of the pattern and of the path; every round takes at least one byte of the
pattern, which bounds them -/
def matchesLoop : ℕ → Bytes → Bytes → Json → Call (Bool × Json)
  | 0, _, _, pathMatches => .returns (false, pathMatches)
  | _ + 1, [], reqPath, pathMatches => .returns (reqPath.isEmpty, pathMatches)
  | fuel + 1, c :: resPath, reqPath, pathMatches =>
    if c = 0x2A then
      let key := resPath.takeWhile (· ≠ slash)
      if key.isEmpty then .returns (false, pathMatches)
      else
        match assignMatch pathMatches key reqPath with
        | .throws => .throws
        | .returns pathMatches => .returns ((resPath.dropWhile (· ≠ slash)).isEmpty, pathMatches)
    else if c = 0x3A then
      let key := resPath.takeWhile (· ≠ slash)
      match assignMatch pathMatches key (reqPath.takeWhile (· ≠ slash)) with
      | .throws => .throws
      | .returns pathMatches =>
        matchesLoop fuel (resPath.dropWhile (· ≠ slash)) (reqPath.dropWhile (· ≠ slash)) pathMatches
    else
      match reqPath with
      | [] => .returns (false, pathMatches)
      | d :: reqPath => if c ≠ d then .returns (false, pathMatches) else matchesLoop fuel resPath reqPath pathMatches

def matchesPath (resPath reqPath : Bytes) (pathMatches : Json) : Call (Bool × Json) :=
  matchesLoop (resPath.length + 1) resPath reqPath pathMatches

/-- `get_resource`: the first registered pattern that matches; captures of the ones tried before it stay behind -/
def getResource : List (Bytes × Resource) → Bytes → Json → Call (Option Bytes × Json)
  | [], _, pathMatches => .returns (none, pathMatches)
  | (resourcePath, _) :: rest, requestPath, pathMatches =>
    match matchesPath resourcePath requestPath pathMatches with
    | .throws => .throws
    | .returns (true, pathMatches) => .returns (some resourcePath, pathMatches)
    | .returns (false, pathMatches) => getResource rest requestPath pathMatches

end Iotmp
