/-
Resources (`iotmp_resource.hpp`): a user callback of one of five kinds behind a path.

- `Call`: what a call into code of the user or of a session does, return or let an exception out.
- `Input`, `Output`: what a callback is given. It may write to both, so it gives both back.
- `runResource`, `describe`, `fillApi`: a resource on a request. The request is given back too: running an input
  resource creates its payload field, and the callback may change it.
- `getInterval`: `get_value(parameters, "interval", 0u)`.
-/
import Mathlib.Tactic
import Iotmp.Core.Message

namespace Iotmp

inductive Call (α : Type) where
  | returns (value : α)
  | throws
deriving DecidableEq

/-- the bytes of a text -/
def text (s : String) : Bytes := s.toByteArray.data.toList

structure Input where
  streamId : UInt16
  data : Json
  params : Option Json := none
  path : Option Json := none
  describe : Bool := false

structure Output where
  data : Json
  code : Int32 := 0
  describe : Bool := false
  success : Bool := true
  /-- whether the callback registered an `after_response` continuation -/
  afterResponse : Bool := false

inductive Callback where
  | none
  | run (f : Call Unit)
  | input (f : Input → Call Json)
  | output (f : Output → Call Output)
  | inputOutput (f : Input → Output → Call (Json × Output))

/-- `io_type` -/
inductive IoType where
  | none
  | run
  | inputWrapper
  | outputWrapper
  | inputOutputWrapper
deriving DecidableEq, Repr

def IoType.code : IoType → UInt64
  | none => 0
  | run => 1
  | inputWrapper => 2
  | outputWrapper => 3
  | inputOutputWrapper => 4

/-- which stream manager a resource belongs to -/
abbrev ManagerId := ℕ

structure Resource where
  callback : Callback := .none
  /-- the stream handler a manager installed on its resource -/
  streamHandler : Option ManagerId := none
  streamId : UInt16 := 0
  streamEcho : Bool := true

namespace Resource

def ioType (r : Resource) : IoType :=
  match r.callback with
  | .none => .none
  | .run _ => .run
  | .input _ => .inputWrapper
  | .output _ => .outputWrapper
  | .inputOutput _ => .inputOutputWrapper

def streamEnabled (r : Resource) : Bool := r.streamId ≠ 0

/-- `json.empty()` -/
def isEmpty : Json → Bool
  | .null => true
  | .array es => es.isEmpty
  | .object ms => ms.isEmpty
  | _ => false

/-- what `run_resource` returns and leaves behind -/
structure Ran where
  success : Bool
  request : IotmpMessage
  response : IotmpMessage
  afterResponse : Bool := false

/-- the callback's view of a request whose payload field exists -/
def inputOf (request : IotmpMessage) : Input :=
  { streamId := request.getStreamId, data := request.get Field.PAYLOAD, params := request.fields.get Field.PARAMETERS,
    path := request.fields.get 0 }

/-- the response after an output callback: its data, and its return code if it set one -/
def putOutput (response : IotmpMessage) (out : Output) : IotmpMessage :=
  let response := response.setField Field.PAYLOAD out.data
  if out.code ≠ 0 then response.setField Field.PARAMETERS (.numberInteger out.code.toInt64) else response

def runResource (r : Resource) (request response : IotmpMessage) : Call Ran :=
  match r.callback with
  | .none => .returns ⟨true, request, response, false⟩
  | .run f =>
    match f with
    | .throws => .throws
    | .returns () => .returns ⟨true, request, response, false⟩
  | .input f =>
    match f (inputOf request) with
    | .throws => .throws
    | .returns data => .returns ⟨true, request.setField Field.PAYLOAD data, response, false⟩
  | .output f =>
    match f { data := response.get Field.PAYLOAD } with
    | .throws => .throws
    | .returns out => .returns ⟨out.success, request, putOutput response out, out.afterResponse⟩
  | .inputOutput f =>
    match f (inputOf request) { data := response.get Field.PAYLOAD, describe := isEmpty (request.get Field.PAYLOAD) } with
    | .throws => .throws
    | .returns (data, out) =>
      .returns ⟨out.success, request.setField Field.PAYLOAD data, putOutput response out, out.afterResponse⟩

/-- `message[PAYLOAD][key].swap(value)`, unless the value is null -/
def describeInto (key : String) (value : Json) (payload : List (Bytes × Json)) : List (Bytes × Json) :=
  match value with
  | .null => payload
  | value => SortedMap.insert (text key) value payload

/-- the payload field after `describe`; it is left out if nothing was described -/
def putDescription (response : IotmpMessage) (payload : List (Bytes × Json)) : IotmpMessage :=
  if payload.isEmpty then response else response.setField Field.PAYLOAD (.object payload)

/-- `describe` on a response without payload -/
def describe (r : Resource) (response : IotmpMessage) : Call IotmpMessage :=
  match r.callback with
  | .output f =>
    match f { data := .null, describe := true } with
    | .throws => .throws
    | .returns out => .returns (putDescription response (describeInto "out" out.data []))
  | .inputOutput f =>
    match f { streamId := response.getStreamId, data := .null, describe := true } { data := .null, describe := true } with
    | .throws => .throws
    | .returns (data, out) =>
      .returns (putDescription response (describeInto "out" out.data (describeInto "in" data [])))
  | .input f =>
    match f { streamId := response.getStreamId, data := .null, describe := true } with
    | .throws => .throws
    | .returns data => .returns (putDescription response (describeInto "in" data []))
  | .none => .returns response
  | .run _ => .returns response

/-- `fill_api` on a fresh member -/
def fillApi (r : Resource) : Json :=
  match r.ioType with
  | .none => .null
  | type => .object [(text "fn", .numberUnsigned type.code)]

end Resource

/-- `get_value(parameters, "interval", 0u)` -/
def getInterval (parameters : Json) : UInt32 :=
  match parameters with
  | .object ms => ((SortedMap.find (text "interval") ms).bind Json.getUInt32).getD 0
  | _ => 0

end Iotmp
