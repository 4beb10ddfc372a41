/-
The client's connection cycle (`client.hpp`: `run_loop`, `connect`, `authenticate`, `read_loop`, `notify_state`, `delay`,
`start`, `stop`).

- `LoopPoint`: where the coroutine `run_loop` stands; it goes on in steps that notify once or wait once at most.
- `callback`: the state callback, over everything notified so far with the last notification at the end. It may throw.
- `LoopEvent.elsewhere`: what other coroutines and threads do to the client. Only `run_loop` sets `connected_`.
- `LoopEvent.stop` is `stop()` up to `running_ = false`; at `stopped` the pool is stopped, no coroutine goes on any more,
  and `stop()` notifies DISCONNECTED.
The sockets, the timers and the log are left out.
-/
import Mathlib.Tactic
import Iotmp.Lib.Guarded
import Iotmp.Client.Events

namespace Iotmp

/-- `client_state` -/
inductive ClientState where
  | connecting
  | connected
  | authenticating
  | authenticated
  | authFailed
  | disconnected
  | connectionError
  | streamsReady
deriving DecidableEq

/-- what a `catch` gets -/
inductive Thrown where
  | exception (what : Bytes)
  | unknown
deriving DecidableEq

def Thrown.reason : Thrown → Bytes
  | .exception what => what
  | .unknown => text "unknown exception"

/-- a call of `notify_state` -/
structure Notification where
  state : ClientState
  reason : Bytes := []
deriving DecidableEq

structure Credentials where
  username : Bytes
  deviceId : Bytes
  devicePassword : Bytes

/-- the message of `authenticate` -/
def Credentials.connectMessage (c : Credentials) (streamId : UInt16) : IotmpMessage :=
  (IotmpMessage.withStreamId streamId .connect).setField Field.PAYLOAD
    (.array [.string c.username, .string c.deviceId, .string c.devicePassword])

inductive LoopPoint where
  /-- `while(running_)` -/
  | checkRunning
  | connecting
  | awaitConnect
  | connectError (message : Bytes)
  | connected
  | authenticating
  | awaitWrite
  | awaitAnswer
  | authFailed (reason : Bytes)
  | authenticated
  /-- `connected_ = true` -/
  | accepted
  | awaitStreams
  | streamsReady
  /-- `while(running_ && connected_)` -/
  | checkConnected
  | awaitMessage
  /-- in a handler of `run_loop` -/
  | caught (thrown : Thrown)
  | disconnected
  | checkReconnect
  | delaying
  | returned
  /-- an exception left the coroutine -/
  | escaped
deriving DecidableEq

structure RunLoop where
  subscriber : Subscriber
  running : Bool := true
  point : LoopPoint := .checkRunning
  notified : List Notification := []
  /-- how often `RECONNECT_DELAY` went by -/
  delays : ℕ := 0
  /-- how often an exception of the timer ended `delay` at once -/
  cutShort : ℕ := 0
  halted : Bool := false

inductive LoopEvent where
  /-- a step in which the loop waits for nothing -/
  | advance
  /-- `socket_->connect` or `websocket_connect`, with the message of an error -/
  | connect (result : Except Thrown (Option Bytes))
  | write (streamId : UInt16) (thrown : Thrown) (written : Bool)
  | read (outcome : ReadOutcome) (thrown : Thrown)
  | initializeStreams (script : UInt8 → Exchange) (thrown : Thrown)
  | wake
  /-- the timer of `delay` throws, which `delay` catches -/
  | delayThrows
  | elsewhere (subscriber : Subscriber)
  | stop
  | stopped

namespace RunLoop

variable (callback : List Notification → Option Thrown) (credentials : Credentials)

def connected (s : RunLoop) : Bool := s.subscriber.client.connected

def setConnected (s : RunLoop) (connected : Bool) : RunLoop :=
  { s with subscriber := { s.subscriber with client := { s.subscriber.client with connected := connected } } }

/-- `notify_state`, then on to the next point or to where the exception goes -/
def notifyState (s : RunLoop) (n : Notification) (next : LoopPoint) (handler : Thrown → LoopPoint) : RunLoop :=
  let notified := s.notified ++ [n]
  { s with
    notified := notified
    point :=
      match callback notified with
      | none => next
      | some thrown => handler thrown }

/-- nothing catches it -/
def uncaught (_ : Thrown) : LoopPoint := .escaped

/-- from a point where the loop waits for nothing -/
def advance (s : RunLoop) : Option RunLoop :=
  match s.point with
  | .checkRunning => some { s with point := if s.running then .connecting else .returned }
  | .connecting => some (s.notifyState callback ⟨.connecting, []⟩ .awaitConnect .caught)
  | .connectError message => some (s.notifyState callback ⟨.connectionError, message⟩ .disconnected .caught)
  | .connected => some (s.notifyState callback ⟨.connected, []⟩ .authenticating .caught)
  | .authenticating => some (s.notifyState callback ⟨.authenticating, []⟩ .awaitWrite .caught)
  | .authFailed reason => some (s.notifyState callback ⟨.authFailed, reason⟩ .disconnected .caught)
  | .authenticated => some (s.notifyState callback ⟨.authenticated, []⟩ .accepted .caught)
  | .accepted => some { s.setConnected true with point := .awaitStreams }
  | .streamsReady => some (s.notifyState callback ⟨.streamsReady, []⟩ .checkConnected .caught)
  | .checkConnected => some { s with point := if s.running && s.connected then .awaitMessage else .disconnected }
  | .caught thrown => some (s.notifyState callback ⟨.connectionError, thrown.reason⟩ .disconnected uncaught)
  | .disconnected => some ((s.setConnected false).notifyState callback ⟨.disconnected, []⟩ .checkReconnect uncaught)
  | .checkReconnect => some { s with point := if s.running then .delaying else .checkRunning }
  | _ => none

/-- `write_message(connect_msg)` -/
def writeConnect (s : RunLoop) (streamId : UInt16) (thrown : Thrown) (written : Bool) : RunLoop :=
  if (credentials.connectMessage streamId).Logs s.subscriber.client.logging then
    if written then { s with point := .awaitAnswer }
    else { s.setConnected false with point := .authFailed (text "io_error") }
  else { s with point := .caught thrown }

/-- `authenticate`, from the answer on -/
def answer (s : RunLoop) (outcome : ReadOutcome) (thrown : Thrown) : RunLoop :=
  match consume .authenticate outcome with
  | .throws => { s with point := .caught thrown }
  | .answer true _ => { s with point := .authenticated }
  | .answer false _ => { s with point := .authFailed [] }
  | _ => { s with point := .authFailed (text "io_error") }

/-- `read_loop`, after `read_message`; `handle_message` runs in a coroutine of its own -/
def readMessage (s : RunLoop) (outcome : ReadOutcome) (thrown : Thrown) : RunLoop :=
  match consume .readLoop outcome with
  | .throws => { s with point := .caught thrown }
  | .handle _ => { s with point := .checkConnected }
  | _ => { s with point := .disconnected }

def step (s : RunLoop) (e : LoopEvent) : Option RunLoop :=
  if s.halted then none
  else
    match e with
    | .advance => s.advance callback
    | .connect result =>
      if s.point = .awaitConnect then
        match result with
        | .error thrown => some { s with point := .caught thrown }
        | .ok (some message) => some { s with point := .connectError message }
        | .ok none => some { s with point := .connected }
      else none
    | .write streamId thrown written =>
      if s.point = .awaitWrite then some (s.writeConnect credentials streamId thrown written) else none
    | .read outcome thrown =>
      if s.point = .awaitAnswer then some (s.answer outcome thrown)
      else if s.point = .awaitMessage then some (s.readMessage outcome thrown)
      else none
    | .initializeStreams script thrown =>
      if s.point = .awaitStreams then
        let initialized := s.subscriber.initializeStreams script
        some { s with
          subscriber := initialized.1
          point := if initialized.2 then .streamsReady else .caught thrown }
      else none
    | .wake =>
      if s.point = .delaying then some { s with point := .checkRunning, delays := s.delays + 1 } else none
    | .delayThrows =>
      if s.point = .delaying then some { s with point := .checkRunning, cutShort := s.cutShort + 1 } else none
    | .elsewhere subscriber =>
      -- nobody else sets `connected_`
      if subscriber.client.connected && !s.connected then none else some { s with subscriber := subscriber }
    | .stop => if s.running then some { s with running := false } else none
    | .stopped =>
      if s.running then none
      else some { s with halted := true, notified := s.notified ++ [⟨.disconnected, []⟩] }

/-- the state after `start()` -/
def start (subscriber : Subscriber) : RunLoop :=
  { subscriber := { subscriber with client := { subscriber.client with connected := false } } }

abbrev run (s : RunLoop) (events : List LoopEvent) : RunLoop := Guarded.run (step callback credentials) s events

end RunLoop

end Iotmp
