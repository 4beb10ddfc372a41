/-
Sessions that relay bytes: a connection to another host (`proxy_session.cpp`) and a shell on a terminal
(`terminal_session.cpp`).

Input of the stream is queued, and `write_loop` writes it to the other side; `read_loop` streams what the other side
says. Both coroutines test `running_` and the socket or descriptor before every operation. They move by completions that
are queued before they are handled, so that `stop` can come in between.

- `RelayKind`: the two differ in the size of the read buffer and in what they count when. The loop of a proxy stops it
  when it finds the socket closed; a terminal has a shell, which its `stop` signals.
- `RelaySession`: the session, with what the other side said, read or not, and `frames`, the payloads it streamed.
- `RelayEvent`, `step`: one completion, one coroutine that is resumed, one call from outside, or something the other
  side does. Whether the client is connected when a payload is streamed is an argument.
Window sizes are left out.
-/
import Mathlib.Tactic
import Iotmp.Core.Resource
import Iotmp.Lib.Guarded
import Iotmp.Lib.SerialWriter

namespace Iotmp

inductive RelayKind where
  | proxy
  | terminal
deriving DecidableEq, Repr

def PROXY_BUFFER_SIZE : ℕ := 4096

def TERMINAL_BUFFER_SIZE : ℕ := 1024

def RelayKind.bufferSize : RelayKind → ℕ
  | proxy => PROXY_BUFFER_SIZE
  | terminal => TERMINAL_BUFFER_SIZE

/-- `read_loop`: a read that is over has bytes, or an error -/
inductive ReadLoop where
  | idle
  | spawned
  | waiting
  | queued (bytes : Option Bytes)
  | ended
deriving DecidableEq, Repr

structure RelaySession where
  running : Bool := false
  /-- `socket_` or `descriptor_` -/
  isOpen : Bool := false
  readLoop : ReadLoop := .idle
  /-- `write_queue_`, `write_in_progress_` and `write_loop` -/
  writer : SerialWriter UInt8 := {}
  sent : ℕ := 0
  received : ℕ := 0
  /-- the shell, 0 for none -/
  pid : ℤ := 0
  /-- whom `stop` sent a SIGHUP -/
  signalled : List ℤ := []
  /-- all that the other side said, and the part of it that was not read -/
  said : Bytes := []
  pipe : Bytes := []
  /-- the other side says nothing more -/
  hungUp : Bool := false
  frames : List Bytes := []
deriving DecidableEq, Repr

namespace RelaySession

/-! ## start -/

def launch (s : RelaySession) : RelaySession := { s with running := true, isOpen := true, readLoop := .spawned }

/-- `proxy_session::start`: whether it succeeds -/
def proxyStart (s : RelaySession) (connects : Bool) : Bool × RelaySession :=
  if connects then (true, s.launch) else (false, s)

/-- `terminal_session::start`: `forkpty` gives the pid of the shell, -1 for an error -/
def terminalStart (s : RelaySession) (terminal : Bytes) (forkpty : ℤ) : Bool × RelaySession :=
  if s.pid ≠ 0 ∨ s.isOpen ∨ terminal = [] then (false, s)
  else
    let s := { s with pid := forkpty }
    if forkpty > 0 then (true, s.launch) else (false, s)

/-! ## stop -/

/-- the socket or descriptor is closed, which ends a read that waits -/
def close (s : RelaySession) : RelaySession :=
  { s with isOpen := false, readLoop := if s.readLoop = .waiting then .queued none else s.readLoop }

/-- a proxy has no shell -/
def hangUpShell (s : RelaySession) : RelaySession :=
  if s.pid ≠ 0 then { s with signalled := s.signalled ++ [s.pid], pid := 0 } else s

def stop (s : RelaySession) : RelaySession := { s with running := false }.hangUpShell.close

/-! ## Input of the stream -/

def handleInput (kind : RelayKind) (s : RelaySession) (payload : Json) : RelaySession :=
  if !s.running then s
  else
    match payload with
    | .binary data _ =>
      if data = [] then s
      else
        { s with
          received := if kind = .terminal then s.received + data.length else s.received
          writer := s.writer.push data }
    | _ => s

/-! ## write_loop -/

/-- what the loop asks for besides data -/
def mayWrite (s : RelaySession) : Bool := s.running && s.isOpen

/-- a proxy that has data and finds the socket closed -/
def findClosed (kind : RelayKind) (s : RelaySession) : RelaySession :=
  if kind = .proxy ∧ s.running ∧ ¬ s.isOpen ∧ s.writer.queue ≠ [] then s.stop else s

def beginWrite (kind : RelayKind) (s : RelaySession) (i : ℕ) : Option RelaySession :=
  (s.writer.begin i s.mayWrite).map fun w => { s.findClosed kind with writer := w }

/-- bytes reach the other side as long as the socket or descriptor is open -/
def putWrite (s : RelaySession) (i n : ℕ) : Option RelaySession :=
  if s.isOpen then (s.writer.put i n).map fun w => { s with writer := w } else none

/-- the size of the data that loop `i` writes -/
def blockSize (s : RelaySession) (i : ℕ) : ℕ :=
  match s.writer.loops[i]? with
  | some (.writing data _) => data.length
  | _ => 0

def finishWrite (kind : RelayKind) (s : RelaySession) (i : ℕ) : Option RelaySession :=
  (s.writer.finish i s.mayWrite).map fun w =>
    { s.findClosed kind with
      sent := if kind = .proxy then s.sent + s.blockSize i else s.sent
      writer := w }

def failWrite (s : RelaySession) (i : ℕ) : Option RelaySession :=
  (s.writer.fail i).map fun w => { s.stop with writer := w }

/-! ## read_loop -/

/-- `read_loop` at its condition -/
def nextRead (s : RelaySession) : RelaySession :=
  { s with readLoop := if s.running && s.isOpen then .waiting else .ended }

/-- a read ends with up to `n + 1` bytes, or at the end of what there is -/
def readReady (kind : RelayKind) (s : RelaySession) (n : ℕ) : Option RelaySession :=
  if s.readLoop = .waiting then
    let size := min (n + 1) kind.bufferSize
    if s.pipe ≠ [] then
      some { s with pipe := s.pipe.drop size, readLoop := .queued (some (s.pipe.take size)) }
    else if s.hungUp then some { s with readLoop := .queued none }
    else none
  else none

def countRead (kind : RelayKind) (s : RelaySession) (bytes : Bytes) : RelaySession :=
  match kind with
  | .proxy => { s with received := s.received + bytes.length }
  | .terminal => { s with sent := s.sent + bytes.length }

/-- `read_loop` begins, or goes on after a read -/
def resumeRead (kind : RelayKind) (s : RelaySession) (connected : Bool) : Option RelaySession :=
  match s.readLoop with
  | .spawned => some s.nextRead
  | .queued none => some { s.stop with readLoop := .ended }
  | .queued (some bytes) =>
    if kind = .terminal ∧ bytes = [] then some s.nextRead
    else if connected then some { s.countRead kind bytes with frames := s.frames ++ [bytes] }.nextRead
    else some { (s.countRead kind bytes).stop with readLoop := .ended }
  | _ => none

/-! ## Events -/

inductive RelayEvent where
  | input (payload : Json)
  | beginWrite (i : ℕ)
  | putWrite (i n : ℕ)
  | finishWrite (i : ℕ)
  | failWrite (i : ℕ)
  | readReady (n : ℕ)
  | resumeRead (connected : Bool)
  | stop
  /-- the socket or descriptor is closed, but not by `stop` -/
  | close
  | say (bytes : Bytes)
  | hangUp

def step (kind : RelayKind) (s : RelaySession) : RelayEvent → Option RelaySession
  | .input payload => some (s.handleInput kind payload)
  | .beginWrite i => s.beginWrite kind i
  | .putWrite i n => s.putWrite i n
  | .finishWrite i => s.finishWrite kind i
  | .failWrite i => s.failWrite i
  | .readReady n => s.readReady kind n
  | .resumeRead connected => s.resumeRead kind connected
  | .stop => some s.stop
  | .close => some s.close
  | .say bytes =>
    if s.hungUp then none else some { s with said := s.said ++ bytes, pipe := s.pipe ++ bytes }
  | .hangUp => some { s with hungUp := true }

abbrev run (kind : RelayKind) (s : RelaySession) (events : List RelayEvent) : RelaySession :=
  Guarded.run (step kind) s events

/-- a session whose start succeeded -/
def started (kind : RelayKind) (pid : ℤ) : RelaySession :=
  match kind with
  | .proxy => (proxyStart {} true).2
  | .terminal => (terminalStart {} (text "sh") pid).2

end RelaySession

end Iotmp
