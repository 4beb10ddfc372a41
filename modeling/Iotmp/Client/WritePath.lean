/-
The write side of the client (`client.hpp`): `send_message` queues a frame, the coroutine `process_write_queue` writes
the queue to the socket, and `write_message` writes a frame of its own. Coroutines run one at a time, up to the next
`co_await`.

- `Coroutine`: a `process_write_queue` that is spawned and has not begun, or a pending `socket->write`, of either kind.
- `sendMessage`, `processWriteQueue`, `writeMessage`: the functions of the source, up to their next suspension.
- `put`, `complete`, `fail`: what the transport does with a pending write: some bytes, the end, an error.
- `connect`, `authenticated`, `lost`: the steps of `run_loop`. Every connection has a socket of its own, counted from 1.
Sending to a socket that was never created is left out.
-/
import Mathlib.Tactic
import Iotmp.Core.Codec
import Iotmp.Core.Logger
import Iotmp.Lib.Run

namespace Iotmp

/-- a message to send, its fields in the iteration order of their map -/
structure Outgoing where
  message : IotmpMessage
  fields : List (UInt8 × Json)
  perm : fields.Perm message.fields.entries

def Outgoing.encoded (m : Outgoing) : Bytes := Codec.encodeMessage m.message.messageType m.fields

structure PendingWrite where
  socket : ℕ
  frame : Bytes
  /-- how many bytes are on the wire -/
  written : ℕ := 0
  /-- whether `process_write_queue` waits for it, else `write_message` -/
  queued : Bool
deriving DecidableEq

inductive Coroutine where
  | processWriteQueue
  | write (w : PendingWrite)
deriving DecidableEq

/-- the write a coroutine waits for -/
def Coroutine.pendingWrite : Coroutine → Option PendingWrite
  | .processWriteQueue => none
  | .write w => some w

structure WritePath where
  logging : Bool := true
  connected : Bool := false
  /-- `socket_`: the connection whose socket it is, 0 for none -/
  socket : ℕ := 0
  isOpen : ℕ → Bool := fun _ => false
  writeQueue : List Bytes := []
  writeInProgress : Bool := false
  coroutines : ℕ → Option Coroutine := fun _ => none
  /-- the number of coroutines so far -/
  spawned : ℕ := 0
  wire : ℕ → Bytes := fun _ => []
  /-- everything `send_message` queued -/
  sent : List Outgoing := []
  /-- the frames `process_write_queue` has written -/
  completed : List Bytes := []

namespace WritePath

/-! ## The functions of the client -/

def spawn (s : WritePath) (c : Coroutine) : WritePath :=
  { s with coroutines := Function.update s.coroutines s.spawned (some c), spawned := s.spawned + 1 }

def setCoroutine (s : WritePath) (i : ℕ) (c : Option Coroutine) : WritePath :=
  { s with coroutines := Function.update s.coroutines i c }

/-- nothing is queued if the logger throws -/
def sendMessage (s : WritePath) (m : Outgoing) : WritePath :=
  if m.message.Logs s.logging then
    let s := { s with writeQueue := s.writeQueue ++ [m.encoded], sent := s.sent ++ [m] }
    if s.writeInProgress then s else { s with writeInProgress := true }.spawn .processWriteQueue
  else s

/-- `process_write_queue` of coroutine `i`, from the test of its loop on -/
def processWriteQueue (s : WritePath) (i : ℕ) : WritePath :=
  match s.writeQueue with
  | [] => { s with writeInProgress := false }.setCoroutine i none
  | data :: queue =>
    if s.connected && s.socket ≠ 0 then
      { s with writeQueue := queue }.setCoroutine i (some (.write ⟨s.socket, data, 0, true⟩))
    else { s with writeInProgress := false }.setCoroutine i none

def writeMessage (s : WritePath) (m : Outgoing) : WritePath :=
  if m.message.Logs s.logging then s.spawn (.write ⟨s.socket, m.encoded, 0, false⟩) else s

/-! ## The transport -/

/-- at most `n` more bytes of a pending write -/
def put (s : WritePath) (i : ℕ) (w : PendingWrite) (n : ℕ) : WritePath :=
  { s with wire := Function.update s.wire w.socket (s.wire w.socket ++ (w.frame.drop w.written).take n) }.setCoroutine i
    (some (.write { w with written := min (w.written + n) w.frame.length }))

def complete (s : WritePath) (i : ℕ) (w : PendingWrite) : WritePath :=
  if w.queued then { s with completed := s.completed ++ [w.frame] }.processWriteQueue i else s.setCoroutine i none

/-- the error branch of `process_write_queue` and of `write_message` -/
def fail (s : WritePath) (i : ℕ) (w : PendingWrite) : WritePath :=
  let s := { s with connected := false, isOpen := Function.update s.isOpen s.socket false }
  if w.queued then { s with writeInProgress := false }.setCoroutine i none else s.setCoroutine i none

/-! ## The connection -/

/-- a new socket takes the place of the old one -/
def connect (s : WritePath) : WritePath :=
  { s with
    socket := s.socket + 1
    isOpen := Function.update (Function.update s.isOpen s.socket false) (s.socket + 1) true }

/-! ## Events -/

inductive WriteEvent where
  | sendMessage (m : Outgoing)
  | writeMessage (m : Outgoing)
  /-- a spawned `process_write_queue` begins -/
  | begin (i : ℕ)
  | put (i n : ℕ)
  | complete (i : ℕ)
  | fail (i : ℕ)
  /-- `read_loop` or the authentication is over -/
  | lost
  | connect
  | authenticated

/-- the pending write of a coroutine -/
def pending (s : WritePath) (i : ℕ) : Option PendingWrite := (s.coroutines i).bind Coroutine.pendingWrite

/-- a write puts bytes on an open socket only, and completes when all are there -/
def step (s : WritePath) : WriteEvent → WritePath
  | .sendMessage m => s.sendMessage m
  | .writeMessage m => s.writeMessage m
  | .begin i => if s.coroutines i = some .processWriteQueue then s.processWriteQueue i else s
  | .put i n =>
    match s.pending i with
    | some w => if s.isOpen w.socket then s.put i w n else s
    | none => s
  | .complete i =>
    match s.pending i with
    | some w => if s.isOpen w.socket ∧ w.written = w.frame.length then s.complete i w else s
    | none => s
  | .fail i =>
    match s.pending i with
    | some w => s.fail i w
    | none => s
  | .lost => { s with connected := false }
  | .connect => if s.connected then s else s.connect
  | .authenticated => { s with connected := true }

abbrev run (s : WritePath) (events : List WriteEvent) : WritePath := Run.run step s events

/-! ## What the functions do -/

theorem sendMessage_unlogged {s : WritePath} {m : Outgoing} (h : ¬ m.message.Logs s.logging) : s.sendMessage m = s := by
  rw [sendMessage, if_neg h]

theorem sendMessage_queued {s : WritePath} {m : Outgoing} (h : m.message.Logs s.logging)
    (hflag : s.writeInProgress = true) :
    s.sendMessage m = { s with writeQueue := s.writeQueue ++ [m.encoded], sent := s.sent ++ [m] } := by
  rw [sendMessage, if_pos h]
  exact if_pos hflag

theorem sendMessage_spawned {s : WritePath} {m : Outgoing} (h : m.message.Logs s.logging)
    (hflag : s.writeInProgress = false) :
    s.sendMessage m =
      { s with writeQueue := s.writeQueue ++ [m.encoded], sent := s.sent ++ [m], writeInProgress := true }.spawn
        .processWriteQueue := by
  rw [sendMessage, if_pos h]
  exact if_neg (by simp [hflag])

theorem processWriteQueue_nil {s : WritePath} (h : s.writeQueue = []) (i : ℕ) :
    s.processWriteQueue i = { s with writeInProgress := false }.setCoroutine i none := by
  rw [processWriteQueue, h]

theorem processWriteQueue_cons {s : WritePath} {data : Bytes} {queue : List Bytes} (h : s.writeQueue = data :: queue)
    (hconn : s.connected = true) (hsock : s.socket ≠ 0) (i : ℕ) :
    s.processWriteQueue i =
      { s with writeQueue := queue }.setCoroutine i (some (.write ⟨s.socket, data, 0, true⟩)) := by
  rw [processWriteQueue, h]
  simp [hconn, hsock]

theorem processWriteQueue_down {s : WritePath} (h : (s.connected && decide (s.socket ≠ 0)) = false) (i : ℕ) :
    s.processWriteQueue i = { s with writeInProgress := false }.setCoroutine i none := by
  rw [processWriteQueue]
  split
  · rfl
  · rw [h]
    rfl

/-! ## Pending writes -/

theorem coroutine_of_pending {s : WritePath} {i : ℕ} {w : PendingWrite} (h : s.pending i = some w) :
    s.coroutines i = some (.write w) := by
  obtain ⟨c, hc, hw⟩ := Option.bind_eq_some_iff.1 h
  cases c with
  | processWriteQueue => exact absurd hw (by simp [Coroutine.pendingWrite])
  | write w' =>
    obtain rfl : w' = w := by simpa [Coroutine.pendingWrite] using hw
    exact hc

theorem pending_of_coroutine {s : WritePath} {i : ℕ} {w : PendingWrite} (h : s.coroutines i = some (.write w)) :
    s.pending i = some w := by
  rw [pending, h]
  rfl

theorem pending_setCoroutine (s : WritePath) (i : ℕ) (c : Option Coroutine) (j : ℕ) :
    (s.setCoroutine i c).pending j = if j = i then c.bind Coroutine.pendingWrite else s.pending j := by
  by_cases hj : j = i
  · rw [if_pos hj, hj]
    simp [pending, setCoroutine]
  · rw [if_neg hj]
    simp [pending, setCoroutine, Function.update_of_ne hj]

theorem pending_put (s : WritePath) (i : ℕ) (w : PendingWrite) (n j : ℕ) :
    (s.put i w n).pending j =
      if j = i then some { w with written := min (w.written + n) w.frame.length } else s.pending j :=
  pending_setCoroutine _ i _ j

end WritePath

end Iotmp
