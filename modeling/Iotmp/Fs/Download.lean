/-
File download sessions (`file_download_session.cpp`): a file is sent in chunks under a byte window, the server
acknowledges bytes. A session moves by the handlers of the io_context (posted closures, timers), by ACKs and by `stop`.

- `start`, `stop`, `handleInput`, `sendNextChunk`, `onChunkAcknowledged`, `startAckTimeout`: the functions of the
  source. `stop` logs and closes; the logged bandwidth is left out.
- `ChunkIo`: what `sendNextChunk` meets outside the session: the bytes of the file from the read position on (none on a
  read error), whether `stream_resource` queues the payload, whether the bandwidth limit asks for a delay.
- `DownloadEvent`, `step`: one handler that is called, or a timer that reaches its expiry time.
-/
import Mathlib.Tactic
import Iotmp.Lib.Run
import Iotmp.Lib.Timer
import Iotmp.Core.Resource
import Iotmp.Fs.Transfer

namespace Iotmp

/-! ## The file -/

/-- an `ifstream` -/
structure InputFile where
  isOpen : Bool := false
  eof : Bool := false
  bad : Bool := false

/-- `read(buffer, n)` and `gcount()` -/
def InputFile.read (f : InputFile) (rest : Option Bytes) (n : ℕ) : Bytes × InputFile :=
  if f.eof || f.bad then ([], f)
  else
    match rest with
    | none => ([], { f with bad := true })
    | some rest => (rest.take n, { f with eof := decide (rest.length < n) })

/-- what `start` finds at the path -/
structure FileProbe where
  found : Bool
  regular : Bool
  opens : Bool
  fileSize : ℕ

structure ChunkIo where
  rest : Option Bytes
  queued : Bool := true
  /-- whether less time has passed since the last chunk than the bandwidth limit gives it -/
  early : Bool := false

/-! ## The session -/

structure FileDownload where
  config : TransferConfig
  fileSize : ℕ := 0
  bytesTransferred : ℕ := 0
  bytesInFlight : ℕ := 0
  waitingForAck : Bool := false
  fileStream : InputFile := {}
  ackTimer : Timer Unit := {}
  rateLimitTimer : Timer Unit := {}
  completionTimer : Timer Unit := {}
  state : SessionState := .idle
  stopping : Bool := false
  errorMessage : String := ""
  selfReference : Bool := false
  /-- closures posted to the io_context that call `send_next_chunk` -/
  posted : ℕ := 0
  /-- payloads queued for the stream -/
  payloads : List Bytes := []

namespace FileDownload

/-- whether the start succeeds, and the session after it -/
def start (s : FileDownload) (probe : FileProbe) : Bool × FileDownload :=
  let s := { s with state := .starting }
  if !probe.found then (false, { s with state := .failed, errorMessage := "File not found" })
  else if !probe.regular then (false, { s with state := .failed, errorMessage := "Not a regular file" })
  else if !probe.opens then (false, { s with state := .failed, errorMessage := "Failed to open file for reading" })
  else
    (true, { s with
      fileStream := { isOpen := true }
      fileSize := probe.fileSize
      state := .inProgress
      selfReference := true
      posted := s.posted + 1 })

/-- the state `stop` leaves behind -/
def stopState (s : FileDownload) : StopReason → SessionState
  | .serverStop => if s.bytesTransferred ≥ s.fileSize ∧ s.fileSize > 0 then .completed else .cancelled
  | .clientStop => if s.state = .failed ∨ s.state = .timedOut then s.state else .cancelled
  | .disconnected => .cancelled

def stop (s : FileDownload) (reason : StopReason) : FileDownload :=
  if s.stopping then s
  else
    { s with
      stopping := true
      ackTimer := s.ackTimer.reset
      completionTimer := s.completionTimer.reset
      rateLimitTimer := s.rateLimitTimer.reset
      selfReference := false
      fileStream := { s.fileStream with isOpen := false }
      state := s.stopState reason }

theorem stop_stopped {s : FileDownload} (hs : s.stopping = true) (reason : StopReason) : s.stop reason = s := by
  rw [stop, if_pos hs]

def startAckTimeout (s : FileDownload) : FileDownload := { s with ackTimer := s.ackTimer.start () }

def awaitAck (s : FileDownload) : FileDownload := { s with waitingForAck := true }.startAckTimeout

/-- step 4: a new completion timer in any case -/
def completeAnew (s : FileDownload) : FileDownload :=
  { s with state := .completed, completionTimer := s.completionTimer.start () }

/-- step 16 and the last ACK: a completion timer if there is none -/
def complete (s : FileDownload) : FileDownload :=
  { s with
    state := .completed
    completionTimer := if s.completionTimer.present then s.completionTimer else s.completionTimer.start () }

/-- steps 1 to 7: no more chunks to send -/
def finishSending (s : FileDownload) : FileDownload :=
  if s.bytesInFlight = 0 then
    if s.state = .inProgress then s.completeAnew
    else if s.state = .completed then s
    else s.stop .clientStop
  else s.awaitAck

/-- step 10: a chunk is counted whether or not it is queued -/
def countChunk (s : FileDownload) (chunk : Bytes) (queued : Bool) : FileDownload :=
  { s with
    payloads := if queued then s.payloads ++ [chunk] else s.payloads
    bytesTransferred := s.bytesTransferred + chunk.length
    bytesInFlight := s.bytesInFlight + chunk.length }

/-- steps 11 to 14: go on at once, after a delay, or wait -/
def continueSending (s : FileDownload) (io : ChunkIo) : FileDownload :=
  if s.bytesInFlight < s.config.windowSize then
    if s.config.maxBandwidthMbps > 0 ∧ io.early then { s with rateLimitTimer := s.rateLimitTimer.start () }
    else { s with posted := s.posted + 1 }
  else s.awaitAck

/-- steps 15 to 17: nothing was read -/
def endOfFile (s : FileDownload) : FileDownload :=
  if s.bytesInFlight = 0 then if s.state = .inProgress then s.complete else s
  else s.awaitAck

def sendNextChunk (s : FileDownload) (io : ChunkIo) : FileDownload :=
  if s.state ≠ .inProgress ∨ !s.fileStream.isOpen ∨ s.fileStream.eof then s.finishSending
  else if s.bytesInFlight ≥ s.config.windowSize then s.awaitAck
  else
    let read := s.fileStream.read io.rest s.config.chunkSize
    let s := { s with fileStream := read.2 }
    if read.1.length > 0 then (s.countChunk read.1 io.queued).continueSending io else s.endOfFile

def onChunkAcknowledged (s : FileDownload) (ackBytes : ℕ) : FileDownload :=
  if s.bytesInFlight ≥ ackBytes then
    let s := { s with bytesInFlight := s.bytesInFlight - ackBytes }
    if s.waitingForAck ∧ s.bytesInFlight < s.config.windowSize then
      let s := { s with waitingForAck := false, ackTimer := s.ackTimer.reset }
      if !s.fileStream.eof ∧ s.state = .inProgress then { s with posted := s.posted + 1 }
      else if s.bytesInFlight = 0 then
        if s.state = .inProgress ∧ s.bytesTransferred ≥ s.fileSize then s.complete
        else if s.state ≠ .completed then s.stop .clientStop
        else s
      else s
    else s
  else s

/-- the bytes an ACK confirms, unless the input is no object or its `bytes` are no number, which throws -/
def ackBytes (s : FileDownload) : Json → Option ℕ
  | .object ms =>
    match SortedMap.find (text "bytes") ms with
    | none => some s.config.chunkSize
    | some v => (Json.getSize v).map fun n => if n > 0 then n.toNat else s.config.chunkSize
  | _ => none

def handleInput (s : FileDownload) (v : Json) : FileDownload :=
  match s.ackBytes v with
  | none => s
  | some n => s.onChunkAcknowledged n

/-! ## Handlers of the io_context -/

def onAckTimeout (s : FileDownload) : FileDownload :=
  if s.waitingForAck ∧ s.ackTimer.present then
    { s with
      state := .timedOut
      errorMessage := "Timeout waiting for acknowledgments"
      ackTimer := s.ackTimer.reset }.stop .clientStop
  else s

def onCompletionTimeout (s : FileDownload) : FileDownload :=
  if s.selfReference then
    { s with state := .timedOut, errorMessage := "Timeout waiting for server response" }.stop .clientStop
  else s

inductive DownloadTimer where
  | ack
  | rateLimit
  | completion
deriving DecidableEq, Repr

inductive DownloadEvent where
  | posted (io : ChunkIo)
  | expired (timer : DownloadTimer)
  | ackTimeout
  | rateLimit (io : ChunkIo)
  | completionTimeout
  | input (v : Json)
  | stop (reason : StopReason)

def expire (s : FileDownload) : DownloadTimer → FileDownload
  | .ack => { s with ackTimer := s.ackTimer.expire }
  | .rateLimit => { s with rateLimitTimer := s.rateLimitTimer.expire }
  | .completion => { s with completionTimer := s.completionTimer.expire }

/-- nothing happens for a handler that is not queued -/
def step (s : FileDownload) : DownloadEvent → FileDownload
  | .posted io => if s.posted = 0 then s else { s with posted := s.posted - 1 }.sendNextChunk io
  | .expired timer => s.expire timer
  | .ackTimeout =>
    match s.ackTimer.next with
    | none => s
    | some (_, t) => { s with ackTimer := t }.onAckTimeout
  | .rateLimit io =>
    match s.rateLimitTimer.next with
    | none => s
    | some (_, t) => { s with rateLimitTimer := t }.sendNextChunk io
  | .completionTimeout =>
    match s.completionTimer.next with
    | none => s
    | some (_, t) => { s with completionTimer := t }.onCompletionTimeout
  | .input v => s.handleInput v
  | .stop reason => s.stop reason

abbrev run (s : FileDownload) (events : List DownloadEvent) : FileDownload := Run.run step s events

/-- a session whose start succeeded -/
def started (config : TransferConfig) (fileSize : ℕ) : FileDownload :=
  (start { config := config } ⟨true, true, true, fileSize⟩).2

end FileDownload

end Iotmp
