/-
File upload sessions (`file_upload_session.cpp`): the server streams the chunks of a file, the session writes them and
acknowledges bytes. A session moves by chunks, by the handlers of its timers and by `stop`.

- `start`, `stop`, `handleInput`, `handleUploadChunk`, `sendAck`, `startReceiveTimeout`: the functions of the source.
  What they only log is left out.
- `file` is the destination file, none once it is removed. `acks` is every ACK handed to `stream_resource`.
- `UploadIo`: what a chunk meets outside the session: whether the write succeeds, whether the bandwidth limit asks for a
  delay of the ACK.
- `UploadEvent`, `step`: one handler that is called, or a timer that reaches its expiry time.
-/
import Mathlib.Tactic
import Iotmp.Lib.Run
import Iotmp.Lib.Timer
import Iotmp.Fs.Transfer

namespace Iotmp

structure UploadIo where
  written : Bool := true
  /-- whether less time has passed since the last ACK than the bandwidth limit gives the bytes received since -/
  early : Bool := false

structure UploadAck where
  ack : UInt32
  bytes : ℕ
deriving DecidableEq, Repr

structure FileUpload where
  config : TransferConfig
  bytesReceived : ℕ := 0
  bytesSinceLastAck : ℕ := 0
  ackNumber : UInt32 := 0
  ackThreshold : ℕ := 0
  fileOpen : Bool := false
  file : Option Bytes := none
  receiveTimeoutTimer : Timer Unit := {}
  /-- its handler has captured the bytes to acknowledge -/
  rateLimitTimer : Timer ℕ := {}
  state : SessionState := .idle
  stopping : Bool := false
  errorMessage : String := ""
  selfReference : Bool := false
  acks : List UploadAck := []

namespace FileUpload

def startReceiveTimeout (s : FileUpload) : FileUpload :=
  { s with receiveTimeoutTimer := s.receiveTimeoutTimer.start () }

/-- whether the start succeeds, and the session after it; the file is created or truncated -/
def start (s : FileUpload) (opens : Bool) : Bool × FileUpload :=
  let s := { s with state := .starting }
  if !opens then (false, { s with state := .failed, errorMessage := "Failed to open file for writing" })
  else
    (true, { s with
      fileOpen := true
      file := some []
      ackThreshold := calculateAckThreshold s.config.expectedSize s.config.chunkSize
      state := .inProgress
      selfReference := true }.startReceiveTimeout)

def removeFile (s : FileUpload) : FileUpload := { s with file := none }

/-- the end of `stop`: the final state, and the cleanup of a partial file -/
def stopFor (s : FileUpload) : StopReason → FileUpload
  | .serverStop => if s.state = .completed then s else { s with state := .cancelled }.removeFile
  | .clientStop =>
    (if s.state = .failed ∨ s.state = .timedOut then s else { s with state := .cancelled }).removeFile
  | .disconnected => { s with state := .cancelled }.removeFile

def stop (s : FileUpload) (reason : StopReason) : FileUpload :=
  if s.stopping then s
  else
    { s with
      stopping := true
      receiveTimeoutTimer := s.receiveTimeoutTimer.reset
      rateLimitTimer := s.rateLimitTimer.reset
      selfReference := false
      fileOpen := false }.stopFor reason

/-- the ACK is sent -/
def sendAckNow (s : FileUpload) (bytes : ℕ) : FileUpload :=
  { s with
    ackNumber := s.ackNumber + 1
    acks := s.acks ++ [{ ack := s.ackNumber + 1, bytes := bytes }]
    bytesSinceLastAck := 0 }

def sendAck (s : FileUpload) (isFinal early : Bool) : FileUpload :=
  if s.config.maxBandwidthMbps > 0 ∧ !isFinal ∧ early then
    { s with rateLimitTimer := s.rateLimitTimer.start s.bytesSinceLastAck }
  else s.sendAckNow s.bytesSinceLastAck

/-- `is_last_chunk` -/
def isLastChunk (s : FileUpload) : Bool := s.config.expectedSize > 0 && s.bytesReceived ≥ s.config.expectedSize

/-- the chunk is in the file -/
def receive (s : FileUpload) (data : Bytes) : FileUpload :=
  { s with
    file := s.file.map (· ++ data)
    bytesReceived := s.bytesReceived + data.length
    bytesSinceLastAck := s.bytesSinceLastAck + data.length }

def acknowledge (s : FileUpload) (early : Bool) : FileUpload :=
  if s.bytesSinceLastAck ≥ s.ackThreshold ∨ s.isLastChunk then s.sendAck s.isLastChunk early else s

def handleUploadChunk (s : FileUpload) (data : Bytes) (io : UploadIo) : FileUpload :=
  if s.state ≠ .inProgress ∨ !s.fileOpen then s
  else if !io.written then
    { s with state := .failed, errorMessage := "Failed to write to file" }.stop .clientStop
  else
    let s := (s.receive data).startReceiveTimeout
    if s.isLastChunk then { s.acknowledge io.early with state := .completed } else s.acknowledge io.early

def handleInput (s : FileUpload) (v : Json) (io : UploadIo) : FileUpload :=
  match v with
  | .binary data _ => if data.isEmpty then s else s.handleUploadChunk data io
  | _ => s

/-! ## Handlers of the io_context -/

def onReceiveTimeout (s : FileUpload) : FileUpload :=
  if s.receiveTimeoutTimer.present then
    { s with
      state := .timedOut
      errorMessage := "Timeout waiting for data"
      receiveTimeoutTimer := s.receiveTimeoutTimer.reset }.stop .clientStop
  else s

inductive UploadEvent where
  | input (v : Json) (io : UploadIo)
  | receiveExpired
  | rateLimitExpired
  | receiveTimeout
  | rateLimit
  | stop (reason : StopReason)

/-- nothing happens for a handler that is not queued -/
def step (s : FileUpload) : UploadEvent → FileUpload
  | .input v io => s.handleInput v io
  | .receiveExpired => { s with receiveTimeoutTimer := s.receiveTimeoutTimer.expire }
  | .rateLimitExpired => { s with rateLimitTimer := s.rateLimitTimer.expire }
  | .receiveTimeout =>
    match s.receiveTimeoutTimer.next with
    | none => s
    | some (_, t) => { s with receiveTimeoutTimer := t }.onReceiveTimeout
  | .rateLimit =>
    match s.rateLimitTimer.next with
    | none => s
    | some (bytes, t) => { s with rateLimitTimer := t }.sendAckNow bytes
  | .stop reason => s.stop reason

abbrev run (s : FileUpload) (events : List UploadEvent) : FileUpload := Run.run step s events

/-- a session whose start succeeded -/
def started (config : TransferConfig) : FileUpload := (start { config := config } true).2

end FileUpload

end Iotmp
