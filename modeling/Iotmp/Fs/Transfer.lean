/-
What the two file transfer sessions share (`filesystem.hpp`, `iotmp_stream_session.hpp`): states, stop reasons, the
configuration of a transfer and the acknowledgement threshold. Sizes are naturals: no counter of a transfer passes the
number of bytes a file can hold.
-/
import Mathlib.Tactic
import Iotmp.Core.Json

namespace Iotmp

inductive SessionState where
  | idle
  | starting
  | inProgress
  | completed
  | cancelled
  | failed
  | timedOut
deriving DecidableEq, Repr

inductive StopReason where
  | serverStop
  | clientStop
  | disconnected
deriving DecidableEq, Repr

def DEFAULT_CHUNK_SIZE : ℕ := 64 * 1024

def DEFAULT_WINDOW_SIZE : ℕ := 2 * 1024 * 1024

def MAX_ACK_THRESHOLD : ℕ := 1 * 1024 * 1024

structure TransferConfig where
  expectedSize : ℕ := 0
  chunkSize : ℕ := DEFAULT_CHUNK_SIZE
  windowSize : ℕ := DEFAULT_WINDOW_SIZE
  maxBandwidthMbps : ℕ := 0

/-- about 1% of the file, at least a chunk and at most 1 MB -/
def calculateAckThreshold (fileSize chunkSize : ℕ) : ℕ :=
  if fileSize = 0 then chunkSize * 4
  else
    let threshold := fileSize / 100
    let threshold := if threshold < chunkSize then chunkSize else threshold
    if threshold > MAX_ACK_THRESHOLD then MAX_ACK_THRESHOLD else threshold

end Iotmp
