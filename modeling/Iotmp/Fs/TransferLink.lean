/-
A download whose payloads feed an upload, and whose ACKs are the upload's: the two ends of a transfer
(`file_download_session.cpp`, `file_upload_session.cpp`).

The streams between them are reliable and in order: what is under way is what the sender has sent and the receiver has
not taken, and the other way round. Every payload passes through the encoder and the decoder. The file does not change
while it is read, and `stream_resource` queues what it is given.

- `TransferLink`: both sessions and how many chunks and ACKs were delivered.
- `LinkEvent`, `step`: a handler or a timer of either end, a call of `stop`, or the delivery of a chunk or an ACK.
-/
import Mathlib.Tactic
import Iotmp.Client.DataFrames
import Iotmp.Fs.Download
import Iotmp.Lib.Guarded

namespace Iotmp

structure TransferLink where
  sender : FileDownload
  receiver : FileUpload
  /-- chunks and ACKs that were handed over -/
  delivered : ℕ := 0
  acknowledged : ℕ := 0

inductive LinkEvent where
  | posted (early : Bool)
  | rateLimit (early : Bool)
  /-- a timer of the sender, or its `stop` -/
  | sender (e : FileDownload.DownloadEvent)
  | deliver (io : UploadIo)
  /-- a timer of the receiver, or its `stop` -/
  | receiver (e : FileUpload.UploadEvent)
  | acknowledge

namespace TransferLink

/-- what the sender reads next -/
def chunkIo (file : Bytes) (s : FileDownload) (early : Bool) : ChunkIo :=
  { rest := some (file.drop s.bytesTransferred), early := early }

/-- the payloads that go through the stream to the receiver, and back -/
def deliverChunk (streamId : UInt16) (t : TransferLink) (io : UploadIo) : Option TransferLink :=
  (t.sender.payloads[t.delivered]?).bind fun chunk =>
    (receivedData streamId (SessionData.bytes chunk).payload).map fun v =>
      { t with receiver := t.receiver.step (.input v io), delivered := t.delivered + 1 }

def deliverAck (streamId : UInt16) (t : TransferLink) : Option TransferLink :=
  (t.receiver.acks[t.acknowledged]?).bind fun a =>
    (receivedData streamId a.payload).map fun v =>
      { t with sender := t.sender.step (.input v), acknowledged := t.acknowledged + 1 }

def step (file : Bytes) (streamId : UInt16) (t : TransferLink) : LinkEvent → Option TransferLink
  | .posted early => some { t with sender := t.sender.step (.posted (chunkIo file t.sender early)) }
  | .rateLimit early => some { t with sender := t.sender.step (.rateLimit (chunkIo file t.sender early)) }
  | .sender (.posted _) | .sender (.rateLimit _) | .sender (.input _) => none
  | .sender e => some { t with sender := t.sender.step e }
  | .deliver io => t.deliverChunk streamId io
  | .receiver (.input _ _) => none
  | .receiver e => some { t with receiver := t.receiver.step e }
  | .acknowledge => t.deliverAck streamId

abbrev run (file : Bytes) (streamId : UInt16) (t : TransferLink) (events : List LinkEvent) : TransferLink :=
  Guarded.run (step file streamId) t events

/-- both sessions have started; the receiver was told the size of the file -/
def start (file : Bytes) (download upload : TransferConfig) : TransferLink where
  sender := .started download file.length
  receiver := .started { upload with expectedSize := file.length }

end TransferLink

end Iotmp
