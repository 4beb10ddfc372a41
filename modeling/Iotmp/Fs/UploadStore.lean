/-
An upload session on the disk below it (`file_upload_session.cpp`): where the chunks end up.

The session writes to a stream. What was written reaches the disk when the stream is flushed or closed, and requests and
other transfers change the disk in between.

- `UploadOnDisk`: the store, the session that transfer `i` of it is, and the chunks that the session was given.
- `step`: one event of the session, a flush, or any other event of the store. Whether `close` has stored everything is not
  checked by the source: `lost` is how many of the last bytes did not reach the disk.
- `live_step`, `closed_step`: a session closes its stream once, and then keeps its file only if it is COMPLETED.
- `Landing`: what every event keeps that leaves the location of the file and the directories above it alone.
- `upload_lands`: what is at the location is a beginning of the chunks; once the stream is closed, it is all that was
  expected, or there is no file.
Witness: `upload_lands_whole`.
-/
import Mathlib.Tactic
import Iotmp.Fs.LinkSafety
import Iotmp.Fs.StoreRuns

namespace Iotmp

open FileTree (Outcome Step Node Edit Scope)

/-! ## The stream of a session -/

namespace FileUpload

/-- its stream is open -/
structure Live (s : FileUpload) : Prop where
  isOpen : s.fileOpen = true
  stopping : s.stopping = false
  going : s.state = .inProgress ∨ s.state = .completed

/-- `stop` was called -/
structure Closed (s : FileUpload) : Prop where
  isOpen : s.fileOpen = false
  stopping : s.stopping = true
  timer : s.receiveTimeoutTimer.present = false
  kept : s.state = .completed ∧ s.file ≠ none ∨ s.Over ∧ s.file = none

theorem Closed.state_ne {s : FileUpload} (h : s.Closed) : s.state ≠ .inProgress := by
  rcases h.kept with ⟨hc, -⟩ | ⟨hover, -⟩
  · rw [hc]
    decide
  · exact hover.1

theorem stop_closes {s : FileUpload} (hs : s.stopping = false) (reason : StopReason) :
    (s.stop reason).stopping = true ∧ (s.stop reason).fileOpen = false ∧
      (s.stop reason).receiveTimeoutTimer.present = false := by
  rw [stop, if_neg (by simp [hs])]
  cases reason with
  | serverStop =>
    rw [stopFor]
    split_ifs <;> exact ⟨rfl, rfl, rfl⟩
  | clientStop =>
    rw [stopFor]
    split_ifs <;> exact ⟨rfl, rfl, rfl⟩
  | disconnected => exact ⟨rfl, rfl, rfl⟩

/-- `stop` closes the stream, and keeps the file of a completed session or removes it -/
theorem closed_of_stop {s : FileUpload} (hs : s.stopping = false) (hfile : s.state = .completed → s.file ≠ none)
    (reason : StopReason) : (s.stop reason).Closed ∧ ((s.stop reason).file = none ∨ (s.stop reason).file = s.file) := by
  obtain ⟨hstopping, hopen, htimer⟩ := stop_closes hs reason
  rcases stop_cases hs reason with ⟨hover, hnone⟩ | ⟨hc, -, hc', hsame⟩
  · exact ⟨⟨hopen, hstopping, htimer, .inr ⟨hover, hnone⟩⟩, .inl hnone⟩
  · have hkept : (s.stop reason).file ≠ none := by
      rw [hsame]
      exact hfile hc
    exact ⟨⟨hopen, hstopping, htimer, .inl ⟨hc', hkept⟩⟩, .inr hsame⟩

/-- a step that has closed the stream, or not -/
def LiveOrClosed (s s' : FileUpload) : Prop := s'.Live ∨ s'.Closed ∧ (s'.file = none ∨ s'.file = s.file)

theorem live_chunk {s : FileUpload} (h : s.Live) (data : Bytes) (io : UploadIo) :
    LiveOrClosed s (s.handleUploadChunk data io) := by
  rw [handleUploadChunk]
  simp only
  split_ifs with hgo hwritten hlast
  · exact .inl h
  · -- a write that fails closes the stream
    right
    exact closed_of_stop (s := { s with state := .failed, errorMessage := "Failed to write to file" }) h.stopping
      (fun hc => absurd hc (by simp)) .clientStop
  · have hopen := acknowledge_fileOpen (s.receive data).startReceiveTimeout io.early
    obtain ⟨-, -, hstopping⟩ := acknowledge_kept (s.receive data).startReceiveTimeout io.early
    exact .inl ⟨hopen.trans h.isOpen, hstopping.trans h.stopping, .inr rfl⟩
  · have hopen := acknowledge_fileOpen (s.receive data).startReceiveTimeout io.early
    obtain ⟨hstate, -, hstopping⟩ := acknowledge_kept (s.receive data).startReceiveTimeout io.early
    refine .inl ⟨hopen.trans h.isOpen, hstopping.trans h.stopping, ?_⟩
    rw [hstate]
    exact h.going

/-- **One event of a session whose stream is open.** -/
theorem live_step {s : FileUpload} (h : s.Live) (hinv : s.Inv) (e : UploadEvent) : LiveOrClosed s (s.step e) := by
  cases e with
  | input v io =>
    cases v with
    | binary data subtype =>
      rw [step, handleInput]
      split_ifs
      · exact .inl h
      · exact live_chunk h data io
    | _ => exact .inl h
  | receiveExpired => exact .inl ⟨h.isOpen, h.stopping, h.going⟩
  | rateLimitExpired => exact .inl ⟨h.isOpen, h.stopping, h.going⟩
  | receiveTimeout =>
    rw [step]
    rcases s.receiveTimeoutTimer.next with _ | ⟨a, t⟩
    · exact .inl h
    · simp only
      rw [onReceiveTimeout]
      split_ifs
      · right
        exact closed_of_stop (s := { s with
          state := .timedOut
          errorMessage := "Timeout waiting for data"
          receiveTimeoutTimer := t.reset }) h.stopping (fun hc => absurd hc (by simp)) .clientStop
      · exact .inl ⟨h.isOpen, h.stopping, h.going⟩
  | rateLimit =>
    rw [step]
    rcases s.rateLimitTimer.next with _ | ⟨bytes, t⟩
    · exact .inl h
    · exact .inl ⟨h.isOpen, h.stopping, h.going⟩
  | stop reason => exact .inr (closed_of_stop h.stopping (fun hc => hinv.file (.inr hc)) reason)

/-- **A session that has closed its stream** keeps its state and its file as they are. -/
theorem closed_step {s : FileUpload} (h : s.Closed) (e : UploadEvent) :
    (s.step e).Closed ∧ (s.step e).file = s.file ∧ (s.step e).state = s.state := by
  cases e with
  | input v io =>
    have hsame : s.step (.input v io) = s := by
      cases v with
      | binary data subtype =>
        rw [step, handleInput, handleUploadChunk, if_pos (Or.inl h.state_ne)]
        exact ite_self s
      | _ => rfl
    rw [hsame]
    exact ⟨h, rfl, rfl⟩
  | receiveExpired => exact ⟨⟨h.isOpen, h.stopping, h.timer, h.kept⟩, rfl, rfl⟩
  | rateLimitExpired => exact ⟨⟨h.isOpen, h.stopping, h.timer, h.kept⟩, rfl, rfl⟩
  | receiveTimeout =>
    rw [step]
    rcases hnext : s.receiveTimeoutTimer.next with _ | ⟨a, t⟩
    · exact ⟨h, rfl, rfl⟩
    · have htimer : t.present = false := (Timer.next_eq_some hnext).1.trans h.timer
      simp only
      rw [onReceiveTimeout, if_neg (by simp [htimer])]
      exact ⟨⟨h.isOpen, h.stopping, htimer, h.kept⟩, rfl, rfl⟩
  | rateLimit =>
    rw [step]
    rcases s.rateLimitTimer.next with _ | ⟨bytes, t⟩
    · exact ⟨h, rfl, rfl⟩
    · exact ⟨⟨h.isOpen, h.stopping, h.timer, h.kept⟩, rfl, rfl⟩
  | stop reason =>
    rw [step, stop, if_pos h.stopping]
    exact ⟨h, rfl, rfl⟩

/-- the chunk that an event hands to the session -/
def chunkOf : UploadEvent → List Bytes
  | .input (.binary data _) _ => if data.isEmpty then [] else [data]
  | _ => []

/-- **One event**, whatever it hands to the session. -/
theorem Receiving.event {chunks : List Bytes} {s : FileUpload} (h : s.Receiving chunks) (e : UploadEvent) :
    (s.step e).Receiving (chunks ++ chunkOf e) := by
  cases e with
  | input v io =>
    cases v with
    | binary data subtype =>
      rw [chunkOf]
      split_ifs with hempty
      · rw [FileUpload.step, handleInput, if_pos hempty, List.append_nil]
        exact h
      · have hne : data ≠ [] := by simpa using hempty
        exact h.deliver hne io
    | _ =>
      rw [chunkOf, List.append_nil]
      · exact h
      · simp
  | _ =>
    rw [chunkOf, List.append_nil]
    · exact h.step _ (by simp)
    · simp

end FileUpload

/-! ## The session on the disk -/

namespace Filesystem

structure UploadOnDisk where
  store : Store
  session : FileUpload
  /-- the chunks that the session was given -/
  sent : List Bytes := []
  /-- how many of the last bytes did not reach the disk when the stream was closed -/
  lost : ℕ := 0

inductive UploadOnDiskEvent where
  /-- `lost`: as above, if this event closes the stream -/
  | session (e : FileUpload.UploadEvent) (lost : ℕ)
  /-- the first bytes of what was written reach the disk -/
  | flush (n : ℕ)
  | other (e : StoreEvent)

/-- an event of another transfer, or of none -/
def StoreEvent.Beside (i : ℕ) : StoreEvent → Prop
  | start j _ => j ≠ i
  | flush j _ => j ≠ i
  | stop j _ => j ≠ i
  | _ => True

namespace UploadOnDisk

/-- what was written to the stream -/
def written (u : UploadOnDisk) : Bytes := u.session.file.getD []

/-- transfer `i` of the store has opened its file -/
def start (digest : Bytes → Bytes → Bytes) (fs : Filesystem) (s : Store) (i : ℕ) (faults : Faults)
    (config : TransferConfig) : UploadOnDisk where
  store := s.step digest fs (.start i faults)
  session := .started config

/-- the stream is closed, and `stop` goes on with the file -/
def close (digest : Bytes → Bytes → Bytes) (fs : Filesystem) (i : ℕ) (u : UploadOnDisk) (session : FileUpload)
    (lost : ℕ) : Store :=
  (u.store.step digest fs (.flush i (u.written.take (u.written.length - lost)))).step digest fs
    (.stop i session.file.isSome)

def step (digest : Bytes → Bytes → Bytes) (fs : Filesystem) (i : ℕ) (u : UploadOnDisk) :
    UploadOnDiskEvent → UploadOnDisk
  | .session e lost =>
    let session := u.session.step e
    let sent := u.sent ++ FileUpload.chunkOf e
    if u.session.fileOpen && !session.fileOpen then
      { store := u.close digest fs i session lost, session := session, sent := sent, lost := lost }
    else { u with session := session, sent := sent }
  | .flush n =>
    if u.session.fileOpen then { u with store := u.store.step digest fs (.flush i (u.written.take n)) } else u
  | .other e => { u with store := u.store.step digest fs e }

abbrev run (digest : Bytes → Bytes → Bytes) (fs : Filesystem) (i : ℕ) (u : UploadOnDisk)
    (events : List UploadOnDiskEvent) : UploadOnDisk :=
  Run.run (step digest fs i) u events

/-- the other events leave alone what is at `loc` and above it -/
def Undisturbed (fs : Filesystem) (i : ℕ) (loc : Location) (u : UploadOnDisk) : UploadOnDiskEvent → Prop
  | .other e => e.Beside i ∧ (u.store.scope fs e).Spares loc
  | _ => True

end UploadOnDisk

/-! ## What other events leave -/

variable {digest : Bytes → Bytes → Bytes} {fs : Filesystem} {d : Disk} {i : ℕ} {loc : Location} {path : Path}

/-- both ends of a move are in its scope -/
theorem renames_subtree (hfree : d.tree.NoLinks []) {r : FsRequest} {src dst : Location}
    (h : r.renames fs d = some (src, dst)) : (r.scope fs d).subtree src ∧ (r.scope fs d).subtree dst := by
  cases r with
  | move input refused =>
    rw [FsRequest.renames] at h
    split at h
    · rename_i reply source dest hreply hsource hdest
      have hscope : (FsRequest.move input refused).scope fs d = d.moving source dest := by
        rw [FsRequest.scope, hsource, hdest]
      rw [hscope]
      split_ifs at h
      split at h
      · rename_i src' dst' hsrc hdst
        split_ifs at h
        obtain ⟨rfl, rfl⟩ := Prod.mk.inj (Option.some.inj h)
        exact ⟨.inl (Disk.entry_named hfree source _ (by rw [hsrc]; rfl)),
          .inr (Disk.entry_named hfree dest _ (by rw [hdst]; rfl))⟩
      · rename_i src' dir name hsrc hdst
        obtain ⟨rfl, rfl⟩ := Prod.mk.inj (Option.some.inj h)
        exact ⟨.inl (Disk.entry_named hfree source _ (by rw [hsrc]; rfl)),
          .inr (Disk.entry_named hfree dest _ (by rw [hdst]; rfl))⟩
      · exact absurd h (by simp)
    · exact absurd h (by simp)
  | _ => exact absurd h (by simp [FsRequest.renames])

/-- an open file that is spared stays where it is -/
theorem follow_spared (hfree : d.tree.NoLinks []) {d' : Disk} {r : FsRequest} (hs : (r.scope fs d).Spares loc)
    (hfile : d'.tree.isFile loc = true) : r.follow fs d d' loc = some loc := by
  rw [FsRequest.follow]
  rcases hr : r.renames fs d with _ | ⟨src, dst⟩
  · simp only [stays]
    rw [if_pos hfile]
  · obtain ⟨hsrc, hdst⟩ := renames_subtree hfree hr
    simp only
    rw [if_neg (hs.subtree dst hdst), FileTree.moved_of_not_below (hs.subtree src hsrc)]

namespace Store

variable {s : Store}

/-- **An open upload stays as it is** through the events that spare its file. -/
theorem transfer_kept (hs : s.Sound) {e : StoreEvent} (hbeside : e.Beside i) (hspares : (s.scope fs e).Spares loc)
    (hi : s.transfers[i]? = some (.uploading path (some loc)))
    (hfile : (step digest fs s e).disk.tree.isFile loc = true) :
    (step digest fs s e).transfers[i]? = some (.uploading path (some loc)) := by
  have hlt : i < s.transfers.length := (List.getElem?_eq_some_iff.1 hi).1
  have happend : ∀ t, (s.transfers ++ [t])[i]? = some (.uploading path (some loc)) := by
    intro t
    rw [List.getElem?_append_left hlt]
    exact hi
  have hset : ∀ j t, j ≠ i → (s.transfers.set j t)[i]? = some (.uploading path (some loc)) := by
    intro j t hj
    rw [List.getElem?_set_ne hj]
    exact hi
  cases e with
  | request faults r =>
    have hfollow := follow_spared (d := { s.disk with faults := faults }) hs.free hspares hfile
    change (s.transfers.map _)[i]? = _
    rw [List.getElem?_map, hi]
    simp only [Option.map_some, Transfer.follow, Option.bind_some]
    rw [← hfollow]
    rfl
  | createDownload parameters =>
    rw [step]
    rcases fs.createDownload s.disk parameters with (_ | ⟨p, config⟩) | _
    · exact hi
    · exact happend _
    · exact hi
  | createUpload parameters available =>
    rw [step]
    rcases fs.createUpload s.disk parameters available with (_ | ⟨p, config⟩) | _
    · exact hi
    · exact happend _
    · exact hi
  | start j faults =>
    rw [step]
    rcases s.transfers[j]? with _ | (⟨_ | _, p⟩ | ⟨p, file⟩ | _)
    · exact hi
    · exact hset j _ hbeside
    · simp only
      rcases openUpload { s.disk with faults := faults } p with ⟨d', (_ | _) | _⟩ <;> exact hset j _ hbeside
    · exact hi
    · exact hi
  | flush j content =>
    rw [step]
    rcases s.transfers[j]? with _ | (⟨_, p⟩ | ⟨p, _ | l⟩ | _) <;> exact hi
  | stop j completed =>
    rw [step] at hfile ⊢
    rcases hj : s.transfers[j]? with _ | (⟨_, p⟩ | ⟨p, file⟩ | _)
    · exact hi
    · exact hi
    · rw [hj] at hfile
      simp only at hfile ⊢
      rw [List.getElem?_map, hset j _ hbeside]
      simp only [Option.map_some, Transfer.follow, Option.bind_some, stays, hfile, if_true]
    · exact hi

end Store

/-! ## The file at its path -/

/-- a path to a file that is still there leads to it -/
theorem lookup_kept {d' : Disk} (hfree : d.tree.NoLinks []) (hup : path.NoUp) (hl : d.lookup path = .found loc)
    (hfile : d.tree.isFile loc = true) (hcwd : d'.cwd = d.cwd) (hfile' : d'.tree.isFile loc = true) :
    d'.lookup path = .found loc := by
  have hstart : d'.start path = d.start path := by rw [Disk.start, Disk.start, hcwd]
  rw [Disk.lookup] at hl ⊢
  split_ifs at hl ⊢
  rw [hstart]
  exact FileTree.walk_found_file hfree _ (hup.up_not_mem path.trailing) hl hfile hfile'

/-- the end of an upload that was not completed takes its file away -/
theorem cleanup_removes (hfree : d.tree.NoLinks []) (hl : d.lookup path = .found loc) {bytes : Bytes}
    (hnode : d.tree.node loc = some (.file bytes)) : (cleanup d path).tree.node loc = none := by
  have hexists : d.existsAt path = .returns true := Disk.existsAt_iff.2 ⟨loc, hl⟩
  obtain ⟨own, hown, hkind⟩ := Disk.linkEntry_found hl
  have hsame : own = loc := by
    refine hkind.resolve_right ?_
    rintro ⟨target, htarget⟩
    have hlink := hfree own _ htarget
    simp [Node.isLink] at hlink
  rw [cleanup, if_pos hexists, Disk.remove_file (hown d (.refl d)) hnode hkind, if_pos hsame]

namespace Store

variable {s : Store}

/-- bytes of an upload are in its file -/
theorem flush_file (digest : Bytes → Bytes → Bytes) (fs : Filesystem)
    (hi : s.transfers[i]? = some (.uploading path (some loc)))
    (hfile : s.disk.tree.isFile loc = true) (content : Bytes) :
    (step digest fs s (.flush i content)).disk.tree.node loc = some (.file content) ∧
      (step digest fs s (.flush i content)).transfers = s.transfers := by
  have hstep : step digest fs s (.flush i content) =
      { s with disk := { s.disk with tree := s.disk.tree.write loc content } } := by
    rw [step, hi]
  rw [hstep]
  refine ⟨?_, rfl⟩
  rw [FileTree.node_write hfile, if_pos rfl]

/-- a completed upload leaves its file, another one takes it away -/
theorem stop_disk (digest : Bytes → Bytes → Bytes) (fs : Filesystem) {file : Option Location}
    (hi : s.transfers[i]? = some (.uploading path file)) (completed : Bool) :
    (step digest fs s (.stop i completed)).disk = if completed then s.disk else cleanup s.disk path := by
  rw [step, hi]

end Store

/-! ## One event -/

namespace UploadOnDisk

/-- the stream is open -/
structure Writing (i : ℕ) (path : Path) (loc : Location) (u : UploadOnDisk) : Prop where
  live : u.session.Live
  transfer : u.store.transfers[i]? = some (.uploading path (some loc))
  lookup : u.store.disk.lookup path = .found loc
  stored : ∃ bytes, u.store.disk.tree.node loc = some (.file bytes) ∧ bytes <+: u.sent.flatten

/-- the stream is closed: what the session has kept is on the disk, what it has removed is not -/
structure Landed (loc : Location) (u : UploadOnDisk) : Prop where
  closed : u.session.Closed
  kept : ∀ content ∈ u.session.file, ∃ bytes, u.store.disk.tree.node loc = some (.file bytes) ∧
    bytes <+: u.sent.flatten ∧ content.length ≤ bytes.length + u.lost
  gone : u.session.file = none → u.store.disk.tree.isFile loc = false

structure Landing (i : ℕ) (path : Path) (loc : Location) (u : UploadOnDisk) : Prop where
  sound : u.store.Sound
  noUp : path.NoUp
  receiving : u.session.Receiving u.sent
  phase : u.Writing i path loc ∨ u.Landed loc

variable {u : UploadOnDisk}

theorem Landing.written_prefix (h : u.Landing i path loc) : u.written <+: u.sent.flatten := by
  rw [written]
  rcases hfile : u.session.file with _ | bytes
  · exact List.nil_prefix
  · exact h.receiving.file bytes hfile

theorem isFile_of_node {t : FileTree FileName Bytes} {bytes : Bytes} (h : t.node loc = some (.file bytes)) :
    t.isFile loc = true :=
  (FileTree.isFile_iff t loc).2 ⟨bytes, h⟩

/-- what was sent to a session is a beginning of what is sent later -/
theorem prefix_sent {bytes : Bytes} (h : bytes <+: u.sent.flatten) (more : List Bytes) :
    bytes <+: (u.sent ++ more).flatten := by
  rw [List.flatten_append]
  exact h.trans (List.prefix_append _ _)

/-- **Bytes reach the disk.** -/
theorem Landing.flush (digest : Bytes → Bytes → Bytes) (fs : Filesystem) (h : u.Landing i path loc)
    (hw : u.Writing i path loc) {content : Bytes} (hcontent : content <+: u.written) :
    Landing i path loc { u with store := u.store.step digest fs (.flush i content) } ∧
      Writing i path loc { u with store := u.store.step digest fs (.flush i content) } ∧
      (u.store.step digest fs (.flush i content)).disk.tree.node loc = some (.file content) := by
  obtain ⟨bytes, hnode, -⟩ := hw.stored
  obtain ⟨hnew, htransfers⟩ := Store.flush_file digest fs hw.transfer (isFile_of_node hnode) content
  have hwriting : Writing i path loc { u with store := u.store.step digest fs (.flush i content) } :=
    { live := hw.live
      transfer := (congrArg (·[i]?) htransfers).trans hw.transfer
      lookup := lookup_kept h.sound.free h.noUp hw.lookup (isFile_of_node hnode)
        (Store.step_cwd h.sound digest fs _) (isFile_of_node hnew)
      stored := ⟨content, hnew, hcontent.trans h.written_prefix⟩ }
  have hsound := h.sound.step digest fs (.flush i content)
  exact ⟨⟨hsound, h.noUp, h.receiving, .inl hwriting⟩, hwriting, hnew⟩

/-- **The stream is closed**, by an event that the session keeps its file through, or removes it by. -/
theorem Landing.closes (h : u.Landing i path loc) (hw : u.Writing i path loc) {session : FileUpload}
    (hclosed : session.Closed) (hfile : session.file = none ∨ session.file = u.session.file) {sent : List Bytes}
    (hsent : u.sent <+: sent) (hreceiving : session.Receiving sent) (lost : ℕ) :
    Landing i path loc
      { store := u.close digest fs i session lost, session := session, sent := sent, lost := lost } := by
  obtain ⟨more, rfl⟩ := hsent
  obtain ⟨hflushed, hwriting, hnode⟩ := h.flush digest fs hw
    (List.take_prefix (u.written.length - lost) u.written)
  have hdisk := Store.stop_disk digest fs hwriting.transfer session.file.isSome
  have hsound := hflushed.sound.step digest fs (.stop i session.file.isSome)
  refine ⟨hsound, h.noUp, hreceiving, .inr ⟨hclosed, ?_, ?_⟩⟩
  · intro content hcontent
    have hkept : u.written = content := by
      rw [written, ← hfile.resolve_left (by rw [hcontent]; simp), hcontent]
      rfl
    refine ⟨u.written.take (u.written.length - lost), ?_, ?_, ?_⟩
    · rw [close, hdisk, hcontent, Option.isSome_some, if_pos rfl]
      exact hnode
    · exact prefix_sent ((List.take_prefix _ _).trans h.written_prefix) more
    · rw [← hkept, List.length_take]
      change _ ≤ _ + lost
      omega
  · intro hnone
    have hremoved := cleanup_removes hflushed.sound.free hwriting.lookup hnode
    rw [close, hdisk, hnone, Option.isSome_none, if_neg (by simp), FileTree.isFile, hremoved]
    rfl

/-- **One event** leaves the file as far as it was written, or lands it. -/
theorem Landing.step (h : u.Landing i path loc) (e : UploadOnDiskEvent) (he : u.Undisturbed fs i loc e) :
    (step digest fs i u e).Landing i path loc := by
  cases e with
  | session e lost =>
    have hreceiving := h.receiving.event e
    rw [UploadOnDisk.step]
    rcases h.phase with hw | hl
    · rcases FileUpload.live_step hw.live h.receiving.inv e with hlive | ⟨hclosed, hfile⟩
      · rw [if_neg (by simp [hlive.isOpen])]
        obtain ⟨bytes, hnode, hpre⟩ := hw.stored
        refine ⟨h.sound, h.noUp, hreceiving, .inl ⟨hlive, hw.transfer, hw.lookup, bytes, hnode, ?_⟩⟩
        exact prefix_sent hpre _
      · rw [if_pos (by simp [hw.live.isOpen, hclosed.isOpen])]
        exact h.closes hw hclosed hfile (List.prefix_append _ _) hreceiving lost
    · obtain ⟨hclosed, hfile, -⟩ := FileUpload.closed_step hl.closed e
      rw [if_neg (by simp [hl.closed.isOpen])]
      refine ⟨h.sound, h.noUp, hreceiving, .inr ⟨hclosed, fun content hcontent => ?_, fun hnone => ?_⟩⟩
      · obtain ⟨bytes, hnode, hpre, hlength⟩ := hl.kept content (hfile.symm.trans hcontent)
        exact ⟨bytes, hnode, prefix_sent hpre _, hlength⟩
      · exact hl.gone (hfile.symm.trans hnone)
  | flush n =>
    rw [UploadOnDisk.step]
    rcases h.phase with hw | hl
    · rw [if_pos hw.live.isOpen]
      exact (h.flush digest fs hw (List.take_prefix n u.written)).1
    · rw [if_neg (by simp [hl.closed.isOpen])]
      exact h
  | other e =>
    obtain ⟨hbeside, hspares⟩ := he
    have htree := Store.step_tree h.sound digest fs e
    refine ⟨h.sound.step digest fs e, h.noUp, h.receiving, ?_⟩
    rcases h.phase with hw | hl
    · obtain ⟨bytes, hnode, hpre⟩ := hw.stored
      have hnode' := htree.kept hspares hnode
      refine .inl ⟨hw.live, ?_, ?_, bytes, hnode', hpre⟩
      · exact Store.transfer_kept h.sound hbeside hspares hw.transfer (isFile_of_node hnode')
      · exact lookup_kept h.sound.free h.noUp hw.lookup (isFile_of_node hnode) (Store.step_cwd h.sound digest fs e)
          (isFile_of_node hnode')
    · refine .inr ⟨hl.closed, fun content hcontent => ?_, fun hnone => htree.no_file hspares (hl.gone hnone)⟩
      obtain ⟨bytes, hnode, hrest⟩ := hl.kept content hcontent
      exact ⟨bytes, htree.kept hspares hnode, hrest⟩

/-! ## Runs -/

/-- **An upload starts with an empty file** at the location its path names. -/
theorem landing_start {s : Store} (hs : s.Sound) {faults : Faults} (config : TransferConfig)
    (hcreated : s.transfers[i]? = some (.created true path))
    (hopens : (openUpload { s.disk with faults := faults } path).2 = .returns true)
    (hdevice : (s.step digest fs (.start i faults)).disk.tree.node (path.named s.disk.cwd) ≠ some .special) :
    (start digest fs s i faults config).Landing i path (path.named s.disk.cwd) := by
  have hsound := hs.step digest fs (.start i faults)
  have hcwd := Store.step_cwd hs digest fs (.start i faults)
  have hup : path.NoUp := hs.noUp _ (List.mem_of_getElem? hcreated) path rfl
  have hlt := (List.getElem?_eq_some_iff.1 hcreated).1
  rcases hopen : openUpload { s.disk with faults := faults } path with ⟨d', (_ | _) | _⟩
  · simp [hopen] at hopens
  · have hstep : s.step digest fs (.start i faults) = ⟨d', s.transfers.set i (.uploading path (Store.fileAt d' path))⟩ := by
      rw [Store.step, hcreated]
      simp only [hopen]
    rw [hstep] at hsound hcwd hdevice
    -- the file that was opened is where the path leads
    obtain ⟨d₁, loc, hopened⟩ : ∃ d₁ loc, Disk.Opened d₁ d' path loc := by
      rw [openUpload] at hopen
      rcases hc : Disk.createDirectories { s.disk with faults := faults } path.parentPath with ⟨_ | e, d₁⟩
      · rw [hc] at hopen
        simp only at hopen
        rcases hout : d₁.openOut path with ⟨_ | loc, d₂⟩
        · simp [hout] at hopen
        · rw [hout] at hopen
          obtain rfl := congrArg Prod.fst hopen
          exact ⟨d₁, loc, Disk.openOut_opened hout⟩
      · simp [hc] at hopen
    have hloc : loc = path.named s.disk.cwd := by
      rw [Disk.lookup_named hsound.free path loc (by rw [hopened.lookup]; rfl)]
      exact congrArg path.named hcwd
    rw [← hloc] at hdevice ⊢
    have hnode : d'.tree.node loc = some (.file []) := hopened.file fun hspecial => hdevice (hopened.device hspecial)
    have hfileAt : Store.fileAt d' path = some loc := by
      rw [Store.fileAt, hopened.lookup]
    rw [start, hstep]
    refine ⟨hsound, hup, FileUpload.receiving_started config, .inl ⟨⟨rfl, rfl, .inl rfl⟩, ?_, hopened.lookup, [], hnode, ?_⟩⟩
    · rw [← hfileAt]
      exact List.getElem?_set_self hlt
    · exact List.nil_prefix
  · simp [hopen] at hopens

theorem run_config (u : UploadOnDisk) (events : List UploadOnDiskEvent) :
    (run digest fs i u events).session.config = u.session.config := by
  refine Run.always (I := fun t : UploadOnDisk => t.session.config = u.session.config) ?_ u events rfl
  intro t e ht
  cases e with
  | session e lost =>
    rw [UploadOnDisk.step]
    split_ifs <;> exact (FileUpload.step_config t.session e).trans ht
  | flush n =>
    rw [UploadOnDisk.step]
    split_ifs <;> exact ht
  | other e => exact ht

/-- **An upload lands whole or not at all.** Its file has opened at the location its path names, and no other event of the
run touches that location or moves or removes a directory above it. What is there is always a beginning of the chunks that
the session was given, whatever of them was flushed. Once the stream is closed, for whatever reason and with whatever
comes after, the session is COMPLETED and the file has all that was expected, unless the close itself lost it, or the
session is not COMPLETED and there is no file. -/
theorem upload_lands (digest : Bytes → Bytes → Bytes) (fs : Filesystem) (s : Store) (hs : s.Sound) (i : ℕ)
    (faults : Faults) (path : Path) (config : TransferConfig) (hcreated : s.transfers[i]? = some (.created true path))
    (hopens : (openUpload { s.disk with faults := faults } path).2 = .returns true)
    (hdevice : (s.step digest fs (.start i faults)).disk.tree.node (path.named s.disk.cwd) ≠ some .special)
    (events : List UploadOnDiskEvent)
    (hevents : Run.Steps (step digest fs i) (Undisturbed fs i (path.named s.disk.cwd))
      (start digest fs s i faults config) events) :
    let u := run digest fs i (start digest fs s i faults config) events
    let tree := u.store.disk.tree
    let loc := path.named s.disk.cwd
    (∀ bytes, tree.node loc = some (.file bytes) → bytes <+: u.sent.flatten) ∧
      (u.session.fileOpen = false →
        u.session.state = .completed ∧
            (∃ bytes, tree.node loc = some (.file bytes) ∧ config.expectedSize ≤ bytes.length + u.lost) ∨
          u.session.state ≠ .completed ∧ tree.isFile loc = false) := by
  intro u tree loc
  have h : u.Landing i path loc := by
    refine Run.invariant (I := Landing i path loc) ?_ _ events (landing_start hs config hcreated hopens hdevice) hevents
    intro t e ht he
    exact ht.step e he
  have hconfig : u.session.config = config := run_config _ events
  rcases h.phase with hw | hl
  · obtain ⟨bytes, hnode, hpre⟩ := hw.stored
    refine ⟨fun bytes' hbytes' => ?_, fun hclosed => absurd (hw.live.isOpen.symm.trans hclosed) (by simp)⟩
    obtain rfl : bytes = bytes' := by simpa using hnode.symm.trans hbytes'
    exact hpre
  · rcases hl.closed.kept with ⟨hc, hkept⟩ | ⟨hover, hnone⟩
    · obtain ⟨content, hcontent⟩ := Option.ne_none_iff_exists'.1 hkept
      obtain ⟨bytes, hnode, hpre, hlength⟩ := hl.kept content hcontent
      have hwhole := h.receiving.whole hc content hcontent
      rw [hconfig] at hwhole
      refine ⟨fun bytes' hbytes' => ?_, fun _ => .inl ⟨hc, bytes, hnode, hwhole.trans hlength⟩⟩
      obtain rfl : bytes = bytes' := by simpa using hnode.symm.trans hbytes'
      exact hpre
    · have hgone := hl.gone hnone
      refine ⟨fun bytes hbytes => ?_, fun _ => .inr ⟨hover.2, hgone⟩⟩
      rw [isFile_of_node hbytes] at hgone
      exact absurd hgone (by simp)

end UploadOnDisk

/-- a put leaves alone what is at another location -/
theorem put_spares {s : Store} {faults : Faults} {input : Input}
    (hpath : fs.requested { s.disk with faults := faults } input "path" = some path)
    (hloc : loc ≠ path.named s.disk.cwd) : (s.scope fs (.request faults (.put input))).Spares loc := by
  have hscope : s.scope fs (.request faults (.put input)) =
      { s.disk with faults := faults }.storing path (Stores faults input) := by
    rw [Store.scope, FsRequest.scope, hpath]
    rfl
  rw [hscope]
  exact ⟨hloc, fun _ h => h.elim⟩

/-- one byte was expected and comes, and a file is put beside it before the server stops the upload -/
theorem upload_lands_whole :
    let s : Store := ⟨dataWithFile, [.created true (Path.ofBytes (text "/data/x"))]⟩
    let events := [UploadOnDiskEvent.session (.input (.binary [7] none) {}) 0,
      .other (.request {} (.put (putRequest "g"))), .session (.stop .serverStop) 0]
    let u := UploadOnDisk.run (fun _ _ => []) dataFolder 0
      (.start (fun _ _ => []) dataFolder s 0 {} { expectedSize := 1 }) events
    ∃ bytes, u.store.disk.tree.node [fileName "data" data_isName, fileName "x" (by decide)] = some (.file bytes) ∧
      1 ≤ bytes.length + u.lost := by
  intro s events u
  have hsound : s.Sound := by
    refine ⟨data_noLinks, fun t ht path hpath => ?_⟩
    obtain rfl := List.mem_singleton.1 ht
    obtain rfl := Option.some.inj hpath
    have hvalid : dataFolder.validateResolvedPath dataWithFile (Path.ofBytes (text "/data/x")) = .returns true := by
      decide
    exact noUp_of_validated hvalid
  have hput : dataFolder.requested { (UploadOnDisk.run (fun _ _ => []) dataFolder 0
      (.start (fun _ _ => []) dataFolder s 0 {} { expectedSize := 1 }) [events[0]]).store.disk with faults := {} }
        (putRequest "g") "path" = some (Path.ofBytes (text "/data/g")) := by decide
  have hlands := UploadOnDisk.upload_lands (fun _ _ => []) dataFolder s hsound 0 {} _ { expectedSize := 1 } rfl
    (by decide) (by decide) events ⟨trivial, ⟨trivial, put_spares hput (by decide)⟩, trivial, trivial⟩
  rcases hlands.2 (by decide) with ⟨-, hfile⟩ | ⟨hstate, -⟩
  · exact hfile
  · exact absurd (by decide) hstate

end Filesystem

end Iotmp
