/-
Where the bytes of the files come from, with every upload session of the store (`file_upload_session.cpp`).

Every stream writes at its own offset: two uploads to one file, or a put to a file that an upload has open, leave bytes of
both in it.

- `OpenUpload`: the session of an upload that has opened its file, the chunks it was given, and how many bytes of its
  stream are on the disk.
- `SessionStore.step`: a request, the creation or the start of a transfer, an event of an upload session, or bytes of a
  stream that reach the disk. `flushTo`: where they get to.
- `Known.step`: what each event keeps.
- `bytes_traced`: every byte of a file is, at its position, one of a file from the start, of the payload of a put or of the
  chunks of one upload, or fills a gap.
Witness: `bytes_traced_mixed`, a put to a file that an upload has open.
-/
import Mathlib.Tactic
import Iotmp.Lib.Splice
import Iotmp.Fs.UploadStore

namespace Iotmp

open FileTree (Node)

namespace FileUpload

/-- an event that closes the stream and hands over a chunk is a write that fails -/
theorem inProgress_of_closes {s : FileUpload} {e : UploadEvent} (hopen : s.fileOpen = true)
    (hclosed : (s.step e).fileOpen = false) (hchunk : chunkOf e ≠ []) : s.state = .inProgress := by
  by_contra hstate
  cases e with
  | input v io =>
    cases v with
    | binary data subtype =>
      have hsame : s.step (.input (.binary data subtype) io) = s := by
        rw [step, handleInput, handleUploadChunk, if_pos (Or.inl hstate)]
        exact ite_self s
      rw [hsame, hopen] at hclosed
      exact absurd hclosed (by simp)
    | _ => exact hchunk rfl
  | _ => exact hchunk rfl

end FileUpload

namespace Filesystem

structure OpenUpload where
  session : FileUpload
  sent : List Bytes := []
  flushed : ℕ := 0

/-- what was written to the stream -/
def OpenUpload.written (u : OpenUpload) : Bytes := u.session.file.getD []

def OpenUpload.step (u : OpenUpload) (e : FileUpload.UploadEvent) : OpenUpload :=
  { u with session := u.session.step e, sent := u.sent ++ FileUpload.chunkOf e }

/-- what the file holds that a transfer has open -/
def Store.openContent (s : Store) (i : ℕ) : Bytes :=
  match (s.transfers[i]?).bind Transfer.file with
  | some loc =>
    match s.disk.tree.node loc with
    | some (.file content) => content
    | _ => []
  | none => []

structure SessionStore where
  store : Store
  uploads : ℕ → Option OpenUpload := fun _ => none

inductive SessionStoreEvent where
  | request (faults : Faults) (r : FsRequest)
  | createDownload (parameters : Json)
  | createUpload (parameters : Json) (available : ℕ)
  | start (i : ℕ) (faults : Faults) (config : TransferConfig)
  /-- `n`: how much of the stream is on the disk, if this event closes it -/
  | session (i : ℕ) (e : FileUpload.UploadEvent) (n : ℕ)
  /-- the first `n` bytes of what was written reach the disk -/
  | flush (i n : ℕ)

namespace SessionStore

def set (s : SessionStore) (i : ℕ) (u : OpenUpload) : SessionStore :=
  { s with uploads := Function.update s.uploads i (some u) }

/-- the first `n` bytes of a stream are on the disk -/
def flushTo (digest : Bytes → Bytes → Bytes) (fs : Filesystem) (s : SessionStore) (i : ℕ) (u : OpenUpload)
    (stream : Bytes) (n : ℕ) : SessionStore :=
  let content := Splice.splice 0 (s.store.openContent i) u.flushed ((stream.take n).drop u.flushed)
  { s with store := s.store.step digest fs (.flush i content) }.set i
    { u with flushed := max u.flushed (min n stream.length) }

def step (digest : Bytes → Bytes → Bytes) (fs : Filesystem) (s : SessionStore) : SessionStoreEvent → SessionStore
  | .request faults r => { s with store := s.store.step digest fs (.request faults r) }
  | .createDownload parameters => { s with store := s.store.step digest fs (.createDownload parameters) }
  | .createUpload parameters available => { s with store := s.store.step digest fs (.createUpload parameters available) }
  | .start i faults config =>
    -- a transfer starts once
    match s.uploads i with
    | some _ => s
    | none =>
      let store := s.store.step digest fs (.start i faults)
      match store.transfers[i]? with
      | some (.uploading _ _) => { s with store := store }.set i { session := .started config }
      | _ => { s with store := store }
  | .session i e n =>
    match s.uploads i with
    | none => s
    | some u =>
      if u.session.fileOpen && !(u.step e).session.fileOpen then
        -- a part of a chunk whose write has failed may be in the stream
        let s := (s.set i (u.step e)).flushTo digest fs i (u.step e) (u.written ++ (FileUpload.chunkOf e).flatten) n
        { s with store := s.store.step digest fs (.stop i (u.step e).session.file.isSome) }
      else s.set i (u.step e)
  | .flush i n =>
    match s.uploads i with
    | none => s
    | some u => if u.session.fileOpen then s.flushTo digest fs i u u.written n else s

abbrev run (digest : Bytes → Bytes → Bytes) (fs : Filesystem) (s : SessionStore) (events : List SessionStoreEvent) :
    SessionStore :=
  Run.run (step digest fs) s events

/-- a disk before any transfer -/
def start (d : Disk) : SessionStore where
  store := ⟨d, []⟩

variable {digest : Bytes → Bytes → Bytes} {fs : Filesystem} {s : SessionStore} {old : Bytes → Prop}

/-! ## The chunks of an upload -/

/-- the chunks that an event hands to upload `i` -/
def chunksFor (i : ℕ) : SessionStoreEvent → List Bytes
  | .session j e _ => if j = i then FileUpload.chunkOf e else []
  | _ => []

theorem set_uploads {i j : ℕ} {u u' : OpenUpload} (h : (s.set i u).uploads j = some u') :
    j = i ∧ u' = u ∨ j ≠ i ∧ s.uploads j = some u' := by
  rw [set] at h
  simp only [Function.update_apply] at h
  split_ifs at h with hj
  · exact .inl ⟨hj, (Option.some.inj h).symm⟩
  · exact .inr ⟨hj, h⟩

theorem sent_flushTo {i j : ℕ} {u u' : OpenUpload} {stream : Bytes} {n : ℕ} (hi : s.uploads i = some u)
    (h : (s.flushTo digest fs i u stream n).uploads j = some u') : ∃ v, s.uploads j = some v ∧ u'.sent = v.sent := by
  rcases set_uploads h with ⟨rfl, rfl⟩ | ⟨-, hj⟩
  · exact ⟨u, hi, rfl⟩
  · exact ⟨u', hj, rfl⟩

theorem uploads_set_self (s : SessionStore) (i : ℕ) (u : OpenUpload) : (s.set i u).uploads i = some u :=
  Function.update_self _ _ _

/-- **One event** adds its chunks, or starts the upload. -/
theorem sent_step (s : SessionStore) (e : SessionStoreEvent) {i : ℕ} {u' : OpenUpload}
    (h : (step digest fs s e).uploads i = some u') :
    u'.sent = [] ∨ ∃ u, s.uploads i = some u ∧ u'.sent = u.sent ++ chunksFor i e := by
  have hkept : chunksFor i e = [] → s.uploads i = some u' →
      u'.sent = [] ∨ ∃ u, s.uploads i = some u ∧ u'.sent = u.sent ++ chunksFor i e := by
    intro hnone hu
    exact .inr ⟨u', hu, by rw [hnone, List.append_nil]⟩
  cases e with
  | start j faults config =>
    rw [step] at h
    rcases hj : s.uploads j with _ | v
    · simp only [hj] at h
      split at h
      · rcases set_uploads h with ⟨-, rfl⟩ | ⟨-, hi⟩
        · exact .inl rfl
        · exact hkept rfl hi
      · exact hkept rfl h
    · simp only [hj] at h
      exact hkept rfl h
  | session j e n =>
    rw [step] at h
    rcases hj : s.uploads j with _ | v
    · simp only [hj] at h
      refine hkept ?_ h
      rw [chunksFor, if_neg]
      rintro rfl
      exact absurd (hj.symm.trans h) (by simp)
    · simp only [hj] at h
      have hnow : ∀ w, (s.set j (v.step e)).uploads i = some w →
          ∃ u, s.uploads i = some u ∧ w.sent = u.sent ++ chunksFor i (.session j e n) := by
        intro w hw
        rcases set_uploads hw with ⟨rfl, rfl⟩ | ⟨hne, hi⟩
        · exact ⟨v, hj, by rw [chunksFor, if_pos rfl, OpenUpload.step]⟩
        · exact ⟨w, hi, by rw [chunksFor, if_neg hne.symm, List.append_nil]⟩
      split_ifs at h with hcloses
      · obtain ⟨w, hw, hsent⟩ := @sent_flushTo digest fs _ _ _ _ _ _ _ (uploads_set_self s j (v.step e)) h
        rw [hsent]
        exact .inr (hnow w hw)
      · exact .inr (hnow u' h)
  | flush j n =>
    rw [step] at h
    rcases hj : s.uploads j with _ | v
    · simp only [hj] at h
      exact hkept rfl h
    · simp only [hj] at h
      split_ifs at h
      · obtain ⟨w, hw, hsent⟩ := sent_flushTo hj h
        exact .inr ⟨w, hw, hsent.trans (List.append_nil _).symm⟩
      · exact hkept rfl h
  | _ => exact hkept rfl h

/-- an upload was given the chunks since its start -/
theorem sent_run (d : Disk) (events : List SessionStoreEvent) {i : ℕ} {u : OpenUpload}
    (h : (run digest fs (start d) events).uploads i = some u) : u.sent <:+ events.flatMap (chunksFor i) := by
  induction events using List.reverseRecOn generalizing u with
  | nil => exact absurd h (by simp [start])
  | append_singleton events e ih =>
    rw [run, Run.run_append] at h
    rcases sent_step _ e h with hnil | ⟨u', hu', hsent⟩
    · rw [hnil]
      exact List.nil_suffix
    · rw [hsent, List.flatMap_append, List.flatMap_singleton]
      obtain ⟨before, hbefore⟩ := ih hu'
      exact ⟨before, by rw [← List.append_assoc, hbefore]⟩

/-! ## Where bytes come from -/

/-- what the bytes of the files may be from: `old`, or the chunks of an upload -/
def Source (old : Bytes → Prop) (s : SessionStore) (source : Bytes) : Prop :=
  old source ∨ ∃ i u, s.uploads i = some u ∧ source = u.sent.flatten

/-- the files of a disk hold bytes from `source` -/
def FilesFrom (source : Bytes → Prop) (d : Disk) : Prop :=
  ∀ loc content, d.tree.node loc = some (.file content) → Splice.Traced 0 source content

structure Known (old : Bytes → Prop) (s : SessionStore) : Prop where
  sound : s.store.Sound
  receiving : ∀ i u, s.uploads i = some u → u.session.Receiving u.sent
  files : FilesFrom (s.Source old) s.store.disk

/-- an event of the store that gives the files nothing but what is from `source` -/
theorem filesFrom_step {st : Store} {source : Bytes → Prop} (hs : st.Sound) {e : StoreEvent}
    (hfiles : FilesFrom source st.disk) (hnew : ∀ content, e.Stores content → Splice.Traced 0 source content) :
    FilesFrom source (st.step digest fs e).disk := by
  intro loc content h
  rcases (Store.step_tree hs digest fs e).sources h with hdir | ⟨content', hcontent, hfile⟩ | ⟨l, hl⟩
  · exact absurd hdir (by simp)
  · obtain rfl : content = content' := by simpa using hfile
    exact hnew content (Store.stores_of_scope hcontent)
  · exact hfiles l content hl

theorem traced_openContent {st : Store} {source : Bytes → Prop} (hfiles : FilesFrom source st.disk) (i : ℕ) :
    Splice.Traced 0 source (st.openContent i) := by
  rw [Store.openContent]
  split
  · rename_i loc _
    rcases hn : st.disk.tree.node loc with _ | (_ | content | _ | _)
    · exact Splice.traced_nil
    · exact Splice.traced_nil
    · exact hfiles loc content hn
    · exact Splice.traced_nil
    · exact Splice.traced_nil
  · exact Splice.traced_nil

/-- an event of the store, which leaves the sessions alone -/
theorem Known.store (h : s.Known old) (e : StoreEvent)
    (hnew : ∀ content, e.Stores content → Splice.Traced 0 (s.Source old) content) :
    Known old { s with store := s.store.step digest fs e } where
  sound := h.sound.step digest fs e
  receiving := h.receiving
  files := filesFrom_step h.sound h.files hnew

/-- an upload starts, or goes on -/
theorem Known.set (h : s.Known old) {i : ℕ} {u' : OpenUpload} (hreceiving : u'.session.Receiving u'.sent)
    (hmore : ∀ u, s.uploads i = some u → u.sent.flatten <+: u'.sent.flatten) : (s.set i u').Known old where
  sound := h.sound
  receiving := by
    intro j u hj
    rcases set_uploads hj with ⟨-, rfl⟩ | ⟨-, hold⟩
    · exact hreceiving
    · exact h.receiving j u hold
  files := by
    intro loc content hn
    refine (h.files loc content hn).grow ?_
    rintro src (hold | ⟨j, u, hj, rfl⟩)
    · exact ⟨src, .inl hold, List.prefix_refl _⟩
    · rcases eq_or_ne j i with rfl | hne
      · exact ⟨_, .inr ⟨j, u', uploads_set_self s j u', rfl⟩, hmore u hj⟩
      · exact ⟨_, .inr ⟨j, u, (Function.update_of_ne hne _ _).trans hj, rfl⟩, List.prefix_refl _⟩

/-- **Bytes reach the disk**, where they are in the chunks. -/
theorem Known.flushTo (h : s.Known old) {i : ℕ} {u : OpenUpload} (hi : s.uploads i = some u) {stream : Bytes}
    (hstream : stream <+: u.sent.flatten) (n : ℕ) : (s.flushTo digest fs i u stream n).Known old := by
  have hnew : ∀ content, (StoreEvent.flush i
      (Splice.splice 0 (s.store.openContent i) u.flushed ((stream.take n).drop u.flushed))).Stores content →
        Splice.Traced 0 (s.Source old) content := by
    rintro content rfl
    exact (traced_openContent h.files i).splice (.inr ⟨i, u, hi, rfl⟩) ((List.take_prefix n stream).trans hstream) _
  refine (h.store _ hnew).set (h.receiving i u hi) fun v hv => ?_
  obtain rfl : u = v := Option.some.inj (hi.symm.trans hv)
  exact List.prefix_refl _

theorem written_given {u : OpenUpload} (h : u.session.Receiving u.sent) : u.written <+: u.sent.flatten := by
  rw [OpenUpload.written]
  rcases hfile : u.session.file with _ | bytes
  · exact List.nil_prefix
  · exact h.file bytes hfile

/-- what was written, and a chunk whose write has failed, are a beginning of the chunks -/
theorem closing_given {u : OpenUpload} (h : u.session.Receiving u.sent) {e : FileUpload.UploadEvent}
    (hopen : u.session.fileOpen = true) (hclosed : (u.step e).session.fileOpen = false) :
    u.written ++ (FileUpload.chunkOf e).flatten <+: (u.step e).sent.flatten := by
  rw [OpenUpload.step, List.flatten_append]
  by_cases hchunk : FileUpload.chunkOf e = []
  · rw [hchunk, List.flatten_nil, List.append_nil, List.append_nil]
    exact written_given h
  · have hwritten := (h.progress (FileUpload.inProgress_of_closes hopen hclosed hchunk)).1
    rw [OpenUpload.written, hwritten]
    exact List.prefix_refl _

/-- **One event.** What a put stores is from `old`. -/
theorem Known.step (h : s.Known old) (e : SessionStoreEvent)
    (hput : ∀ faults input, e = .request faults (.put input) →
      old (payloadBytes input) ∧ ∀ bytes ∈ faults.write.stored, bytes <+: payloadBytes input) :
    (step digest fs s e).Known old := by
  cases e with
  | request faults r =>
    refine h.store _ fun content hcontent => ?_
    cases r with
    | put input =>
      obtain ⟨hold, hfault⟩ := hput faults input rfl
      rcases hcontent with rfl | rfl | hstored
      · exact Splice.traced_nil
      · exact Splice.traced_prefix (.inl hold) (List.prefix_refl _)
      · exact Splice.traced_prefix (.inl hold) (hfault content hstored)
    | _ => exact hcontent.elim
  | createDownload parameters => exact h.store _ fun _ hcontent => hcontent.elim
  | createUpload parameters available => exact h.store _ fun _ hcontent => hcontent.elim
  | start i faults config =>
    have hstored : Known old { s with store := s.store.step digest fs (.start i faults) } := by
      refine h.store _ fun content hcontent => ?_
      obtain rfl : content = [] := hcontent
      exact Splice.traced_nil
    rw [SessionStore.step]
    rcases hi : s.uploads i with _ | u
    · simp only
      split
      · refine hstored.set (FileUpload.receiving_started config) fun u hu => ?_
        exact absurd (hi.symm.trans hu) (by simp)
      · exact hstored
    · exact h
  | session i e n =>
    rw [SessionStore.step]
    rcases hi : s.uploads i with _ | u
    · exact h
    · have hreceiving := h.receiving i u hi
      have hgiven : (s.set i (u.step e)).Known old := by
        refine h.set (hreceiving.event e) fun v hv => ?_
        obtain rfl : u = v := Option.some.inj (hi.symm.trans hv)
        rw [OpenUpload.step, List.flatten_append]
        exact List.prefix_append _ _
      simp only
      split_ifs with hcloses
      · obtain ⟨hopen, hclosed⟩ : u.session.fileOpen = true ∧ (u.step e).session.fileOpen = false := by
          simpa using hcloses
        have hflushed := @Known.flushTo digest fs _ _ hgiven i _ (uploads_set_self s i (u.step e)) _
          (closing_given hreceiving hopen hclosed) n
        exact hflushed.store _ fun _ hcontent => hcontent.elim
      · exact hgiven
  | flush i n =>
    rw [SessionStore.step]
    rcases hi : s.uploads i with _ | u
    · exact h
    · simp only
      split_ifs
      · exact h.flushTo hi (written_given (h.receiving i u hi)) n
      · exact h

/-! ## Runs -/

/-- **Where every byte comes from.** No link is on the disk at the start, and a put that a fault cuts short has stored a
beginning of its payload. Every byte of a file is then, at its position, one of a file from the start, of the payload of a
put or of the chunks that one upload was given since its start, or fills a gap where one of these is longer. -/
theorem bytes_traced (digest : Bytes → Bytes → Bytes) (fs : Filesystem) (d : Disk) (hfree : d.tree.NoLinks [])
    (events : List SessionStoreEvent)
    (hfaults : ∀ faults input, .request faults (.put input) ∈ events →
      ∀ bytes ∈ faults.write.stored, bytes <+: payloadBytes input) :
    let s := run digest fs (start d) events
    (∀ loc content, s.store.disk.tree.node loc = some (.file content) → ∀ k b, content[k]? = some b →
      ∃ source,
        ((∃ l, d.tree.node l = some (.file source)) ∨
          (∃ faults input, .request faults (.put input) ∈ events ∧ source = payloadBytes input) ∨
          ∃ i u, s.uploads i = some u ∧ source = u.sent.flatten) ∧
        k < source.length ∧ (source[k]? = some b ∨ b = 0)) ∧
      ∀ i u, s.uploads i = some u → u.sent <:+ events.flatMap (chunksFor i) := by
  intro s
  let old : Bytes → Prop := fun source => (∃ l, d.tree.node l = some (.file source)) ∨
    ∃ faults input, .request faults (.put input) ∈ events ∧ source = payloadBytes input
  have hstart : (start d).Known old :=
    { sound := ⟨hfree, List.forall_mem_nil _⟩
      receiving := fun i u hi => absurd hi (by simp [start])
      files := fun loc content hn => Splice.traced_prefix (.inl (.inl ⟨loc, hn⟩)) (List.prefix_refl _) }
  have h : s.Known old := by
    refine Run.invariant_of_mem (I := Known old) events (fun t e he ht => ht.step e ?_) _ hstart
    rintro faults input rfl
    exact ⟨.inr ⟨faults, input, he, rfl⟩, hfaults faults input he⟩
  refine ⟨fun loc content hn k b hb => ?_, fun i u hi => sent_run d events hi⟩
  obtain ⟨source, hsource, hrest⟩ := h.files loc content hn k b hb
  exact ⟨source, or_assoc.1 hsource, hrest⟩

/-- an upload to a file, of which one byte is on the disk when a put truncates it, and two later -/
def mixedEvents : List SessionStoreEvent :=
  [.createUpload (.object [(text "path", .string (text "f")), (text "size", .numberUnsigned 3)]) 100,
    .start 0 {} { expectedSize := 3 }, .session 0 (.input (.binary [7, 8, 9] none) {}) 0, .flush 0 1,
    .request {} (.put (putRequest "f")), .flush 0 3]

/-- the byte of the put and two of the upload -/
theorem bytes_traced_mixed :
    let s := run (fun _ _ => []) dataFolder (start dataWithFile) mixedEvents
    let loc := [fileName "data" data_isName, fileName "f" (by decide)]
    s.store.disk.tree.node loc = some (.file [1, 8, 9]) ∧
      ∃ source : Bytes, 2 < source.length ∧ (source[2]? = some 9 ∨ (9 : UInt8) = 0) := by
  intro s loc
  have hnode : s.store.disk.tree.node loc = some (.file [1, 8, 9]) := by decide
  have hfaults : ∀ faults input, .request faults (.put input) ∈ mixedEvents →
      ∀ bytes ∈ faults.write.stored, bytes <+: payloadBytes input := by
    intro faults input hmem
    obtain ⟨rfl, -⟩ : faults = {} ∧ input = putRequest "f" := by simpa [mixedEvents] using hmem
    exact fun bytes hbytes => absurd hbytes (by simp [WriteFault.stored])
  obtain ⟨source, -, hsource⟩ := (bytes_traced (fun _ _ => []) dataFolder dataWithFile data_noLinks mixedEvents
    hfaults).1 loc [1, 8, 9] hnode 2 9 rfl
  exact ⟨hnode, source, hsource⟩

end SessionStore

end Filesystem

end Iotmp
