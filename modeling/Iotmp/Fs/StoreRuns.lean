/-
What is in the store after any run of requests and transfers, where there are no symbolic links.

- `entry_endures`: an entry that no event names, at it or above it, is as it was.
- `put_endures`: a put that reports success is what later requests read and hash, whatever came in between elsewhere.
- `stores_of_scope`: what each event gives a file to hold.
Witness: `put_endures_beside`.
-/
import Mathlib.Tactic
import Iotmp.Fs.Store

namespace Iotmp

open FileTree (Outcome Step Node Edit Scope)

namespace Filesystem

variable {digest : Bytes → Bytes → Bytes} {fs : Filesystem} {d : Disk} {input : Input} {path : Path}

/-! ## Reading a file -/

/-- a path that is there leads to the location it names -/
theorem lookup_of_resolve {key : String} (hfree : d.tree.NoLinks [])
    (h : fs.resolveAndValidatePath d input key true = .returns (.ok path)) :
    d.lookup path = .found (path.named d.cwd) := by
  have hexists : d.existsAt path = .returns true := by
    rw [resolveAndValidatePath] at h
    rcases hp : input.requestPath key with pathStr | _
    · simp only [hp, if_true] at h
      rcases hv : fs.validateResolvedPath d (fs.resolvePath d pathStr) with (_ | _) | _
      · simp [hv] at h
      · rcases hx : d.existsAt (fs.resolvePath d pathStr) with (_ | _) | _
        · simp [hv, hx] at h
        · obtain rfl : fs.resolvePath d pathStr = path := by simpa [hv, hx] using h
          exact hx
        · simp [hv, hx] at h
      · simp [hv] at h
    · simp [hp] at h
  obtain ⟨loc, hloc⟩ := Disk.existsAt_iff.1 hexists
  rw [hloc, Disk.lookup_named hfree path loc (by rw [hloc]; rfl)]

section

variable {loc : Location} {content : Bytes} (hl : d.lookup path = .found loc)
  (hnode : d.tree.node loc = some (.file content))

include hl hnode

theorem isRegularFile_of_node : d.isRegularFile path = true := by
  rw [Disk.isRegularFile, hl]
  exact (FileTree.isFile_iff _ _).2 ⟨content, hnode⟩

theorem isDirectory_of_node_file : d.isDirectory path = false := by
  rw [Disk.isDirectory, hl]
  simp [FileTree.isDirectory, hnode, Node.isDirectory]

theorem content_of_node : d.content path = content := by
  rw [Disk.content, hl]
  simp only [hnode]

theorem openIn_of_node (hopens : d.faults.opens = true) : d.openIn path = (some content, d.touch loc) := by
  rw [Disk.openIn, hl]
  simp only [hopens, if_true, content_of_node hl hnode]

/-- **A get reads the file.** -/
theorem handleGet_file (hdescribe : input.describe = false)
    (hresolve : fs.resolveAndValidatePath d input "path" true = .returns (.ok path))
    (hsize : content.length ≤ MAX_INLINE_FILE_SIZE) (hopens : d.faults.opens = true) :
    (fs.handleGet d input).2 = .returns { data := .binary content none } := by
  have hdownload : (fs.handleDownload d input).2 = .returns { data := .binary content none } := by
    rw [handleDownload, withPath, hresolve]
    simp only [isRegularFile_of_node hl hnode, content_of_node hl hnode, openIn_of_node hl hnode hopens, Bool.not_true,
      Bool.false_eq_true, if_false, if_neg (not_lt.2 hsize)]
  rw [handleGet, hdescribe, withPath, hresolve]
  simp only [isDirectory_of_node_file hl hnode, isRegularFile_of_node hl hnode, Bool.false_eq_true, if_false, if_true]
  exact hdownload

/-- **A hash is that of the file.** -/
theorem handleHash_file (hdescribe : input.describe = false)
    (hresolve : fs.resolveAndValidatePath d input "path" true = .returns (.ok path)) (hopens : d.faults.opens = true)
    {algorithm : Bytes} (halgorithm : hashAlgorithm (getText input.getParams "algorithm") = some algorithm) :
    (handleHash digest fs d input).2 = .returns (.fields [("path", .string (Path.cChars path.string)),
      ("algorithm", .string algorithm), ("hash", .string (hex (digest algorithm content))),
      ("size", .numberUnsigned (.ofNat content.length))]) := by
  rw [handleHash, hdescribe, withPath, hresolve]
  simp only [isRegularFile_of_node hl hnode, openIn_of_node hl hnode hopens, halgorithm, Bool.not_true,
    Bool.false_eq_true, if_false]

end

/-! ## Storing a file -/

/-- **A file that is written without a fault** is where its path names, unless that is a device. -/
theorem writeFile_stores {data : Bytes} (hfree : d.tree.NoLinks []) (hfault : d.faults.write = .none)
    (hdone : (writeFile d path data).2.success = true)
    (hdevice : (writeFile d path data).1.tree.node (path.named d.cwd) ≠ some .special) :
    (writeFile d path data).1.tree.node (path.named d.cwd) = some (.file data) := by
  have hnamed : ∀ loc ∈ (d.openOut path).1, loc = path.named d.cwd :=
    (@Disk.openOut_edited d hfree path (fun _ => True) trivial).2
  rw [writeFile] at hdone hdevice ⊢
  rcases hopen : d.openOut path with ⟨_ | loc, d'⟩
  · simp [hopen, Reply.error] at hdone
  · have hopened := Disk.openOut_opened hopen
    have hloc : loc = path.named d.cwd := hnamed loc (by rw [hopen]; rfl)
    rw [hopen, ← hloc] at hdevice
    rw [← hloc]
    by_cases hdata : data = []
    · simp only [if_pos hdata] at hdevice ⊢
      rw [hdata]
      exact hopened.file fun hspecial => hdevice (hopened.device hspecial)
    · simp only [if_neg hdata, hopened.faults, hfault] at hdevice ⊢
      have hfile : d'.tree.node loc = some (.file []) := by
        refine hopened.file fun hspecial => hdevice ?_
        have hnode := hopened.device hspecial
        rw [FileTree.write_of_not_file (by simp [FileTree.isFile, hnode, Node.isFile]), hnode]
      rw [FileTree.node_write ((FileTree.isFile_iff _ _).2 ⟨[], hfile⟩), if_pos rfl]

theorem putFile_stores {data : Bytes} (hfree : d.tree.NoLinks []) (hup : path.NoUp) (hfault : d.faults.write = .none)
    (hdone : (putFile d path data).2.success = true)
    (hdevice : (putFile d path data).1.tree.node (path.named d.cwd) ≠ some .special) :
    (putFile d path data).1.tree.node (path.named d.cwd) = some (.file data) := by
  obtain ⟨hmade, -⟩ := after_parents_edited hfree hup fun _ => True
  rw [putFile] at hdone hdevice ⊢
  rcases hc : d.createDirectories path.parentPath with ⟨_ | e, d'⟩
  · rw [hc] at hmade hdone hdevice
    rw [← hmade.cwd] at hdevice ⊢
    exact writeFile_stores (hmade.noLinks hfree) ((congrArg Faults.write hmade.faults).trans hfault) hdone hdevice
  · rw [hc] at hdone
    simp [Reply.error] at hdone

theorem resolve_of_requested {key : String} {checkExists : Bool} (h : fs.requested d input key = some path)
    (hexists : checkExists = true → d.existsAt path = .returns true) :
    fs.resolveAndValidatePath d input key checkExists = .returns (.ok path) := by
  obtain ⟨pathStr, hp, husable⟩ := requested_usable h
  obtain ⟨hpath, hvalid⟩ := usable_validated husable
  rw [resolveAndValidatePath, hp]
  simp only [hpath, hvalid]
  split_ifs with hcheck
  · rw [hexists hcheck]
  · rfl

/-- **A put that reports success** has stored its payload. -/
theorem handlePut_stores {reply : Reply} (hfree : d.tree.NoLinks []) (hdescribe : input.describe = false)
    (hnames : namesDirectory input = false) (hpath : fs.requested d input "path" = some path)
    (hreply : (fs.handlePut d input).2 = .returns reply) (hdone : reply.success = true) (hfault : d.faults.write = .none)
    (hdevice : (fs.handlePut d input).1.tree.node (path.named d.cwd) ≠ some .special) :
    (fs.handlePut d input).1.tree.node (path.named d.cwd) = some (.file (payloadBytes input)) ∧
      (payloadBytes input).length ≤ MAX_INLINE_FILE_SIZE := by
  have hup : path.NoUp := by
    obtain ⟨pathStr, -, husable⟩ := requested_usable hpath
    exact noUp_of_validated (usable_validated husable).2
  rw [handlePut, hdescribe, withPath, resolve_of_requested hpath (absurd · Bool.false_ne_true)] at hreply hdevice ⊢
  simp only [Bool.false_eq_true, if_false, hnames, Bool.and_false] at hreply hdevice ⊢
  by_cases hsize : (payloadBytes input).length > MAX_INLINE_FILE_SIZE
  · rw [if_pos hsize] at hreply
    obtain rfl := Call.returns.inj hreply
    exact absurd hdone (by simp [Reply.tooLarge])
  · rw [if_neg hsize] at hreply hdevice ⊢
    refine ⟨?_, not_lt.1 hsize⟩
    rcases ho : overwriteFlag input.getParams with overwrite | _
    · rw [ho] at hreply hdevice
      simp only at hreply hdevice ⊢
      split_ifs at hreply hdevice ⊢ with hkept
      · obtain rfl := Call.returns.inj hreply
        exact absurd hdone (by simp [Reply.errorCode])
      · obtain rfl := Call.returns.inj hreply
        exact putFile_stores hfree hup hfault hdone hdevice
    · rw [ho] at hreply
      exact absurd hreply (by simp)

/-! ## Runs -/

namespace Store

variable {s : Store}

theorem Sound.run (hs : s.Sound) (digest : Bytes → Bytes → Bytes) (fs : Filesystem) (events : List StoreEvent) :
    (run digest fs s events).Sound :=
  Run.always (fun _ e h => h.step digest fs e) s events hs

/-- **What no event names endures.** -/
theorem entry_endures (hs : s.Sound) {loc : Location} {n : Node FileName Bytes} (hn : s.disk.tree.node loc = some n)
    (events : List StoreEvent)
    (hspared : Run.Steps (step digest fs) (fun s e => (s.scope fs e).Spares loc) s events) :
    (run digest fs s events).disk.tree.node loc = some n := by
  have hall : (run digest fs s events).Sound ∧ (run digest fs s events).disk.tree.node loc = some n := by
    refine Run.invariant (I := fun t : Store => t.Sound ∧ t.disk.tree.node loc = some n) ?_ s events ⟨hs, hn⟩ hspared
    rintro t e ⟨ht, hnode⟩ hspares
    exact ⟨ht.step digest fs e, (step_tree ht digest fs e).kept hspares hnode⟩
  exact hall.2

/-- **Put, then get.** A put without a write fault has reported success, and what is there is no device. After any
run whose events leave its location and the directories above it alone, a get of any path that leads there returns the
payload, and a hash the digest of the payload. -/
theorem put_endures (hs : s.Sound) (faults : Faults) (input : Input) (path : Path) (reply : Reply)
    (hdescribe : input.describe = false) (hnames : namesDirectory input = false)
    (hpath : fs.requested { s.disk with faults := faults } input "path" = some path)
    (hreply : (fs.handlePut { s.disk with faults := faults } input).2 = .returns reply) (hdone : reply.success = true)
    (hfault : faults.write = .none)
    (hdevice : (step digest fs s (.request faults (.put input))).disk.tree.node (path.named s.disk.cwd) ≠ some .special)
    (events : List StoreEvent)
    (hspared : Run.Steps (step digest fs) (fun t e => (t.scope fs e).Spares (path.named s.disk.cwd))
      (step digest fs s (.request faults (.put input))) events) :
    ∀ later : Faults, later.opens = true →
      let d := { (run digest fs s (.request faults (.put input) :: events)).disk with faults := later }
      ∀ read path', fs.resolveAndValidatePath d read "path" true = .returns (.ok path') →
        path'.named d.cwd = path.named s.disk.cwd → read.describe = false →
        ((FsRequest.get read).handle digest fs d).2 = .returns { data := .binary (payloadBytes input) none } ∧
          ∀ algorithm, hashAlgorithm (getText read.getParams "algorithm") = some algorithm →
            ((FsRequest.hash read).handle digest fs d).2 = .returns (.fields [("path", .string (Path.cChars path'.string)),
              ("algorithm", .string algorithm), ("hash", .string (hex (digest algorithm (payloadBytes input)))),
              ("size", .numberUnsigned (.ofNat (payloadBytes input).length))]) := by
  intro later hopens d read path' hresolve hsame hread
  obtain ⟨hstored, hsize⟩ := handlePut_stores (d := { s.disk with faults := faults }) hs.free hdescribe hnames hpath
    hreply hdone hfault hdevice
  have hput := hs.step digest fs (.request faults (.put input))
  have hnode : d.tree.node (path.named s.disk.cwd) = some (.file (payloadBytes input)) :=
    entry_endures hput hstored events hspared
  have hfree : d.tree.NoLinks [] := (hput.run digest fs events).free
  have hl : d.lookup path' = .found (path.named s.disk.cwd) := by
    rw [← hsame]
    exact lookup_of_resolve hfree hresolve
  refine ⟨handleGet_file hl hnode hread hresolve hsize hopens, fun algorithm halgorithm => ?_⟩
  exact handleHash_file hl hnode hread hresolve hopens halgorithm

end Store

/-- a delete leaves alone what is not at its path or below -/
theorem delete_spares {s : Store} {faults : Faults}
    (hpath : fs.requested { s.disk with faults := faults } input "path" = some path) {loc : Location}
    (hloc : ¬ path.named s.disk.cwd <+: loc) : (s.scope fs (.request faults (.delete input))).Spares loc := by
  have hscope : s.scope fs (.request faults (.delete input)) = { s.disk with faults := faults }.removing path := by
    rw [Store.scope, FsRequest.scope, hpath]
    rfl
  rw [hscope]
  refine ⟨?_, ?_⟩
  · rintro rfl
    exact hloc (List.prefix_refl _)
  · rintro l rfl
    exact hloc

/-- a request that reads a path -/
def readRequest (path : String) : Input where
  streamId := 0
  data := .null
  path := some (.object [(text "path", .string (text path))])

/-- a file is put beside another one, which is deleted -/
theorem put_endures_beside :
    let events := [StoreEvent.request {} (.put (putRequest "g")), .request {} (.delete (deleteRequest "f" false))]
    let d := { (Store.run (fun _ _ => []) dataFolder ⟨dataWithFile, []⟩ events).disk with faults := {} }
    ((FsRequest.get (readRequest "g")).handle (fun _ _ => []) dataFolder d).2 =
      .returns { data := .binary [1] none } := by
  intro events d
  have hsound : Store.Sound ⟨dataWithFile, []⟩ := ⟨data_noLinks, List.forall_mem_nil _⟩
  have hpath : dataFolder.requested dataWithFile (putRequest "g") "path" = some (Path.ofBytes (text "/data/g")) := by
    decide
  have hdeleted : dataFolder.requested (Store.step (fun _ _ => []) dataFolder ⟨dataWithFile, []⟩
      (.request {} (.put (putRequest "g")))).disk (deleteRequest "f" false) "path" =
        some (Path.ofBytes (text "/data/f")) := by decide
  have hresolve : dataFolder.resolveAndValidatePath d (readRequest "g") "path" true =
      .returns (.ok (Path.ofBytes (text "/data/g"))) := resolve_of_requested (by decide) fun _ => by decide
  refine (Store.put_endures hsound {} (putRequest "g") (Path.ofBytes (text "/data/g")) _ rfl rfl hpath rfl (by decide)
    rfl (by decide) [.request {} (.delete (deleteRequest "f" false))] ⟨?_, trivial⟩ {} rfl (readRequest "g") _ hresolve
    (by decide) rfl).1
  exact delete_spares hdeleted (by decide)

/-! ## Contents -/

/-- the contents that an event gives a file -/
def StoreEvent.Stores (content : Bytes) : StoreEvent → Prop
  | request faults (.put input) => Filesystem.Stores faults input content
  | start _ _ => content = []
  | flush _ bytes => content = bytes
  | _ => False

/-- a put is the request that stores something -/
theorem stores_of_request {r : FsRequest} {content : Bytes} (h : (r.scope fs d).content content) :
    ∃ input, r = .put input ∧ Stores d.faults input content := by
  cases r with
  | put input =>
    rw [FsRequest.scope] at h
    rcases hpath : fs.requested d input "path" with _ | path
    · rw [hpath] at h
      exact False.elim h
    · rw [hpath] at h
      exact ⟨input, rfl, h⟩
  | delete input =>
    rw [FsRequest.scope] at h
    rcases hpath : fs.requested d input "path" with _ | path
    · rw [hpath] at h
      exact False.elim h
    · rw [hpath] at h
      exact False.elim h
  | move input refused =>
    rw [FsRequest.scope] at h
    split at h
    · exact h.elim
    · exact h.elim
  | _ => exact h.elim

namespace Store

variable {s : Store}

theorem stores_of_scope {e : StoreEvent} {content : Bytes} (h : (s.scope fs e).content content) : e.Stores content := by
  cases e with
  | request faults r =>
    obtain ⟨input, rfl, hstores⟩ := stores_of_request (d := { s.disk with faults := faults }) h
    exact hstores
  | start i faults =>
    rw [scope] at h
    split at h
    · exact h
    · exact h.elim
  | flush i bytes =>
    rw [scope] at h
    split at h
    · exact h
    · exact h.elim
  | stop i completed =>
    rw [scope] at h
    split at h
    · split_ifs at h <;> exact h.elim
    · exact h.elim
  | _ => exact h.elim

end Store

end Filesystem

end Iotmp
