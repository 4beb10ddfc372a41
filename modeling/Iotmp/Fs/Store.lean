/-
The filesystem extension as a store: its requests and its transfer sessions, on one disk.

- `handleInfo`: the resource that describes a file; modes and times are left out.
- `FsRequest`: a request for one of the resources. `requested`, `usable`: the paths that it may use.
- `Transfer`: a transfer session as the disk sees it. `create_session` checks the path; `start` runs in a coroutine of
  its own, after whatever comes in between. The open file of an upload stays where it is, goes where a move takes it, and
  has no name once it is removed.
- `Store.step`: one event. Each has its own faults. A request is one step: that the handlers of RUN requests go on at the
  same time, on the threads of the pool, is left out. `flush`: bytes of an upload reach its file; `content`, what the file
  holds then, is an argument, which the sessions above the store choose.
- `handle_edited`, `step_edited`: **what each event may do to the disk**, where there are no symbolic links: `scope` for the
  edits, `opens` for what is opened.
-/
import Mathlib.Tactic
import Iotmp.Fs.DiskEdits
import Iotmp.Fs.PlainPaths

namespace Iotmp

open FileTree (Outcome Step Node Edit Scope)

/-- `filename()` -/
def Path.filename (p : Path) : Bytes := if p.trailing then [] else p.elements.getLast?.elim [] Subtype.val

namespace Filesystem

/-! ## Requests -/

def handleInfo (fs : Filesystem) (d : Disk) (input : Input) : Disk × Call Reply :=
  if input.describe then
    (d, .returns (.fields [("name", .string []), ("path", .string []), ("type", .string []), ("size", .numberInteger 0)]))
  else
    fs.withPath d input "path" true fun path =>
      match d.lookup path with
      | .found loc =>
        match d.tree.node loc with
        | some node =>
          let size := match node with
            | .file content => [("size", .numberUnsigned (.ofNat content.length))]
            | _ => []
          (d, .returns (.fields ([("name", .string (Path.cChars path.filename)),
            ("path", .string (Path.cChars path.string)), ("type", Reply.ofText (getFileType node))] ++ size)))
        | none => (d, .returns (.error Errno.ENOENT.message))
      | _ => (d, .returns (.error Errno.ENOENT.message))

inductive FsRequest where
  | get (input : Input)
  | info (input : Input)
  | put (input : Input)
  | delete (input : Input)
  /-- `refused`: an error of the system that does not depend on the tree -/
  | move (input : Input) (refused : Option Errno)
  | hash (input : Input)

/-- the path of a text, if it is accepted -/
def usable (fs : Filesystem) (d : Disk) (pathStr : Bytes) : Option Path :=
  if fs.validateResolvedPath d (fs.resolvePath d pathStr) = .returns true then some (fs.resolvePath d pathStr) else none

/-- the path that a request names, if it is accepted -/
def requested (fs : Filesystem) (d : Disk) (input : Input) (key : String) : Option Path :=
  match input.requestPath key with
  | .throws => none
  | .returns pathStr => fs.usable d pathStr

namespace FsRequest

def handle (digest : Bytes → Bytes → Bytes) (fs : Filesystem) (d : Disk) : FsRequest → Disk × Call Reply
  | get input => fs.handleGet d input
  | info input => fs.handleInfo d input
  | put input => fs.handlePut d input
  | delete input => fs.handleDelete d input
  | move input refused => fs.handleMove d input refused
  | hash input => handleHash digest fs d input

/-- the accepted paths of a request -/
def paths (fs : Filesystem) (d : Disk) : FsRequest → List Path
  | get input => (fs.requested d input "path").toList
  | info input => (fs.requested d input "path").toList
  | put input => (fs.requested d input "path").toList
  | delete input => (fs.requested d input "path").toList
  | move input _ => (fs.requested d input "source").toList ++ (fs.usable d (getText input.data "path")).toList
  | hash input => (fs.requested d input "path").toList

/-- the entries that a move moves, one to the other -/
def renames (fs : Filesystem) (d : Disk) : FsRequest → Option (Location × Location)
  | move input refused =>
    match (fs.handleMove d input refused).2, fs.requested d input "source", fs.usable d (getText input.data "path") with
    | .returns reply, some source, some dest =>
      if !reply.success || input.describe then none
      else
        match d.entry source, d.entry dest with
        | .found src, .found dst => if src = dst then none else some (src, dst)
        | .found src, .missing dir name => some (src, dir ++ [name])
        | _, _ => none
    | _, _, _ => none
  | _ => none

end FsRequest

/-! ## The store -/

inductive Transfer where
  /-- `create_session` has accepted the path; the session has not started -/
  | created (upload : Bool) (path : Path)
  /-- an upload has opened its file; none once that file has no name -/
  | uploading (path : Path) (file : Option Location)
  /-- it does not use the disk any more, or only to read what it has opened -/
  | ended

namespace Transfer

def follow (f : Location → Option Location) : Transfer → Transfer
  | uploading path file => uploading path (file.bind f)
  | t => t

def path : Transfer → Option Path
  | created _ path => some path
  | uploading path _ => some path
  | ended => none

/-- where the open file of an upload is -/
def file : Transfer → Option Location
  | uploading _ file => file
  | _ => none

@[simp] theorem follow_path (f : Location → Option Location) (t : Transfer) : (t.follow f).path = t.path := by
  cases t <;> rfl

@[simp] theorem follow_file (f : Location → Option Location) (t : Transfer) : (t.follow f).file = t.file.bind f := by
  cases t <;> rfl

end Transfer

structure Store where
  disk : Disk
  transfers : List Transfer := []

inductive StoreEvent where
  | request (faults : Faults) (r : FsRequest)
  | createDownload (parameters : Json)
  | createUpload (parameters : Json) (available : ℕ)
  | start (i : ℕ) (faults : Faults)
  | flush (i : ℕ) (content : Bytes)
  /-- `stop`; `completed`: the server stops an upload that it has completed, and its file is kept -/
  | stop (i : ℕ) (completed : Bool)

/-- `exists` and `remove`, at the end of an upload that was not completed; both may throw -/
def cleanup (d : Disk) (path : Path) : Disk := if d.existsAt path = .returns true then (d.remove path).2 else d

/-- where an open file is, if nothing has moved -/
def stays (d : Disk) (loc : Location) : Option Location := if d.tree.isFile loc then some loc else none

/-- where an open file is after a request -/
def FsRequest.follow (fs : Filesystem) (d d' : Disk) (r : FsRequest) (loc : Location) : Option Location :=
  match r.renames fs d with
  | some (src, dst) => if dst <+: loc then none else some (FileTree.moved src dst loc)
  | none => stays d' loc

namespace Store

/-- what is opened at a path -/
def fileAt (d : Disk) (path : Path) : Option Location :=
  match d.lookup path with
  | .found loc => some loc
  | _ => none

def step (digest : Bytes → Bytes → Bytes) (fs : Filesystem) (s : Store) : StoreEvent → Store
  | .request faults r =>
    let d := { s.disk with faults := faults }
    let d' := (r.handle digest fs d).1
    ⟨d', s.transfers.map (Transfer.follow (r.follow fs d d'))⟩
  | .createDownload parameters =>
    match fs.createDownload s.disk parameters with
    | .returns (some (path, _)) => { s with transfers := s.transfers ++ [.created false path] }
    | _ => s
  | .createUpload parameters available =>
    match fs.createUpload s.disk parameters available with
    | .returns (some (path, _)) => { s with transfers := s.transfers ++ [.created true path] }
    | _ => s
  | .start i faults =>
    match s.transfers[i]? with
    | some (.created true path) =>
      match openUpload { s.disk with faults := faults } path with
      | (d, .returns true) => ⟨d, s.transfers.set i (.uploading path (fileAt d path))⟩
      | (d, _) => ⟨d, s.transfers.set i .ended⟩
    | some (.created false path) =>
      ⟨(openDownload { s.disk with faults := faults } path).1, s.transfers.set i .ended⟩
    | _ => s
  | .flush i content =>
    match s.transfers[i]? with
    | some (.uploading _ (some loc)) => { s with disk := { s.disk with tree := s.disk.tree.write loc content } }
    | _ => s
  | .stop i completed =>
    match s.transfers[i]? with
    | some (.uploading path _) =>
      let d := if completed then s.disk else cleanup s.disk path
      ⟨d, (s.transfers.set i .ended).map (Transfer.follow (stays d))⟩
    | _ => s

abbrev run (digest : Bytes → Bytes → Bytes) (fs : Filesystem) (s : Store) (events : List StoreEvent) : Store :=
  Run.run (step digest fs) s events

end Store

/-! ## The paths of a request -/

variable {fs : Filesystem} {d : Disk} {input : Input} {path : Path}

theorem usable_validated {pathStr : Bytes} (h : fs.usable d pathStr = some path) :
    fs.resolvePath d pathStr = path ∧ fs.validateResolvedPath d path = .returns true := by
  rw [usable] at h
  split_ifs at h with hvalid
  obtain rfl := Option.some.inj h
  exact ⟨rfl, hvalid⟩

theorem requested_usable {key : String} (h : fs.requested d input key = some path) :
    ∃ pathStr, input.requestPath key = .returns pathStr ∧ fs.usable d pathStr = some path := by
  rw [requested] at h
  rcases hp : input.requestPath key with pathStr | _
  · rw [hp] at h
    exact ⟨pathStr, rfl, h⟩
  · rw [hp] at h
    exact absurd h (by simp)

theorem noUp_of_validated (h : fs.validateResolvedPath d path = .returns true) : path.NoUp := by
  intro e he hin
  rw [validateResolvedPath, if_pos ((Path.infix_string_iff path).2 ⟨e, he, hin⟩)] at h
  exact absurd h (by simp)

/-- every path that is used was accepted -/
theorem validated_of_mem_paths {r : FsRequest} (h : path ∈ r.paths fs d) :
    fs.validateResolvedPath d path = .returns true := by
  have hrequested : ∀ {input : Input} {key : String}, path ∈ (fs.requested d input key).toList →
      fs.validateResolvedPath d path = .returns true := by
    intro input key hmem
    obtain ⟨pathStr, -, hpath⟩ := requested_usable (Option.mem_toList.1 hmem)
    exact (usable_validated hpath).2
  cases r with
  | move input refused =>
    rcases List.mem_append.1 h with hsource | hdest
    · exact hrequested hsource
    · exact (usable_validated (Option.mem_toList.1 hdest)).2
  | _ => exact hrequested h

theorem requested_of_resolve {key : String} {checkExists : Bool}
    (h : fs.resolveAndValidatePath d input key checkExists = .returns (.ok path)) :
    fs.requested d input key = some path := by
  rw [resolveAndValidatePath] at h
  rw [requested]
  rcases hp : input.requestPath key with pathStr | _
  · simp only [hp] at h ⊢
    rcases hv : fs.validateResolvedPath d (fs.resolvePath d pathStr) with (_ | _) | _
    · simp [hv] at h
    · have hpath : fs.resolvePath d pathStr = path := by
        simp only [hv] at h
        split_ifs at h
        · rcases hx : d.existsAt (fs.resolvePath d pathStr) with (_ | _) | _
          · simp [hx] at h
          · simpa [hx] using h
          · simp [hx] at h
        · simpa using h
      rw [usable, if_pos hv, hpath]
    · simp [hv] at h
  · simp [hp] at h

/-- what the rest of a handler does with the path it may use is all that the handler does -/
theorem withPath_edited {s : Scope FileName Bytes} {opened : Location → Prop} (key : String) (checkExists : Bool)
    {next : Path → Disk × Call Reply}
    (h : ∀ path, fs.requested d input key = some path → Disk.Edited s opened d (next path).1) :
    Disk.Edited s opened d (fs.withPath d input key checkExists next).1 := by
  rw [withPath]
  rcases hr : fs.resolveAndValidatePath d input key checkExists with (reply | path) | _
  · exact .refl _ _ d
  · exact h path (requested_of_resolve hr)
  · exact .refl _ _ d

/-! ## What a request may do -/

/-- what a put stores: nothing yet, the payload, or the part of it that reaches the file -/
def Stores (faults : Faults) (input : Input) (content : Bytes) : Prop :=
  content = [] ∨ content = payloadBytes input ∨ content ∈ faults.write.stored

namespace FsRequest

def scope (fs : Filesystem) (d : Disk) : FsRequest → Scope FileName Bytes
  | put input => (fs.requested d input "path").elim .none fun path => d.storing path (Stores d.faults input)
  | delete input => (fs.requested d input "path").elim .none d.removing
  | move input _ =>
    match fs.requested d input "source", fs.usable d (getText input.data "path") with
    | some source, some dest => d.moving source dest
    | _, _ => .none
  | _ => .none

def opens (fs : Filesystem) (d : Disk) (r : FsRequest) (loc : Location) : Prop :=
  ∃ path ∈ r.paths fs d, d.opening path loc

end FsRequest

section

variable (hfree : d.tree.NoLinks [])

include hfree

theorem handleList_edited (fs : Filesystem) (input : Input) :
    Disk.Edited .none (fun loc => ∃ path ∈ (fs.requested d input "path").toList, d.opening path loc) d
      (fs.handleList d input).1 := by
  rw [handleList]
  refine withPath_edited "path" true fun path hpath => ?_
  have hopened := Disk.openDirectory_edited hfree path
  split_ifs
  · exact .refl _ _ d
  · rcases d.lookup path with loc | _ | _ | _
    · exact hopened.mono (.refl _) fun loc hloc => ⟨path, Option.mem_toList.2 hpath, hloc⟩
    · exact .refl _ _ d
    · exact .refl _ _ d
    · exact .refl _ _ d

/-- a file is opened to read at the path of the request -/
theorem openRequested_edited {key : String} (hpath : fs.requested d input key = some path) :
    Disk.Edited .none (fun loc => ∃ path ∈ (fs.requested d input key).toList, d.opening path loc) d
      (d.openIn path).2 :=
  (Disk.openIn_edited hfree path).mono (.refl _) fun _ hloc => ⟨path, Option.mem_toList.2 hpath, hloc⟩

theorem handleDownload_edited (fs : Filesystem) (input : Input) :
    Disk.Edited .none (fun loc => ∃ path ∈ (fs.requested d input "path").toList, d.opening path loc) d
      (fs.handleDownload d input).1 := by
  rw [handleDownload]
  refine withPath_edited "path" true fun path hpath => ?_
  have hopened := openRequested_edited hfree hpath
  split_ifs
  · exact .refl _ _ d
  · exact .refl _ _ d
  · rcases hopen : d.openIn path with ⟨_ | content, d'⟩
    · rw [hopen] at hopened
      exact hopened
    · rw [hopen] at hopened
      exact hopened

theorem handleGet_edited (fs : Filesystem) (input : Input) :
    Disk.Edited .none (fun loc => ∃ path ∈ (fs.requested d input "path").toList, d.opening path loc) d
      (fs.handleGet d input).1 := by
  rw [handleGet]
  split_ifs
  · exact .refl _ _ d
  · refine withPath_edited "path" true fun path hpath => ?_
    split_ifs
    · exact handleList_edited hfree fs input
    · exact handleDownload_edited hfree fs input
    · exact .refl _ _ d

omit hfree in
theorem handleInfo_disk (fs : Filesystem) (d : Disk) (input : Input) : (fs.handleInfo d input).1 = d := by
  rw [handleInfo]
  split_ifs
  · rfl
  · rw [withPath]
    rcases fs.resolveAndValidatePath d input "path" true with (reply | path) | _
    · rfl
    · simp only
      rcases d.lookup path with loc | _ | _ | _
      · simp only
        rcases d.tree.node loc with _ | node
        · rfl
        · rfl
      · rfl
      · rfl
      · rfl
    · rfl

theorem handleHash_edited (digest : Bytes → Bytes → Bytes) (fs : Filesystem) (input : Input) :
    Disk.Edited .none (fun loc => ∃ path ∈ (fs.requested d input "path").toList, d.opening path loc) d
      (handleHash digest fs d input).1 := by
  rw [handleHash]
  split_ifs
  · exact .refl _ _ d
  · refine withPath_edited "path" true fun path hpath => ?_
    have hopened := openRequested_edited hfree hpath
    split_ifs
    · exact .refl _ _ d
    · rcases hashAlgorithm (getText input.getParams "algorithm") with _ | algorithm
      · exact .refl _ _ d
      · rcases hopen : d.openIn path with ⟨_ | content, d'⟩
        · rw [hopen] at hopened
          exact hopened
        · rw [hopen] at hopened
          exact hopened

theorem handlePut_edited (fs : Filesystem) (input : Input) :
    Disk.Edited ((FsRequest.put input).scope fs d) ((FsRequest.put input).opens fs d) d (fs.handlePut d input).1 := by
  rw [handlePut]
  by_cases hdescribe : input.describe = true
  · rw [if_pos hdescribe]
    exact .refl _ _ d
  · rw [if_neg hdescribe]
    refine withPath_edited "path" false fun path hpath => ?_
    have hup : path.NoUp := by
      obtain ⟨pathStr, -, husable⟩ := requested_usable hpath
      exact noUp_of_validated (usable_validated husable).2
    have hscope : (FsRequest.put input).scope fs d = d.storing path (Stores d.faults input) := by
      rw [FsRequest.scope, hpath]
      rfl
    have hopens : ∀ loc, d.opening path loc → (FsRequest.put input).opens fs d loc :=
      fun loc hloc => ⟨path, Option.mem_toList.2 hpath, hloc⟩
    have hdirectory := (putDirectory_edited hfree hup (Stores d.faults input)).mono (.refl _) hopens
    have hfile : Disk.Edited (d.storing path (Stores d.faults input)) ((FsRequest.put input).opens fs d) d
        (putFile d path (payloadBytes input)).1 :=
      (putFile_edited hfree hup (.inl rfl) (.inr (.inl rfl)) fun bytes hbytes => .inr (.inr hbytes)).mono (.refl _) hopens
    rw [hscope]
    by_cases hsize : (payloadBytes input).length > MAX_INLINE_FILE_SIZE
    · rw [if_pos hsize]
      exact .refl _ _ d
    · rw [if_neg hsize]
      rcases overwriteFlag input.getParams with overwrite | _
      · simp only
        split_ifs
        · exact .refl _ _ d
        · exact .refl _ _ d
        · exact .refl _ _ d
        · exact hdirectory
        · exact hfile
      · exact .refl _ _ d

theorem handleDelete_edited (fs : Filesystem) (input : Input) (opened : Location → Prop) :
    Disk.Edited ((FsRequest.delete input).scope fs d) opened d (fs.handleDelete d input).1 := by
  rw [handleDelete]
  split_ifs
  · exact .refl _ _ d
  · refine withPath_edited "path" true fun path hpath => ?_
    have hdeleted := deletePath_edited hfree path (getFlag input.getParams "recursive" false) opened
    have hscope : (FsRequest.delete input).scope fs d = d.removing path := by
      rw [FsRequest.scope, hpath]
      rfl
    rw [hscope]
    split_ifs
    · exact .refl _ _ d
    · rcases hdelete : deletePath d path (getFlag input.getParams "recursive" false) with ⟨_ | e, d'⟩
      · rw [hdelete] at hdeleted
        exact hdeleted
      · rw [hdelete] at hdeleted
        exact hdeleted

theorem handleMove_edited (fs : Filesystem) (input : Input) (refused : Option Errno) :
    Disk.Edited ((FsRequest.move input refused).scope fs d) ((FsRequest.move input refused).opens fs d) d
      (fs.handleMove d input refused).1 := by
  rw [handleMove]
  by_cases hdescribe : input.describe = true
  · rw [if_pos hdescribe]
    exact .refl _ _ d
  · rw [if_neg hdescribe]
    refine withPath_edited "source" true fun source hsource => ?_
    by_cases hempty : getText input.data "path" = []
    · rw [if_pos hempty]
      exact .refl _ _ d
    · rw [if_neg hempty]
      rcases hv : fs.validateResolvedPath d (fs.resolvePath d (getText input.data "path")) with (_ | _) | _
      · simp only [hv]
        exact .refl _ _ d
      · have hdest : fs.usable d (getText input.data "path") = some (fs.resolvePath d (getText input.data "path")) :=
          if_pos hv
        have hscope : (FsRequest.move input refused).scope fs d =
            d.moving source (fs.resolvePath d (getText input.data "path")) := by
          rw [FsRequest.scope, hsource, hdest]
        have hrenamed : Disk.Edited (d.moving source (fs.resolvePath d (getText input.data "path")))
            ((FsRequest.move input refused).opens fs d) d
            (d.rename source (fs.resolvePath d (getText input.data "path")) refused).2 :=
          (Disk.rename_edited hfree source _ refused).mono (.refl _) fun loc hloc =>
            ⟨_, List.mem_append_right _ (Option.mem_toList.2 hdest), hloc⟩
        rw [hscope]
        simp only [hv]
        split_ifs
        · exact .refl _ _ d
        · rcases hrename : d.rename source (fs.resolvePath d (getText input.data "path")) refused with ⟨_ | e, d'⟩
          · rw [hrename] at hrenamed
            exact hrenamed
          · rw [hrename] at hrenamed
            exact hrenamed
      · simp only [hv]
        exact .refl _ _ d

/-- **What a request may do.** -/
theorem handle_edited (digest : Bytes → Bytes → Bytes) (fs : Filesystem) (r : FsRequest) :
    Disk.Edited (r.scope fs d) (r.opens fs d) d (r.handle digest fs d).1 := by
  cases r with
  | get input => exact handleGet_edited hfree fs input
  | info input =>
    rw [FsRequest.handle, handleInfo_disk]
    exact .refl _ _ d
  | put input => exact handlePut_edited hfree fs input
  | delete input => exact handleDelete_edited hfree fs input _
  | move input refused => exact handleMove_edited hfree fs input refused
  | hash input => exact handleHash_edited hfree digest fs input

end

/-! ## What an event may do -/

theorem validated_of_createDownload {parameters : Json} {config : TransferConfig}
    (h : fs.createDownload d parameters = .returns (some (path, config))) :
    fs.validateResolvedPath d path = .returns true := by
  rw [createDownload] at h
  split_ifs at h
  · exact absurd h (by simp)
  · rcases hv : fs.validateResolvedPath d (fs.resolvePath d (getText parameters "path")) with (_ | _) | _ <;>
      simp only [hv] at h
    · exact absurd h (by simp)
    · rcases hm : bandwidth parameters with mbps | _ <;> rw [hm] at h
      · obtain ⟨rfl, -⟩ := Prod.mk.inj (Option.some.inj (Call.returns.inj h))
        exact hv
      · exact absurd h (by simp)
    · exact absurd h (by simp)

theorem validated_of_createUpload {parameters : Json} {available : ℕ} {config : TransferConfig}
    (h : fs.createUpload d parameters available = .returns (some (path, config))) :
    fs.validateResolvedPath d path = .returns true := by
  by_cases hpath : getText parameters "path" = []
  · rw [createUpload, if_pos hpath] at h
    exact absurd h (by simp)
  by_cases hsize : getSize parameters "size" 0 = 0
  · rw [createUpload, if_neg hpath, if_pos hsize] at h
    exact absurd h (by simp)
  rw [createUpload, if_neg hpath, if_neg hsize] at h
  rcases hv : fs.validateResolvedPath d (fs.resolvePath d (getText parameters "path")) with (_ | _) | _ <;>
    simp only [hv] at h
  · exact absurd h (by simp)
  · split_ifs at h
    · exact absurd h (by simp)
    · exact absurd h (by simp)
    · rcases hm : bandwidth parameters with mbps | _ <;> rw [hm] at h
      · obtain ⟨rfl, -⟩ := Prod.mk.inj (Option.some.inj (Call.returns.inj h))
        exact hv
      · exact absurd h (by simp)
  · exact absurd h (by simp)

namespace Store

variable {s : Store}

/-- what can be relied on in a store: no links, and the paths of the sessions were accepted -/
structure Sound (s : Store) : Prop where
  free : s.disk.tree.NoLinks []
  noUp : ∀ t ∈ s.transfers, ∀ path ∈ t.path, path.NoUp

def scope (fs : Filesystem) (s : Store) : StoreEvent → Scope FileName Bytes
  | .request faults r => r.scope fs { s.disk with faults := faults }
  | .start i _ =>
    match s.transfers[i]? with
    | some (.created true path) => s.disk.storing path fun content => content = []
    | _ => .none
  | .flush i content =>
    match s.transfers[i]? with
    | some (.uploading _ (some loc)) => ⟨fun _ => False, fun l => l = loc, fun _ => False, fun c => c = content⟩
    | _ => .none
  | .stop i completed =>
    match s.transfers[i]? with
    | some (.uploading path _) =>
      if completed then .none
      else ⟨fun _ => False, fun l => l = path.named s.disk.cwd, fun _ => False, fun _ => False⟩
    | _ => .none
  | _ => .none

def opens (fs : Filesystem) (s : Store) : StoreEvent → Location → Prop
  | .request faults r => r.opens fs { s.disk with faults := faults }
  | .start i _ =>
    match s.transfers[i]? with
    | some (.created _ path) => s.disk.opening path
    | _ => fun _ => False
  | _ => fun _ => False

/-- the disk, under the faults of an event -/
def under (s : Store) : StoreEvent → Disk
  | .request faults _ => { s.disk with faults := faults }
  | .start i faults =>
    match s.transfers[i]? with
    | some (.created _ _) => { s.disk with faults := faults }
    | _ => s.disk
  | _ => s.disk

theorem under_eq (s : Store) (e : StoreEvent) :
    (s.under e).tree = s.disk.tree ∧ (s.under e).cwd = s.disk.cwd ∧ (s.under e).touched = s.disk.touched := by
  cases e with
  | start i faults =>
    rw [under]
    rcases s.transfers[i]? with _ | (⟨_, _⟩ | ⟨_, _⟩ | _) <;> exact ⟨rfl, rfl, rfl⟩
  | _ => exact ⟨rfl, rfl, rfl⟩

theorem cleanup_edited (hfree : d.tree.NoLinks []) {sc : Scope FileName Bytes} (hs : sc.entry (path.named d.cwd))
    (opened : Location → Prop) : Disk.Edited sc opened d (cleanup d path) := by
  rw [cleanup]
  split_ifs
  · exact Disk.remove_edited hfree hs opened
  · exact .refl _ _ d

/-- **What an event may do.** -/
theorem step_edited (hs : s.Sound) (digest : Bytes → Bytes → Bytes) (fs : Filesystem) (e : StoreEvent) :
    Disk.Edited (s.scope fs e) (s.opens fs e) (s.under e) (step digest fs s e).disk := by
  cases e with
  | request faults r => exact handle_edited (d := { s.disk with faults := faults }) hs.free digest fs r
  | createDownload parameters =>
    rw [step]
    rcases fs.createDownload s.disk parameters with (_ | ⟨path, config⟩) | _ <;> exact .refl _ _ s.disk
  | createUpload parameters available =>
    rw [step]
    rcases fs.createUpload s.disk parameters available with (_ | ⟨path, config⟩) | _ <;> exact .refl _ _ s.disk
  | start i faults =>
    rw [step, scope, opens, under]
    rcases ht : s.transfers[i]? with _ | (⟨_ | _, path⟩ | ⟨path, file⟩ | _)
    · exact .refl _ _ s.disk
    · exact openDownload_edited (d := { s.disk with faults := faults }) hs.free path
    · have hup : path.NoUp := hs.noUp _ (List.mem_of_getElem? ht) path rfl
      have hopened : Disk.Edited (s.disk.storing path fun content => content = []) (s.disk.opening path)
          { s.disk with faults := faults } (openUpload { s.disk with faults := faults } path).1 := by
        apply openUpload_edited (d := { s.disk with faults := faults }) hs.free hup
        rfl
      simp only
      rcases hopen : openUpload { s.disk with faults := faults } path with ⟨d', (_ | _) | _⟩ <;>
        rw [hopen] at hopened <;> exact hopened
    · exact .refl _ _ s.disk
    · exact .refl _ _ s.disk
  | flush i content =>
    rw [step, scope]
    rcases s.transfers[i]? with _ | (⟨_, path⟩ | ⟨path, _ | loc⟩ | _)
    · exact .refl _ _ s.disk
    · exact .refl _ _ s.disk
    · exact .refl _ _ s.disk
    · exact Disk.edited_single (e := .write loc content) ⟨rfl, rfl⟩ _ s.disk
    · exact .refl _ _ s.disk
  | stop i completed =>
    rw [step, scope]
    rcases s.transfers[i]? with _ | (⟨_, path⟩ | ⟨path, file⟩ | _)
    · exact .refl _ _ s.disk
    · exact .refl _ _ s.disk
    · cases completed with
      | true => exact .refl _ _ s.disk
      | false => exact cleanup_edited hs.free rfl _
    · exact .refl _ _ s.disk

/-- **The paths of the sessions** are those from before, and one that was accepted. -/
theorem paths_step {P : Path → Prop} (hs : ∀ t ∈ s.transfers, ∀ path ∈ t.path, P path)
    (hnew : ∀ path, fs.validateResolvedPath s.disk path = .returns true → P path) (digest : Bytes → Bytes → Bytes)
    (e : StoreEvent) : ∀ t ∈ (step digest fs s e).transfers, ∀ path ∈ t.path, P path := by
  have hfollow : ∀ f, ∀ t ∈ s.transfers.map (Transfer.follow f), ∀ path ∈ t.path, P path := by
    intro f t ht path hpath
    obtain ⟨t', ht', rfl⟩ := List.mem_map.1 ht
    rw [Transfer.follow_path] at hpath
    exact hs t' ht' path hpath
  have hset : ∀ i t', (∀ path ∈ t'.path, P path) → ∀ t ∈ s.transfers.set i t', ∀ path ∈ t.path, P path := by
    intro i t' ht' t ht
    rcases List.mem_or_eq_of_mem_set ht with hold | rfl
    · exact hs t hold
    · exact ht'
  have happend : ∀ upload path, P path → ∀ t ∈ s.transfers ++ [.created upload path], ∀ path ∈ t.path, P path := by
    intro upload path hpath t ht
    rcases List.mem_append.1 ht with hold | hlast
    · exact hs t hold
    · rw [List.mem_singleton.1 hlast]
      intro path' hpath'
      obtain rfl := Option.some.inj hpath'
      exact hpath
  have hended : ∀ path ∈ Transfer.ended.path, P path := fun path hpath => absurd hpath (by simp [Transfer.path])
  cases e with
  | request faults r => exact hfollow _
  | createDownload parameters =>
    rw [step]
    rcases hc : fs.createDownload s.disk parameters with (_ | ⟨path, config⟩) | _
    · exact hs
    · exact happend false path (hnew path (validated_of_createDownload hc))
    · exact hs
  | createUpload parameters available =>
    rw [step]
    rcases hc : fs.createUpload s.disk parameters available with (_ | ⟨path, config⟩) | _
    · exact hs
    · exact happend true path (hnew path (validated_of_createUpload hc))
    · exact hs
  | start i faults =>
    rw [step]
    rcases ht : s.transfers[i]? with _ | (⟨_ | _, path⟩ | ⟨path, file⟩ | _)
    · exact hs
    · exact hset i _ hended
    · have hpath : ∀ path' ∈ (Transfer.created true path).path, P path' := hs _ (List.mem_of_getElem? ht)
      simp only
      rcases openUpload { s.disk with faults := faults } path with ⟨d', (_ | _) | _⟩
      · exact hset i _ hended
      · exact hset i _ hpath
      · exact hset i _ hended
    · exact hs
    · exact hs
  | flush i content =>
    rw [step]
    rcases s.transfers[i]? with _ | (⟨_, path⟩ | ⟨path, _ | loc⟩ | _) <;> exact hs
  | stop i completed =>
    rw [step]
    rcases s.transfers[i]? with _ | (⟨_, path⟩ | ⟨path, file⟩ | _)
    · exact hs
    · exact hs
    · intro t ht path' hpath'
      obtain ⟨t', ht', rfl⟩ := List.mem_map.1 ht
      rw [Transfer.follow_path] at hpath'
      exact hset i _ hended t' ht' path' hpath'
    · exact hs

theorem step_cwd (hs : s.Sound) (digest : Bytes → Bytes → Bytes) (fs : Filesystem) (e : StoreEvent) :
    (step digest fs s e).disk.cwd = s.disk.cwd :=
  (step_edited hs digest fs e).cwd.trans (under_eq s e).2.1

theorem step_tree (hs : s.Sound) (digest : Bytes → Bytes → Bytes) (fs : Filesystem) (e : StoreEvent) :
    FileTree.Edited (s.scope fs e) s.disk.tree (step digest fs s e).disk.tree := by
  rw [← (under_eq s e).1]
  exact (step_edited hs digest fs e).tree

theorem Sound.step (hs : s.Sound) (digest : Bytes → Bytes → Bytes) (fs : Filesystem) (e : StoreEvent) :
    (step digest fs s e).Sound where
  free := (step_tree hs digest fs e).noLinks hs.free
  noUp := paths_step hs.noUp (fun _ => noUp_of_validated) digest e

end Store

end Filesystem

end Iotmp
