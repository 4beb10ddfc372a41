/-
`overwrite`: false for the three operations that store a file (`handle_put`, `handle_move`,
`filesystem_uploads::create_session` with `file_upload_session::start`, under `stream_manager::start`).

The put and the move refuse a destination that exists. The upload never looks at the parameter: the session truncates
the file when it starts. The manager refuses a stream id that has a session before it creates one.

- `StoreRequest`: a request of one of the three. `answer`: what it does to the disk, and whether it is answered with OK
  or with ERROR; an exception leaves it without an answer.
- `KeepsExisting`: its `overwrite` is false; `destination`: where it stores.
- `Protected`: it is answered with an error, and the file is as it was. `Refusable`: when that is so.
- `put_protected_iff`, `move_protected_iff`, `upload_protected_iff`, and together `overwrite_false_iff`.
Witness: `put_protected`. Counterexample: `upload_overwrites`.
-/
import Mathlib.Tactic
import Iotmp.Fs.InlinePut
import Iotmp.Fs.Move

namespace Iotmp

open FileTree (Outcome Step Node)

inductive StoreRequest where
  | put (input : Input)
  /-- `sessions`: the manager's table; `available`: the free space where the directory of the file is -/
  | upload (sessions : UInt16 → Option ℕ) (streamId : UInt16) (parameters : Json) (available : ℕ)
  | move (input : Input) (refused : Option Errno)

namespace Filesystem

/-! ## Requests -/

/-- `stream_manager::start`: an id that has a session is refused; else `create_session`, and the start of its session -/
def startUpload (fs : Filesystem) (d : Disk) (sessions : UInt16 → Option ℕ) (streamId : UInt16) (parameters : Json)
    (available : ℕ) : Disk × Call Bool :=
  match sessions streamId with
  | some _ => (d, .returns false)
  | none =>
    match fs.createUpload d parameters available with
    | .throws => (d, .throws)
    | .returns none => (d, .returns false)
    | .returns (some (path, _)) => openUpload d path

/-- the type of the answer a handler's reply gets -/
def answered (out : Disk × Call Reply) : Disk × Call Bool :=
  match out.2 with
  | .throws => (out.1, .throws)
  | .returns reply => (out.1, .returns reply.success)

def answer (fs : Filesystem) (d : Disk) : StoreRequest → Disk × Call Bool
  | .put input => answered (fs.handlePut d input)
  | .upload sessions streamId parameters available => fs.startUpload d sessions streamId parameters available
  | .move input refused => answered (fs.handleMove d input refused)

/-- the request says that nothing is to be overwritten; for a move this is the default -/
def KeepsExisting : StoreRequest → Prop
  | .put input => input.describe = false ∧ member "overwrite" input.getParams = some (.boolean false)
  | .upload _ _ parameters _ => member "overwrite" parameters = some (.boolean false)
  | .move input _ => input.describe = false ∧ getFlag input.getParams "overwrite" false = false

/-- where the request stores, if it says so -/
def destination (fs : Filesystem) (d : Disk) : StoreRequest → Option Path
  | .put input =>
    match input.requestPath "path" with
    | .throws => none
    | .returns pathStr => some (fs.resolvePath d pathStr)
  | .upload _ _ parameters _ =>
    if getText parameters "path" = [] then none else some (fs.resolvePath d (getText parameters "path"))
  | .move input _ =>
    if getText input.data "path" = [] then none else some (fs.resolvePath d (getText input.data "path"))

/-- an error is answered, and what is at the location is as it was -/
structure Protected (d : Disk) (out : Disk × Call Bool) (loc : Location) : Prop where
  error : out.2 = .returns false
  kept : out.1.tree.node loc = d.tree.node loc

/-- the check of a path comes to an end -/
def Checked (fs : Filesystem) (d : Disk) (path : Path) : Prop :=
  ∃ accepted, fs.validateResolvedPath d path = .returns accepted

/-- what stops a request with a file at its destination: a put and a move whenever the checks of their paths end, an
upload only for another reason than the file, its stream id among them -/
def Refusable (fs : Filesystem) (d : Disk) (path : Path) : StoreRequest → Prop
  | .put _ => fs.Checked d path
  | .upload sessions streamId parameters available =>
    (sessions streamId).isSome ∨ getSize parameters "size" 0 = 0 ∨ fs.validateResolvedPath d path = .returns false ∨
      fs.validateResolvedPath d path = .returns true ∧
        (d.isFound path.parentPath = false ∨ available < getSize parameters "size" 0 ∨
          (∃ mbps, bandwidth parameters = .returns mbps) ∧ d.isDirectory path.parentPath = true ∧
            d.faults.opens = false)
  | .move input _ =>
    ∃ result, fs.resolveAndValidatePath d input "source" true = .returns result ∧
      ∀ source, result = .ok source → fs.Checked d path

variable {fs : Filesystem} {d : Disk} {path : Path} {loc : Location} {content : Bytes}

theorem protected_refused (out : Disk × Call Bool) (h : out = (d, .returns false)) (loc : Location) :
    Protected d out loc := by
  subst h
  exact ⟨rfl, rfl⟩

theorem isFound_of_lookup (hl : d.lookup path = .found loc) : d.isFound path = true := by
  simp [Disk.isFound, Disk.existsAt, hl]

theorem isDirectory_of_file (hl : d.lookup path = .found loc) (hfile : d.tree.node loc = some (.file content)) :
    d.isDirectory path = false := by
  simp [Disk.isDirectory, hl, FileTree.isDirectory, hfile, Node.isDirectory]

/-- the check of a path that leads somewhere ends if the base directory is there -/
theorem checked_of_found (hbase : fs.basePath.isEmpty = true ∨ ∃ base, d.canonical fs.basePath = .returns base)
    (hl : d.lookup path = .found loc) : fs.Checked d path := by
  rw [Checked, validateResolvedPath]
  split_ifs with hdots hset
  · exact ⟨false, rfl⟩
  · rw [isWithinBasePath]
    rcases hbase with hempty | ⟨base, hbase⟩
    · simp [hempty] at hset
    · rw [if_neg (by simpa using hset), hbase, Disk.weaklyCanonical, hl]
      exact ⟨_, rfl⟩
  · exact ⟨true, rfl⟩

/-! ## The put -/

theorem overwriteFlag_false {params : Json} (h : member "overwrite" params = some (.boolean false)) :
    overwriteFlag params = .returns false := by
  cases params with
  | object ms =>
    have hfind : SortedMap.find (text "overwrite") ms = some (.boolean false) := h
    simp [overwriteFlag, subscript, hfind]
  | _ => exact absurd h (by simp [member])

theorem put_protected_iff {input : Input} (hkeeps : KeepsExisting (.put input))
    (hdest : fs.destination d (.put input) = some path) (hl : d.lookup path = .found loc)
    (hfile : d.tree.node loc = some (.file content)) :
    Protected d (fs.answer d (.put input)) loc ↔ fs.Refusable d path (.put input) := by
  obtain ⟨hdescribe, hoverwrite⟩ := hkeeps
  have hflag := overwriteFlag_false hoverwrite
  rw [destination] at hdest
  rcases hpath : input.requestPath "path" with pathStr | _
  · simp only [hpath, Option.some.injEq] at hdest
    rw [answer, Refusable, Checked, handlePut, hdescribe, withPath, resolveAndValidatePath, hpath]
    simp only [Bool.false_eq_true, if_false, hdest]
    rcases hv : fs.validateResolvedPath d path with accepted | _
    · refine iff_of_true ?_ ⟨accepted, rfl⟩
      apply protected_refused
      cases accepted with
      | false => rfl
      | true =>
        -- too long, or the file is there
        simp only [hflag, isFound_of_lookup hl, isDirectory_of_file hl hfile, Bool.true_and, Bool.not_false,
          Bool.false_eq_true, if_false, if_true]
        split_ifs
        · rfl
        · rfl
        · rfl
    · refine iff_of_false (fun h => ?_) (by simp)
      exact absurd h.error (by simp [answered])
  · simp [hpath] at hdest

/-! ## The move -/

theorem move_protected_iff {input : Input} {refused : Option Errno} (hkeeps : KeepsExisting (.move input refused))
    (hdest : fs.destination d (.move input refused) = some path) (hl : d.lookup path = .found loc) :
    Protected d (fs.answer d (.move input refused)) loc ↔ fs.Refusable d path (.move input refused) := by
  obtain ⟨hdescribe, hoverwrite⟩ := hkeeps
  rw [destination] at hdest
  split_ifs at hdest with hempty
  rw [answer, Refusable, handleMove, hdescribe, withPath]
  simp only [Bool.false_eq_true, if_false]
  rcases hr : fs.resolveAndValidatePath d input "source" true with (reply | source) | _
  · refine iff_of_true ?_ ⟨_, rfl, fun source hsource => absurd hsource (by simp)⟩
    exact protected_refused _ (by simp [answered, resolve_error hr]) loc
  · simp only [hempty, if_false, Option.some.inj hdest]
    rcases hv : fs.validateResolvedPath d path with accepted | _
    · refine iff_of_true ?_ ⟨_, rfl, fun _ _ => ⟨accepted, hv⟩⟩
      apply protected_refused
      cases accepted with
      | false => rfl
      | true =>
        simp only [isFound_of_lookup hl, hoverwrite, Bool.not_false, Bool.and_self, if_true]
        rfl
    · refine iff_of_false (fun h => absurd h.error (by simp [answered])) ?_
      rintro ⟨result, hresult, hchecked⟩
      obtain ⟨accepted, haccepted⟩ := hchecked source (Call.returns.inj hresult).symm
      exact absurd (hv.symm.trans haccepted) (by simp)
  · refine iff_of_false (fun h => absurd h.error (by simp [answered])) ?_
    rintro ⟨result, hresult, -⟩
    exact absurd hresult (by simp)

/-! ## The upload -/

/-- the start of a session where a file is: the file is truncated if it opens -/
theorem openUpload_protected_iff (hl : d.lookup path = .found loc) (hfile : d.tree.node loc = some (.file content))
    (hfound : d.isFound path.parentPath = true) :
    Protected d (openUpload d path) loc ↔ d.isDirectory path.parentPath = true ∧ d.faults.opens = false := by
  have hdir : d.tree.isDirectory loc = false := by simp [FileTree.isDirectory, hfile, Node.isDirectory]
  rw [openUpload, Disk.createDirectories]
  rcases hparent : d.lookup path.parentPath with dir | _ | _ | _
  · have hnonempty : path.parentPath.isEmpty = false := by
      rw [Path.isEmpty]
      by_contra hempty
      rw [Disk.lookup] at hparent
      simp only [Bool.not_eq_false, Bool.and_eq_true, List.isEmpty_iff] at hempty
      rw [if_pos (by simp [hempty.1, hempty.2, Path.cString])] at hparent
      exact absurd hparent (by simp)
    rcases hisdir : d.tree.isDirectory dir with _ | _
    · simp only [hnonempty, Disk.isDirectory, hparent, hisdir, Bool.false_eq_true, if_false, false_and, iff_false]
      exact fun h => absurd h.error (by simp)
    · simp only [hnonempty, Disk.isDirectory, hparent, hisdir, Bool.false_eq_true, if_false, if_true, true_and]
      rcases hopens : d.faults.opens with _ | _
      · rw [Disk.openOut, hopens]
        exact iff_of_true (protected_refused _ rfl loc) rfl
      · rw [Disk.openOut, hopens, hl]
        simp only [hdir, Bool.not_true, Bool.false_eq_true, if_false, reduceCtorEq, iff_false]
        exact fun h => absurd h.error (by simp)
  all_goals simp [Disk.isFound, Disk.existsAt, hparent] at hfound

theorem upload_protected_iff {sessions : UInt16 → Option ℕ} {streamId : UInt16} {parameters : Json} {available : ℕ}
    (hdest : fs.destination d (.upload sessions streamId parameters available) = some path)
    (hl : d.lookup path = .found loc) (hfile : d.tree.node loc = some (.file content)) :
    Protected d (fs.answer d (.upload sessions streamId parameters available)) loc ↔
      fs.Refusable d path (.upload sessions streamId parameters available) := by
  rw [destination] at hdest
  split_ifs at hdest with hempty
  rw [answer, startUpload, Refusable]
  rcases hid : sessions streamId with _ | i
  swap
  · -- the manager refuses the id: no session is created
    exact iff_of_true (protected_refused _ rfl loc) (.inl rfl)
  rw [createUpload, if_neg hempty]
  simp only [Option.isSome_none, Bool.false_eq_true, false_or]
  by_cases hsize : getSize parameters "size" 0 = 0
  · rw [if_pos hsize]
    exact iff_of_true (protected_refused _ rfl loc) (.inl hsize)
  · rw [if_neg hsize]
    simp only [Option.some.inj hdest, hsize, false_or]
    rcases hv : fs.validateResolvedPath d path with (_ | _) | _
    · exact iff_of_true (protected_refused _ rfl loc) (.inl rfl)
    · simp only [Call.returns.injEq, Bool.true_eq_false, false_or, true_and]
      rcases hfound : d.isFound path.parentPath with _ | _
      · exact iff_of_true (protected_refused _ rfl loc) (.inl rfl)
      · simp only [Bool.not_true, Bool.false_eq_true, if_false, Bool.true_eq_false, false_or]
        by_cases hspace : available < getSize parameters "size" 0
        · rw [if_pos hspace]
          exact iff_of_true (protected_refused _ rfl loc) (.inl hspace)
        · simp only [hspace, if_false, false_or]
          rcases hb : bandwidth parameters with mbps | _
          · simp only [Call.returns.injEq, exists_eq', true_and]
            exact openUpload_protected_iff hl hfile hfound
          · refine iff_of_false (fun h => absurd h.error (by simp)) ?_
            rintro ⟨⟨mbps, hmbps⟩, -⟩
            exact absurd hmbps (by simp)
    · exact iff_of_false (fun h => absurd h.error (by simp)) (by simp)

/-- **What `overwrite`: false protects**: a request with a file at its destination gets an error and leaves the file as
it was if and only if it is a put or a move whose paths can be checked, or an upload that is refused for another reason
than the file. -/
theorem overwrite_false_iff (fs : Filesystem) (d : Disk) (request : StoreRequest) {path : Path} {loc : Location}
    {content : Bytes} (hkeeps : KeepsExisting request) (hdest : fs.destination d request = some path)
    (hl : d.lookup path = .found loc) (hfile : d.tree.node loc = some (.file content)) :
    Protected d (fs.answer d request) loc ↔ fs.Refusable d path request := by
  cases request with
  | put input => exact put_protected_iff hkeeps hdest hl hfile
  | upload sessions streamId parameters available => exact upload_protected_iff hdest hl hfile
  | move input refused => exact move_protected_iff hkeeps hdest hl

/-- a put with an existing base directory is refused whatever else it says -/
theorem put_refusable {input : Input}
    (hbase : fs.basePath.isEmpty = true ∨ ∃ base, d.canonical fs.basePath = .returns base)
    (hl : d.lookup path = .found loc) : fs.Refusable d path (.put input) :=
  checked_of_found hbase hl

/-! ## A file that is there -/

def keepExisting (path : String) : Json :=
  .object [(text "overwrite", .boolean false), (text "path", .string (text path)), (text "size", .numberUnsigned 1)]

theorem f_isName :
    text "f" ≠ [] ∧ preferredSeparator ∉ text "f" ∧ 0 ∉ text "f" ∧ text "f" ≠ dot.1 ∧ text "f" ≠ dotDot.1 := by decide

/-- where `/data/f` is, which has one byte -/
def dataFile : Location := [fileName "data" data_isName, fileName "f" f_isName]

theorem dataFile_found : dataWithFile.lookup (Path.ofBytes (text "/data/f")) = .found dataFile := by decide

theorem dataFile_content : dataWithFile.tree.node dataFile = some (.file [1]) := by decide

def keepingPut : StoreRequest := .put { putRequest "f" with params := some (keepExisting "f") }

def keepingUpload : StoreRequest := .upload (fun _ => none) 5 (keepExisting "f") 100

theorem put_protected : Protected dataWithFile (dataFolder.answer dataWithFile keepingPut) dataFile := by
  have hdest : dataFolder.destination dataWithFile keepingPut = some (Path.ofBytes (text "/data/f")) := by decide
  have hbase : dataWithFile.canonical dataFolder.basePath = .returns [fileName "data" data_isName] := by decide
  exact (overwrite_false_iff dataFolder dataWithFile keepingPut ⟨rfl, rfl⟩ hdest dataFile_found dataFile_content).2
    (put_refusable (.inr ⟨_, hbase⟩) dataFile_found)

/-- **An upload with `overwrite`: false** is answered with OK, and the file is empty. -/
theorem upload_overwrites :
    KeepsExisting keepingUpload ∧
      dataFolder.destination dataWithFile keepingUpload = some (Path.ofBytes (text "/data/f")) ∧
      dataWithFile.Holds (Path.ofBytes (text "/data/f")) [1] ∧
      (dataFolder.answer dataWithFile keepingUpload).2 = .returns true ∧
      (dataFolder.answer dataWithFile keepingUpload).1.tree.node dataFile = some (.file []) := by
  refine ⟨rfl, by decide, ⟨dataFile, dataFile_found, dataFile_content⟩, by decide, by decide⟩

end Filesystem

end Iotmp
