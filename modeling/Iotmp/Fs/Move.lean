/-
Moving files and directories (`handle_move`).

- `Disk.rename`: `rename` on Linux. The directories of both paths are looked up first; the last components are not
  followed; a directory replaces an empty directory only, and never goes below itself. `refused` is an error of the system
  that does not depend on the tree: permissions, mount points.
- `handleMove`: the handler. The destination is in the payload.
- `rename_error`, `rename_moves`: a rename that fails changes nothing; one that succeeds puts what was at the one entry
  at the other, and changes nothing elsewhere.
- `handleMove_error`: a move that is not reported as done changes nothing.
-/
import Mathlib.Tactic
import Iotmp.Lib.FileTreeChanges
import Iotmp.Fs.Deletion

namespace Iotmp

open FileTree (Outcome Step Node)

/-- the errors of a rename: one of them no other operation has -/
inductive RenameError where
  | errno (e : Errno)
  | EISDIR
deriving DecidableEq, Repr

def RenameError.message : RenameError → String
  | .errno e => e.message
  | .EISDIR => "Is a directory"

namespace Disk

variable {d d' : Disk} {p q : Path}

/-! ## Renaming -/

/-- the path ends with a name, a final separator aside -/
def isNamed (p : Path) : Bool :=
  match (Path.cString p.elements p.trailing).1.getLast? with
  | some (.into _) => true
  | _ => false

/-- why the entry at `src` cannot become the one at `dst`; `slash`: a path of the two ends with a separator -/
def renameCheck (d : Disk) (src dst : Location) (slash : Bool) : Option RenameError :=
  if !d.tree.isDirectory src && slash then some (.errno .ENOTDIR)
  else if src = dst then none
  else if src <+: dst then some (.errno .EINVAL)
  else if dst <+: src then some (.errno .ENOTEMPTY)
  else if d.tree.isDirectory src && (d.tree.node dst).isSome && !d.tree.isDirectory dst then some (.errno .ENOTDIR)
  else if !d.tree.isDirectory src && d.tree.isDirectory dst then some .EISDIR
  else if d.tree.hasChildren dst then some (.errno .ENOTEMPTY)
  else none

def renameEntry (d : Disk) (src dst : Location) (slash : Bool) (refused : Option Errno) : Option RenameError × Disk :=
  match d.renameCheck src dst slash, refused with
  | some e, _ => (some e, d)
  | none, some e => if src = dst then (none, d) else (some (.errno e), d)
  | none, none => if src = dst then (none, d) else (none, { d with tree := d.tree.rename src dst }.touch dst)

/-- why the directory of the last component of a path is not reached -/
def parentsError (d : Disk) (p : Path) : Option Errno :=
  let steps := (Path.cString p.elements p.trailing).1
  if !p.root && steps.isEmpty then some .ENOENT
  else
    match (d.tree.walk maxLinks (d.start p) steps.dropLast).1 with
    | .found dir => if d.tree.isDirectory dir then none else some .ENOTDIR
    | .loop => some .ELOOP
    | _ =>
      if d.tree.isDirectory (d.tree.walkEnd maxLinks (d.start p) steps.dropLast) then some .ENOENT else some .ENOTDIR

def rename (d : Disk) (p q : Path) (refused : Option Errno) : Option RenameError × Disk :=
  match d.parentsError p, d.parentsError q with
  | some e, _ => (some (.errno e), d)
  | none, some e => (some (.errno e), d)
  | none, none =>
    if !isNamed p || !isNamed q then (some (.errno .EBUSY), d)
    else
      let slash := (Path.cString p.elements p.trailing).2 || (Path.cString q.elements q.trailing).2
      match d.entry p, d.entry q with
      | .found src, .found dst => d.renameEntry src dst slash refused
      | .found src, .missing dir name => d.renameEntry src (dir ++ [name]) slash refused
      -- both directories are there: only the source can be missing
      | _, _ => (some (.errno .ENOENT), d)

/-- where the entry of a path is, or would be -/
def EntryAt (d : Disk) (p : Path) (loc : Location) : Prop :=
  d.entry p = .found loc ∨ ∃ dir name, d.entry p = .missing dir name ∧ loc = dir ++ [name]

/-- the entry of a path with a name lies in a directory -/
theorem EntryAt.isDirectory {loc : Location} (h : d.EntryAt p loc) (hnamed : isNamed p = true) :
    d.tree.isDirectory loc.dropLast = true := by
  rcases h with h | ⟨dir, name, h, rfl⟩
  · rw [isNamed] at hnamed
    rw [entry] at h
    rcases hlast : (Path.cString p.elements p.trailing).1.getLast? with _ | _ | _ | a
    · simp [hlast] at hnamed
    · simp [hlast] at hnamed
    · simp [hlast] at hnamed
    · simp only [hlast] at h
      rcases hw : (d.tree.walk maxLinks (d.start p) (Path.cString p.elements p.trailing).1.dropLast).1 with
        dir | ⟨_, _⟩ | _ | _
      all_goals rw [hw] at h
      · simp only at h
        split_ifs at h with hdir hnode
        obtain rfl := Outcome.found.inj h
        simpa using hdir
      · exact absurd h (by simp)
      · exact absurd h (by simp)
      · exact absurd h (by simp)
  · obtain ⟨-, -, -, hdir, -⟩ := entry_missing h
    rw [List.dropLast_concat]
    exact hdir

theorem renameCheck_none {src dst : Location} {slash : Bool} (h : d.renameCheck src dst slash = none)
    (hne : src ≠ dst) : ¬ src <+: dst ∧ ¬ dst <+: src := by
  rw [renameCheck] at h
  rw [if_neg hne] at h
  split_ifs at h with hslash hbelow habove
  exact ⟨hbelow, habove⟩

theorem renameEntry_error {src dst : Location} {slash : Bool} {refused : Option Errno} {e : RenameError}
    (h : d.renameEntry src dst slash refused = (some e, d')) : d' = d := by
  unfold renameEntry at h
  rcases hcheck : d.renameCheck src dst slash with _ | e'
  · by_cases hsame : src = dst
    · rcases refused with _ | e'
      · simp [hcheck, if_pos hsame] at h
      · simp [hcheck, if_pos hsame] at h
    · rcases refused with _ | e'
      · simp [hcheck, hsame] at h
      · simp only [hcheck, hsame, if_false] at h
        exact (congrArg Prod.snd h).symm
  · simp only [hcheck] at h
    exact (congrArg Prod.snd h).symm

theorem renameEntry_done {src dst : Location} {slash : Bool} {refused : Option Errno}
    (h : d.renameEntry src dst slash refused = (none, d')) :
    src = dst ∧ d' = d ∨
      ¬ src <+: dst ∧ ¬ dst <+: src ∧ d' = { d with tree := d.tree.rename src dst }.touch dst := by
  unfold renameEntry at h
  rcases hcheck : d.renameCheck src dst slash with _ | e
  · by_cases hsame : src = dst
    · refine .inl ⟨hsame, ?_⟩
      rcases refused with _ | e
      · simp only [hcheck, if_pos hsame] at h
        exact (congrArg Prod.snd h).symm
      · simp only [hcheck, if_pos hsame] at h
        exact (congrArg Prod.snd h).symm
    · obtain ⟨hbelow, habove⟩ := renameCheck_none hcheck hsame
      rcases refused with _ | e
      · refine .inr ⟨hbelow, habove, ?_⟩
        simp only [hcheck, if_neg hsame] at h
        exact (congrArg Prod.snd h).symm
      · simp [hcheck, hsame] at h
  · simp [hcheck] at h

/-- **A rename that fails** changes nothing. -/
theorem rename_error {refused : Option Errno} {e : RenameError} (h : d.rename p q refused = (some e, d')) : d' = d := by
  rw [rename] at h
  split at h
  · exact (congrArg Prod.snd h).symm
  · exact (congrArg Prod.snd h).symm
  · split_ifs at h
    · exact (congrArg Prod.snd h).symm
    · simp only at h
      split at h
      · exact renameEntry_error h
      · exact renameEntry_error h
      · exact (congrArg Prod.snd h).symm

/-- what a rename that succeeds does -/
theorem rename_entries {refused : Option Errno} (h : d.rename p q refused = (none, d')) :
    isNamed q = true ∧ ∃ src dst, d.entry p = .found src ∧ d.EntryAt q dst ∧
      (src = dst ∧ d' = d ∨
        ¬ src <+: dst ∧ ¬ dst <+: src ∧ d' = { d with tree := d.tree.rename src dst }.touch dst) := by
  rw [rename] at h
  split at h
  · exact absurd (congrArg Prod.fst h) (by simp)
  · exact absurd (congrArg Prod.fst h) (by simp)
  · split_ifs at h with hnamed
    · exact absurd (congrArg Prod.fst h) (by simp)
    · have hq : isNamed q = true := by
        simp only [Bool.or_eq_true, not_or] at hnamed
        simpa using hnamed.2
      refine ⟨hq, ?_⟩
      simp only at h
      split at h
      · rename_i src dst hsrc hdst
        exact ⟨src, dst, hsrc, .inl hdst, renameEntry_done h⟩
      · rename_i src dir name hsrc hdst
        exact ⟨src, dir ++ [name], hsrc, .inr ⟨dir, name, hdst, rfl⟩, renameEntry_done h⟩
      · exact absurd (congrArg Prod.fst h) (by simp)

/-- **A rename that succeeds** moves what was at the first entry to the second. -/
theorem rename_moves {refused : Option Errno} (h : d.rename p q refused = (none, d')) :
    ∃ src dst, d.entry p = .found src ∧ d.EntryAt q dst ∧
      (∀ more, d'.tree.node (dst ++ more) = d.tree.node (src ++ more)) ∧
      ∀ loc, ¬ src <+: loc → ¬ dst <+: loc → d'.tree.node loc = d.tree.node loc := by
  obtain ⟨hnamed, src, dst, hsrc, hdst, hmoved⟩ := rename_entries h
  refine ⟨src, dst, hsrc, hdst, ?_⟩
  rcases hmoved with ⟨rfl, rfl⟩ | ⟨hsd, hds, rfl⟩
  · exact ⟨fun _ => rfl, fun _ _ _ => rfl⟩
  · exact ⟨FileTree.node_rename_below hsd hds (hdst.isDirectory hnamed), fun _ => FileTree.node_rename_aside⟩

end Disk

namespace Filesystem

/-! ## The handler -/

def handleMove (fs : Filesystem) (d : Disk) (input : Input) (refused : Option Errno) : Disk × Call Reply :=
  if input.describe then
    (d, .returns (.fields [("success", .boolean true), ("source", .string []), ("destination", .string [])]))
  else
    fs.withPath d input "source" true fun source =>
      if getText input.data "path" = [] then (d, .returns (.errorCode 400 "Destination path is required"))
      else
        let dest := fs.resolvePath d (getText input.data "path")
        match fs.validateResolvedPath d dest with
        | .throws => (d, .throws)
        | .returns false =>
          (d, .returns (.errorCode 403 "Access denied: destination path outside allowed directory"))
        | .returns true =>
          if d.isFound dest && !getFlag input.getParams "overwrite" false then
            (d, .returns (.errorCode 409 "Destination already exists"))
          else
            match d.rename source dest refused with
            | (some e, d) => (d, .returns (.error e.message))
            | (none, d) =>
              (d, .returns (.fields [("success", .boolean true), ("source", .string (Path.cChars source.string)),
                ("destination", .string (Path.cChars dest.string))]))

/-- **A move that is not reported as done** changes nothing. -/
theorem handleMove_error (fs : Filesystem) (d : Disk) (input : Input) (refused : Option Errno)
    (h : ∀ reply, (fs.handleMove d input refused).2 = .returns reply → reply.success = false) :
    (fs.handleMove d input refused).1 = d := by
  rw [handleMove] at h ⊢
  by_cases hdescribe : input.describe = true
  · rw [if_pos hdescribe]
  · rw [if_neg hdescribe, withPath] at h ⊢
    rcases hr : fs.resolveAndValidatePath d input "source" true with (reply | source) | _
    · rfl
    · simp only [hr] at h ⊢
      by_cases hempty : getText input.data "path" = []
      · rw [if_pos hempty]
      · rw [if_neg hempty] at h ⊢
        rcases hv : fs.validateResolvedPath d (fs.resolvePath d (getText input.data "path")) with (_ | _) | _
        · rfl
        · simp only [hv] at h ⊢
          by_cases hrefused : (d.isFound (fs.resolvePath d (getText input.data "path")) &&
              !getFlag input.getParams "overwrite" false) = true
          · rw [if_pos hrefused]
          · rw [if_neg hrefused] at h ⊢
            rcases hrename : d.rename source (fs.resolvePath d (getText input.data "path")) refused with ⟨_ | e, d'⟩
            · rw [hrename] at h
              exact absurd (h _ rfl) (by simp [Reply.fields])
            · exact Disk.rename_error hrename
        · rfl
    · rfl

end Filesystem

end Iotmp
