/-
The deletion of files and directories (`handle_delete`), and when it leaves everything as it is.

- `refused_iff`: a delete request reports an error and removes nothing if and only if its path is not accepted or not
  there, is the base path or its parent path as stored, or cannot be removed.
- `isBaseOrParent_of_elements`: what the guard sees of a path with the elements of the base path: a base path that ends
  with a separator is refused under both spellings, another one only without a final separator.
- `not_accepted_of_ancestor`: no path that leads above the base directory is accepted.

Witnesses:
- `dot_deletes_base`: `.` resolves to the base path with a final separator; a recursive request deletes the base
  directory.
-/
import Mathlib.Tactic
import Iotmp.Fs.Confinement

namespace Iotmp

open FileTree (Outcome Step Node)

namespace Filesystem

variable {fs : Filesystem} {d : Disk}

/-- a request is refused: it gets an error, and nothing is removed -/
structure Refused (d : Disk) (out : Disk × Call Reply) : Prop where
  error : ∃ reply, out.2 = .returns reply ∧ reply.success = false
  kept : FileTree.Extends d.tree out.1.tree

/-! ## Removals that fail -/

/-- `rmdir` does not take a directory under a path that does not end with its name -/
def nameless (d : Disk) (p : Path) (loc : Location) : Prop :=
  match (Path.cString p.elements p.trailing).1.getLast? with
  | some (.into _) => d.entry p ≠ .found loc
  | _ => True

/-- nothing can be removed at a path: there is a directory, not empty or without a name of its own -/
def removalRefused (d : Disk) (p : Path) (recursive : Bool) : Prop :=
  match d.linkEntry p with
  | .found loc =>
    d.tree.isDirectory loc = true ∧
      if d.tree.hasChildren loc then recursive = false else nameless d p loc
  | .loop => True
  | _ => False

theorem rmdir_error_iff (d : Disk) (p : Path) (loc : Location) :
    ((d.rmdir p loc).1 = none ↔ ¬ nameless d p loc ∧ d.tree.hasChildren loc = false) ∧
      ((d.rmdir p loc).1 ≠ none → (d.rmdir p loc).2 = d) := by
  rw [Disk.rmdir, nameless]
  rcases (Path.cString p.elements p.trailing).1.getLast? with _ | _ | _ | a
  · simp
  · simp
  · simp
  · simp only
    split_ifs with hname hchildren
    · simp [hname]
    · simp [hname, hchildren]
    · simp [hname, hchildren]

/-- what is removed is not there any more -/
theorem remove_directory {p : Path} {loc : Location} (hl : d.linkEntry p = .found loc)
    (hd : d.tree.isDirectory loc = true) :
    ((d.remove p).1 = none ↔ ¬ nameless d p loc ∧ d.tree.hasChildren loc = false) ∧
      ((d.remove p).1 ≠ none → (d.remove p).2 = d) := by
  rw [Disk.remove, hl]
  simp only [hd, if_true]
  exact rmdir_error_iff d p loc

/-- a directory under the name of a path is what the path leads to -/
theorem isDirectory_of_linkEntry {p : Path} {loc : Location} (hl : d.linkEntry p = .found loc)
    (hd : d.tree.isDirectory loc = true) : d.isDirectory p = true := by
  have hfound : d.lookup p = .found loc → d.isDirectory p = true := by
    intro h
    rw [Disk.isDirectory, h]
    exact hd
  rw [Disk.linkEntry] at hl
  split_ifs at hl with hslash
  · exact hfound hl
  · apply hfound
    rcases hlast : (Path.cString p.elements p.trailing).1.getLast? with _ | s
    · simpa [Disk.entry, hlast] using hl
    · cases s with
      | here => simpa [Disk.entry, hlast] using hl
      | up => simpa [Disk.entry, hlast] using hl
      | into a =>
        rw [Disk.entry] at hl
        simp only [hlast] at hl
        have hsplit := List.dropLast_append_getLast? (Step.into a) hlast
        rcases hw : d.tree.walk Disk.maxLinks (d.start p) (Path.cString p.elements p.trailing).1.dropLast with
          ⟨dir | _ | _ | _, k⟩ <;> rw [hw] at hl
        · simp only at hl
          split_ifs at hl
          obtain rfl : dir ++ [a] = loc := by simpa using hl
          have hne : (Path.cString p.elements p.trailing).1 ≠ [] := by
            intro hnil
            rw [hnil] at hlast
            exact absurd hlast (by simp)
          rw [Disk.lookup_eq_walk (.inr hne), Path.steps, if_neg hslash, ← hsplit, FileTree.walk_of_found hw,
            FileTree.walk_into_solid (FileTree.solid_of_isDirectory hd)]
        all_goals exact absurd hl (by simp)

/-- an error leaves the disk as it is -/
theorem remove_error (d : Disk) (p : Path) (h : (d.remove p).1 ≠ none) : (d.remove p).2 = d := by
  rcases hl : d.linkEntry p with loc | _ | _ | _
  · rcases hd : d.tree.isDirectory loc with _ | _
    · rw [Disk.remove, hl] at h
      simp [hd] at h
    · exact (remove_directory hl hd).2 h
  · rw [Disk.remove, hl]
  · rw [Disk.remove, hl]
  · rw [Disk.remove, hl]

theorem remove_refused {d : Disk} {p : Path} (h : (d.remove p).1 ≠ none) :
    (d.remove p).1 ≠ none ∧ FileTree.Extends d.tree (d.remove p).2.tree := by
  rw [remove_error d p h]
  exact ⟨h, FileTree.extends_refl d.tree⟩

/-- a directory that is not to be emptied stays because of its name or of what is in it -/
theorem deletePath_plain_iff {d : Disk} {p : Path} {loc : Location} (hl : d.linkEntry p = .found loc)
    (hd : d.tree.isDirectory loc = true) :
    ((deletePath d p false).1 ≠ none ∧ FileTree.Extends d.tree (deletePath d p false).2.tree) ↔
      (d.tree.hasChildren loc = true ∨ nameless d p loc) := by
  have hiff := (remove_directory hl hd).1
  have hdone : deletePath d p false = d.remove p := by simp [deletePath]
  rw [hdone]
  constructor
  · rintro ⟨herror, -⟩
    rcases hc : d.tree.hasChildren loc with _ | _
    · refine .inr ?_
      by_contra hname
      exact herror (hiff.2 ⟨hname, hc⟩)
    · exact .inl rfl
  · intro hstays
    apply remove_refused
    intro hnone
    obtain ⟨hname, hc⟩ := hiff.1 hnone
    rcases hstays with hchildren | hnameless
    · exact absurd (hc.symm.trans hchildren) (by simp)
    · exact hname hnameless

/-- an emptied directory stays because of its name; if it had something in it, that is gone then -/
theorem deletePath_recursive_iff {d : Disk} {p : Path} {loc : Location} (hl : d.linkEntry p = .found loc)
    (hd : d.tree.isDirectory loc = true) :
    ((deletePath d p true).1 ≠ none ∧ FileTree.Extends d.tree (deletePath d p true).2.tree) ↔
      (d.tree.hasChildren loc = false ∧ nameless d p loc) := by
  have hiff := (remove_directory hl hd).1
  have hdone : deletePath d p true = { d with tree := d.tree.clear loc }.remove p := by
    rw [deletePath, isDirectory_of_linkEntry hl hd, Disk.removeAll, hl]
    simp [hd]
  rw [hdone]
  rcases hc : d.tree.hasChildren loc with _ | _
  · rw [FileTree.clear_of_no_children hc]
    change ((d.remove p).1 ≠ none ∧ FileTree.Extends d.tree (d.remove p).2.tree) ↔ _
    simp only [true_and]
    constructor
    · rintro ⟨herror, -⟩
      by_contra hname
      exact herror (hiff.2 ⟨hname, hc⟩)
    · intro hname
      apply remove_refused
      intro hnone
      exact (hiff.1 hnone).1 hname
  · simp only [Bool.true_eq_false, false_and, iff_false, not_and]
    intro herror hkept
    rw [remove_error _ p herror] at hkept
    obtain ⟨a, ha⟩ := FileTree.exists_child hc
    obtain ⟨n, hn⟩ := Option.ne_none_iff_exists'.1 ha
    have hgone := hkept _ n hn
    change (d.tree.clear loc).node (loc ++ [a]) = some n at hgone
    rw [FileTree.node_clear_below (by simp)] at hgone
    exact absurd hgone (by simp)

/-- **When a deletion fails and removes nothing.** -/
theorem deletePath_refused_iff (d : Disk) (p : Path) (recursive : Bool) :
    ((deletePath d p recursive).1 ≠ none ∧ FileTree.Extends d.tree (deletePath d p recursive).2.tree) ↔
      removalRefused d p recursive := by
  rw [removalRefused]
  rcases hl : d.linkEntry p with loc | _ | _ | _
  · rcases hd : d.tree.isDirectory loc with _ | _
    · -- a file or a link is removed
      have hdone : deletePath d p recursive = d.remove p := by
        rw [deletePath, Disk.removeAll, hl]
        simp [hd]
      have hnone : (d.remove p).1 = none := by
        rw [Disk.remove, hl]
        simp [hd]
      rw [hdone]
      simp [hnone, hd]
    · cases recursive with
      | false =>
        rw [deletePath_plain_iff hl hd]
        rcases hc : d.tree.hasChildren loc with _ | _
        · simp [hd, hc]
        · simp [hd, hc]
      | true =>
        rw [deletePath_recursive_iff hl hd]
        rcases hc : d.tree.hasChildren loc with _ | _
        · simp [hd, hc]
        · simp [hd, hc]
  · have hdone : deletePath d p recursive = (none, d) := by
      rw [deletePath, Disk.removeAll, hl, Disk.remove, hl]
      simp
    simp [hdone]
  · have hdone : deletePath d p recursive = (none, d) := by
      rw [deletePath, Disk.removeAll, hl, Disk.remove, hl]
      simp
    simp [hdone]
  · have hdone : deletePath d p recursive = (some .ELOOP, d) := by
      rw [deletePath, Disk.removeAll, hl, Disk.remove, hl]
      simp
    simp [hdone, FileTree.extends_refl]

/-! ## The request -/

/-- the errors of a path that is not accepted or not there -/
theorem resolve_error {input : Input} {key : String} {checkExists : Bool} {reply : Reply}
    (h : fs.resolveAndValidatePath d input key checkExists = .returns (.error reply)) : reply.success = false := by
  rw [resolveAndValidatePath] at h
  rcases hp : input.requestPath key with pathStr | _ <;> rw [hp] at h
  · simp only at h
    rcases hv : fs.validateResolvedPath d (fs.resolvePath d pathStr) with (_ | _) | _ <;> rw [hv] at h
    · obtain rfl : _ = reply := by simpa using h
      rfl
    · simp only at h
      split_ifs at h
      · rcases hx : d.existsAt (fs.resolvePath d pathStr) with (_ | _) | _ <;> rw [hx] at h
        · obtain rfl : _ = reply := by simpa using h
          rfl
        · exact absurd h (by simp)
        · exact absurd h (by simp)
      · exact absurd h (by simp)
    · exact absurd h (by simp)
  · exact absurd h (by simp)

/-- **Refused deletions.** A delete request gets an error and removes nothing if and only if its path is refused or not
there, or is the base path or its parent path as they are stored, or names what cannot be removed. -/
theorem refused_iff (fs : Filesystem) (d : Disk) (input : Input) (hdescribe : input.describe = false) :
    Refused d (fs.handleDelete d input) ↔
      (∃ reply, fs.resolveAndValidatePath d input "path" true = .returns (.error reply)) ∨
        ∃ path, fs.resolveAndValidatePath d input "path" true = .returns (.ok path) ∧
          (path = fs.basePath ∨ path = fs.basePath.parentPath ∨
            removalRefused d path (getFlag input.getParams "recursive" false)) := by
  rw [handleDelete, hdescribe]
  simp only [Bool.false_eq_true, if_false, withPath]
  rcases hr : fs.resolveAndValidatePath d input "path" true with (reply | path) | _
  · simp only [Call.returns.injEq, Except.error.injEq, exists_eq', true_or, iff_true]
    exact ⟨⟨reply, rfl, resolve_error hr⟩, FileTree.extends_refl d.tree⟩
  · simp only [Call.returns.injEq, reduceCtorEq, exists_false, false_or, Except.ok.injEq, exists_eq_left']
    by_cases hguard : fs.isBaseOrParent path = true
    · rw [if_pos hguard]
      rw [isBaseOrParent, Bool.or_eq_true, decide_eq_true_eq, decide_eq_true_eq] at hguard
      constructor
      · intro _
        rcases hguard with hbase | hparent
        · exact .inl hbase
        · exact .inr (.inl hparent)
      · intro _
        exact ⟨⟨_, rfl, rfl⟩, FileTree.extends_refl d.tree⟩
    · rw [if_neg hguard]
      rw [isBaseOrParent, Bool.or_eq_true, decide_eq_true_eq, decide_eq_true_eq, not_or] at hguard
      have hiff := deletePath_refused_iff d path (getFlag input.getParams "recursive" false)
      simp only [hguard.1, hguard.2, false_or]
      rw [← hiff]
      rcases hdel : deletePath d path (getFlag input.getParams "recursive" false) with ⟨_ | e, d'⟩
      · simp only [ne_eq, not_true_eq_false, false_and, iff_false]
        rintro ⟨⟨reply, hreply, hfail⟩, -⟩
        obtain rfl := Call.returns.inj hreply
        exact absurd hfail (by simp [Reply.fields])
      · constructor
        · intro h
          exact ⟨by simp, h.kept⟩
        · rintro ⟨-, hkept⟩
          exact ⟨⟨_, rfl, rfl⟩, hkept⟩
  · simp only [reduceCtorEq, exists_false, false_and, or_self, iff_false]
    rintro ⟨⟨reply, hreply, -⟩, -⟩
    exact absurd hreply (by simp)

theorem data_isName :
    text "data" ≠ [] ∧ preferredSeparator ∉ text "data" ∧ 0 ∉ text "data" ∧ text "data" ≠ dot.1 ∧
      text "data" ≠ dotDot.1 := by decide

/-- `/data` with a file in it -/
def dataWithFile : Disk where
  tree :=
    { entries := [([fileName "data" data_isName, fileName "f" (by decide)], .file [1]),
        ([fileName "data" data_isName], .directory)]
      closed := by decide }

/-- a delete request for a path -/
def deleteRequest (path : String) (recursive : Bool) : Input where
  streamId := 0
  data := .null
  params := some (.object [(text "recursive", .boolean recursive)])
  path := some (.object [(text "path", .string (text path))])

/-- a request for the base directory as it is stored is refused -/
theorem stored_base_refused :
    Refused dataWithFile (dataFolder.handleDelete dataWithFile (deleteRequest "../data" true)) := by
  apply (refused_iff dataFolder dataWithFile (deleteRequest "../data" true) rfl).2
  exact .inr ⟨dataFolder.basePath, rfl, .inl rfl⟩

/-- **`.` stands for the base directory and slips through the guard: a recursive request deletes it.** -/
theorem dot_deletes_base :
    dataWithFile.canonical dataFolder.basePath = .returns [fileName "data" (by decide)] ∧
      dataFolder.resolvePath dataWithFile (text ".") = .make true dataFolder.basePath.elements true ∧
      ¬ Refused dataWithFile (dataFolder.handleDelete dataWithFile (deleteRequest "." true)) ∧
      (dataFolder.handleDelete dataWithFile (deleteRequest "." true)).1.tree.node [fileName "data" (by decide)] =
        none := by
  have hgone : (dataFolder.handleDelete dataWithFile (deleteRequest "." true)).1.tree.node
      [fileName "data" (by decide)] = none := by decide
  refine ⟨by decide, by decide, ?_, hgone⟩
  intro hrefused
  have hkept := hrefused.kept [fileName "data" (by decide)] .directory (by decide)
  rw [hgone] at hkept
  exact absurd hkept (by simp)

/-! ## The guard and the base directory -/

/-- **What the guard sees of another spelling.** A base path with a final separator is refused with and without it; one
without is refused only without. -/
theorem isBaseOrParent_of_elements {path : Path} (hr : path.root = fs.basePath.root)
    (he : path.elements = fs.basePath.elements) :
    fs.isBaseOrParent path = (fs.basePath.trailing || !path.trailing) := by
  have heq : ∀ p q : Path, p.root = q.root → p.elements = q.elements → (p = q ↔ p.trailing = q.trailing) := by
    rintro ⟨r, es, t, ht⟩ ⟨r', es', t', ht'⟩ rfl rfl
    simp
  have hbase := heq path fs.basePath hr he
  have hparent : path = fs.basePath.parentPath → path.trailing = false := by
    intro h
    rw [h]
    rfl
  have hstrip : fs.basePath.trailing = true → path.trailing = false → path = fs.basePath.parentPath := by
    intro htrailing hplain
    apply (heq path fs.basePath.parentPath hr _).2 hplain
    rw [he, Path.parentPath, htrailing]
    rfl
  rw [isBaseOrParent, Bool.eq_iff_iff]
  simp only [Bool.or_eq_true, decide_eq_true_eq, Bool.not_eq_true']
  constructor
  · rintro (h | h)
    · have hsame := hbase.1 h
      cases ht : path.trailing
      · exact .inr rfl
      · left
        rw [← hsame, ht]
    · exact .inr (hparent h)
  · rintro (h | h)
    · cases ht : path.trailing
      · exact .inr (hstrip h ht)
      · exact .inl (hbase.2 (ht.trans h.symm))
    · cases hb : fs.basePath.trailing
      · exact .inl (hbase.2 (h.trans hb.symm))
      · exact .inr (hstrip hb h)

/-- **No path that leads above the base directory is accepted.** -/
theorem not_accepted_of_ancestor {b loc : Location} {pathStr : Bytes} (hne : fs.basePath.isEmpty = false)
    (hb : d.canonical fs.basePath = .returns b) (hl : d.lookup (fs.resolvePath d pathStr) = .found loc)
    (habove : loc <+: b) (hother : loc ≠ b) :
    fs.validateResolvedPath d (fs.resolvePath d pathStr) ≠ .returns true := by
  intro hv
  have hin := (accepted hne hb hv).inside loc hl
  exact hother (habove.eq_of_length (le_antisymm habove.length_le hin.length_le))

end Filesystem

end Iotmp
