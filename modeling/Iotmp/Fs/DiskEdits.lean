/-
What the operations of the disk do to it, as edits, where there are no symbolic links.

- `Path.named`: the location a path names. Lookups and entries are there, or nowhere (`lookup_named`, `entry_named`).
- `Disk.Edited`: the tree is edited within a scope, and what is opened on the way is in a set of locations.
- `storing`, `removing`, `moving`: the scopes of what is done at a path, or between two.
- `createDirectories_edited`, `openOut_edited`, `writeFile_edited`, `remove_edited`, `removeAll_edited`,
  `rename_edited`: every operation keeps to its scope.
-/
import Mathlib.Tactic
import Iotmp.Lib.FileTreeEdits
import Iotmp.Fs.InlinePut
import Iotmp.Fs.Move

namespace Iotmp

open FileTree (Outcome Step Node Edit Scope)

/-! ## Where a path leads -/

namespace Path

/-- no element has two dots in it: what `validate_resolved_path` asks of a text -/
def NoUp (p : Path) : Prop := ∀ e ∈ p.elements, ¬ dotDot.1 <:+: e.1

/-- the location that a path names -/
def named (cwd : Location) (p : Path) : Location :=
  FileTree.named (if p.root then [] else cwd) (steps p.elements p.trailing)

/-- a final separator names nothing -/
theorem named_cString (cwd : Location) (p : Path) :
    p.named cwd = FileTree.named (if p.root then [] else cwd) (cString p.elements p.trailing).1 := by
  rw [named, steps]
  rcases (cString p.elements p.trailing).2 with _ | _
  · rfl
  · exact FileTree.named_append _ _ _

theorem NoUp.up_not_mem {p : Path} (h : p.NoUp) (slash : Bool) : Step.up ∉ steps p.elements slash :=
  up_not_mem_steps h slash

/-- the first elements of a path name a location on the way -/
theorem named_prefix {p q : Path} (hup : p.NoUp) (hr : q.root = p.root) (hq : q.elements <+: p.elements)
    (cwd : Location) : q.named cwd <+: p.named cwd := by
  obtain ⟨more, hmore⟩ := hq
  obtain ⟨rest, hrest⟩ := cString_begins_steps q.elements more p.trailing q.trailing
  have hsteps : steps p.elements p.trailing = (cString q.elements q.trailing).1 ++ rest := by
    rw [← hmore]
    exact hrest
  have hrestUp : Step.up ∉ rest := by
    intro hmem
    apply hup.up_not_mem p.trailing
    rw [hsteps]
    exact List.mem_append_right _ hmem
  have hwhole : p.named cwd = FileTree.named (q.named cwd) rest := by
    rw [named, hsteps, FileTree.named_append, q.named_cString, hr]
  rw [hwhole]
  exact FileTree.prefix_named hrestUp

end Path

namespace Disk

variable {d d' d'' : Disk} {p q : Path}

theorem lookup_named (hfree : d.tree.NoLinks []) (p : Path) : ∀ loc ∈ (d.lookup p).place, loc = p.named d.cwd := by
  rw [lookup]
  split_ifs
  · simp [Outcome.place]
  · exact FileTree.walk_named hfree _ _ _

theorem entry_named (hfree : d.tree.NoLinks []) (p : Path) : ∀ loc ∈ (d.entry p).place, loc = p.named d.cwd := by
  rw [entry]
  rcases hlast : (Path.cString p.elements p.trailing).1.getLast? with _ | _ | _ | a
  · exact lookup_named hfree p
  · exact lookup_named hfree p
  · exact lookup_named hfree p
  · have hwalk := FileTree.walk_named hfree maxLinks (d.start p) (Path.cString p.elements p.trailing).1.dropLast
    have hnamed : p.named d.cwd =
        FileTree.named (d.start p) (Path.cString p.elements p.trailing).1.dropLast ++ [a] := by
      have hsplit := List.dropLast_append_getLast? (Step.into a) hlast
      rw [p.named_cString]
      conv_lhs => rw [← hsplit]
      rw [FileTree.named_append]
      rfl
    simp only
    rcases hw : (d.tree.walk maxLinks (d.start p) (Path.cString p.elements p.trailing).1.dropLast).1 with
      dir | _ | _ | _
    · rw [hw] at hwalk
      have hdir : dir ++ [a] = p.named d.cwd := by rw [hnamed, hwalk dir rfl]
      simp only
      split_ifs <;> simp [Outcome.place, hdir]
    all_goals simp [Outcome.place]

theorem linkEntry_named (hfree : d.tree.NoLinks []) (p : Path) :
    ∀ loc ∈ (d.linkEntry p).place, loc = p.named d.cwd := by
  rw [linkEntry]
  split_ifs
  · exact lookup_named hfree p
  · exact entry_named hfree p

/-! ## Edits of a disk -/

/-- the tree is edited within a scope, and only locations of a set are opened -/
structure Edited (s : Scope FileName Bytes) (opened : Location → Prop) (d d' : Disk) : Prop where
  tree : FileTree.Edited s d.tree d'.tree
  cwd : d'.cwd = d.cwd
  faults : d'.faults = d.faults
  touched : ∀ loc ∈ d'.touched, loc ∈ d.touched ∨ opened loc

section

variable {s s' : Scope FileName Bytes} {opened opened' : Location → Prop}

theorem Edited.refl (s : Scope FileName Bytes) (opened : Location → Prop) (d : Disk) : Edited s opened d d where
  tree := .refl s d.tree
  cwd := rfl
  faults := rfl
  touched := fun _ => .inl

theorem Edited.trans (h : Edited s opened d d') (h' : Edited s opened d' d'') : Edited s opened d d'' where
  tree := h.tree.trans h'.tree
  cwd := h'.cwd.trans h.cwd
  faults := h'.faults.trans h.faults
  touched := fun loc hloc => (h'.touched loc hloc).elim (h.touched loc) .inr

theorem Edited.mono (hle : s.Le s') (hopened : ∀ loc, opened loc → opened' loc) (h : Edited s opened d d') :
    Edited s' opened' d d' where
  tree := h.tree.mono hle
  cwd := h.cwd
  faults := h.faults
  touched := fun loc hloc => (h.touched loc hloc).imp_right (hopened loc)

theorem Edited.noLinks (h : Edited s opened d d') (hfree : d.tree.NoLinks []) : d'.tree.NoLinks [] :=
  h.tree.noLinks hfree

/-- one edit, with nothing opened -/
theorem edited_single {e : Edit FileName Bytes} (he : s.Allows e) (opened : Location → Prop) (d : Disk) :
    Edited s opened d { d with tree := e.apply d.tree } where
  tree := .single he d.tree
  cwd := rfl
  faults := rfl
  touched := fun _ => .inl

theorem edited_touch {loc : Location} (hloc : opened loc) (h : Edited s opened d d') : Edited s opened d (d'.touch loc) where
  tree := h.tree
  cwd := h.cwd
  faults := h.faults
  touched := by
    intro l hl
    rcases List.mem_append.1 hl with hl | hl
    · exact h.touched l hl
    · rw [List.mem_singleton.1 hl]
      exact .inr hloc

end

/-! ## Scopes -/

/-- directories that are missing on the way to `p`, and the file at `p` -/
def storing (d : Disk) (p : Path) (content : Bytes → Prop) : Scope FileName Bytes where
  made loc := loc <+: p.named d.cwd ∧ d.tree.node loc = none
  entry loc := loc = p.named d.cwd
  subtree _ := False
  content := content

/-- what is at `p` or below -/
def removing (d : Disk) (p : Path) : Scope FileName Bytes where
  made _ := False
  entry loc := loc = p.named d.cwd
  subtree loc := loc = p.named d.cwd
  content _ := False

def moving (d : Disk) (p q : Path) : Scope FileName Bytes where
  made _ := False
  entry _ := False
  subtree loc := loc = p.named d.cwd ∨ loc = q.named d.cwd
  content _ := False

/-- what is opened on the way to `p`: directories that are made, and what is at `p` -/
def opening (d : Disk) (p : Path) (loc : Location) : Prop :=
  loc = p.named d.cwd ∨ loc <+: p.named d.cwd ∧ d.tree.node loc = none

/-- what is in the scope of a store on a disk with more in it, was in its scope before -/
theorem Grown.storing (h : d.Grown d') (p : Path) (content : Bytes → Prop) :
    (d'.storing p content).Le (d.storing p content) := by
  have hnone : ∀ loc, d'.tree.node loc = none → d.tree.node loc = none := by
    intro loc hloc
    rcases hn : d.tree.node loc with _ | n
    · rfl
    · exact absurd (hloc.symm.trans (h.tree loc n hn)) (by simp)
  refine ⟨?_, ?_, fun _ => id, fun _ => id⟩
  · rintro loc ⟨hway, hloc⟩
    rw [h.cwd] at hway
    exact ⟨hway, hnone loc hloc⟩
  · intro loc hloc
    exact hloc.trans (by rw [h.cwd])

theorem Grown.opening (h : d.Grown d') (p : Path) {loc : Location} (hloc : d'.opening p loc) : d.opening p loc := by
  rcases hloc with hloc | hloc
  · exact .inl ((h.storing p fun _ => True).entry loc hloc)
  · exact .inr ((h.storing p fun _ => True).made loc hloc)

/-! ## Operations -/

section

variable (hfree : d.tree.NoLinks [])

include hfree

theorem openIn_edited (p : Path) : Edited .none (d.opening p) d (d.openIn p).2 := by
  have hplace := lookup_named hfree p
  rw [openIn]
  rcases hl : d.lookup p with loc | _ | _ | _
  · rw [hl] at hplace
    simp only
    split_ifs
    · exact edited_touch (.inl (hplace loc rfl)) (.refl _ _ d)
    · exact .refl _ _ d
  · exact .refl _ _ d
  · exact .refl _ _ d
  · exact .refl _ _ d

theorem openDirectory_edited (p : Path) : Edited .none (d.opening p) d (d.openDirectory p) := by
  have hplace := lookup_named hfree p
  rw [openDirectory]
  rcases hl : d.lookup p with loc | _ | _ | _
  · rw [hl] at hplace
    exact edited_touch (.inl (hplace loc rfl)) (.refl _ _ d)
  · exact .refl _ _ d
  · exact .refl _ _ d
  · exact .refl _ _ d

/-- **Directories are made where they are missing** on the way. -/
theorem createDirectories_edited (hup : p.NoUp) (hr : q.root = p.root) (hq : q.elements <+: p.elements)
    (content : Bytes → Prop) :
    Edited (d.storing p content) (d.opening p) d (d.createDirectories q).2 ∧ d.Grown (d.createDirectories q).2 := by
  apply createDirectories_induction
    (P := fun d' => Edited (d.storing p content) (d.opening p) d d' ∧ d.Grown d') q ⟨.refl _ _ d, .refl d⟩
  rintro q' hr' hq' d' ⟨hedited, hgrown⟩
  rcases createDir_cases d' q' with ⟨dir, name, hmissing, hmade⟩ | hself
  · have hnamed : dir ++ [name] = q'.named d'.cwd :=
      entry_named (hedited.noLinks hfree) q' _ (by rw [hmissing]; rfl)
    obtain ⟨-, -, -, -, hnone⟩ := entry_missing hmissing
    have hway : (d'.storing p content).made (dir ++ [name]) := by
      refine ⟨?_, hnone⟩
      rw [hnamed]
      exact Path.named_prefix hup (hr'.trans hr) (hq'.trans hq) d'.cwd
    have hmade' := (hgrown.storing p content).made _ hway
    have hedit : (d.storing p content).Allows (.makeDirectory dir name) := hmade'
    rw [hmade]
    refine ⟨hedited.trans (edited_touch (.inr hmade') (edited_single hedit _ d')), ?_, hgrown.cwd⟩
    exact fun loc n hn => FileTree.extends_add hnone _ loc n (hgrown.tree loc n hn)
  · rw [hself]
    exact ⟨hedited, hgrown⟩

/-- a file is opened to write at the location its path names -/
theorem openOut_edited (p : Path) {content : Bytes → Prop} (hnil : content []) :
    Edited (d.storing p content) (d.opening p) d (d.openOut p).2 ∧
      ∀ loc ∈ (d.openOut p).1, loc = p.named d.cwd := by
  have hplace := lookup_named hfree p
  rcases openOut_cases d p with hnone | ⟨loc, hl, -, hopen⟩ | ⟨dir, name, hl, hopen⟩
  · rw [hnone]
    exact ⟨.refl _ _ d, by simp⟩
  · rw [hl] at hplace
    have hloc := hplace loc rfl
    have hedit : (d.storing p content).Allows (.write loc []) := ⟨hloc, hnil⟩
    rw [hopen]
    refine ⟨edited_touch (.inl hloc) (edited_single hedit _ d), ?_⟩
    simpa using hloc
  · rw [hl] at hplace
    have hloc := hplace _ rfl
    have hedit : (d.storing p content).Allows (.makeFile dir name []) := ⟨hloc, hnil⟩
    rw [hopen]
    refine ⟨edited_touch (.inl hloc) (edited_single hedit _ d), ?_⟩
    simpa using hloc

omit hfree in
theorem rmdir_edited {s : Scope FileName Bytes} {loc : Location} (hs : s.entry loc) (p : Path)
    (opened : Location → Prop) : Edited s opened d (d.rmdir p loc).2 := by
  rw [rmdir]
  rcases (Path.cString p.elements p.trailing).1.getLast? with _ | _ | _ | a
  · exact .refl _ _ d
  · exact .refl _ _ d
  · exact .refl _ _ d
  · simp only
    split_ifs
    · exact .refl _ _ d
    · exact .refl _ _ d
    · exact edited_single (e := .remove loc) hs _ d

/-- **A removal takes away the entry that its path names.** -/
theorem remove_edited {s : Scope FileName Bytes} (hs : s.entry (p.named d.cwd)) (opened : Location → Prop) :
    Edited s opened d (d.remove p).2 := by
  have hplace := linkEntry_named hfree p
  rw [remove]
  rcases hl : d.linkEntry p with loc | _ | _ | _
  · rw [hl] at hplace
    have hloc : s.entry loc := by
      rw [hplace loc rfl]
      exact hs
    simp only
    split_ifs
    · exact rmdir_edited hloc p opened
    · exact edited_single (e := .remove loc) hloc _ d
  · exact .refl _ _ d
  · exact .refl _ _ d
  · exact .refl _ _ d

theorem removeAll_edited (p : Path) (opened : Location → Prop) :
    Edited (d.removing p) opened d (d.removeAll p).2 := by
  have hplace := linkEntry_named hfree p
  have hremove : Edited (d.removing p) opened d (d.remove p).2 := remove_edited hfree rfl opened
  rw [removeAll]
  rcases hl : d.linkEntry p with loc | _ | _ | _
  · rw [hl] at hplace
    simp only
    split_ifs
    · have hedit : (d.removing p).Allows (.clear loc) := hplace loc rfl
      have hclear : Edited (d.removing p) opened d { d with tree := d.tree.clear loc } := edited_single hedit _ d
      exact hclear.trans (remove_edited (hclear.noLinks hfree) rfl opened)
    · exact hremove
  · exact hremove
  · exact hremove
  · exact hremove

/-- a move is one between the locations that its paths name -/
theorem rename_edited (p q : Path) (refused : Option Errno) :
    Edited (d.moving p q) (d.opening q) d (d.rename p q refused).2 := by
  rcases hrename : d.rename p q refused with ⟨_ | e, d'⟩
  · obtain ⟨-, src, dst, hsrc, hdst, hmoved⟩ := rename_entries hrename
    have hsource : src = p.named d.cwd := entry_named hfree p src (by rw [hsrc]; rfl)
    have hdest : dst = q.named d.cwd := by
      rcases hdst with hfound | ⟨dir, name, hmissing, rfl⟩
      · exact entry_named hfree q dst (by rw [hfound]; rfl)
      · exact entry_named hfree q _ (by rw [hmissing]; rfl)
    rcases hmoved with ⟨-, rfl⟩ | ⟨-, -, rfl⟩
    · exact .refl _ _ _
    · have hedit : (d.moving p q).Allows (.rename src dst) := ⟨.inl hsource, .inr hdest⟩
      exact edited_touch (.inl hdest) (edited_single hedit _ d)
  · rw [rename_error hrename]
    exact .refl _ _ d

end

end Disk

/-- the bytes that reach a file where not all of them do -/
def WriteFault.stored : WriteFault → Option Bytes
  | .none => Option.none
  | .atWrite stored => some stored
  | .atClose stored => some stored

namespace Filesystem

variable {d : Disk} (hfree : d.tree.NoLinks [])

include hfree

/-- **A file is stored where its path names**, or taken away again. -/
theorem writeFile_edited (path : Path) {data : Bytes} {content : Bytes → Prop} (hnil : content [])
    (hdata : content data) (hfault : ∀ bytes ∈ d.faults.write.stored, content bytes) :
    Disk.Edited (d.storing path content) (d.opening path) d (writeFile d path data).1 := by
  obtain ⟨hopened, hloc⟩ := Disk.openOut_edited hfree path hnil
  rw [writeFile]
  rcases hopen : d.openOut path with ⟨_ | loc, d'⟩
  · rw [hopen] at hopened
    exact hopened
  · rw [hopen] at hopened hloc
    have hwritten : ∀ bytes, content bytes →
        Disk.Edited (d.storing path content) (d.opening path) d { d' with tree := d'.tree.write loc bytes } := by
      intro bytes hbytes
      have hedit : (d.storing path content).Allows (.write loc bytes) := ⟨hloc loc rfl, hbytes⟩
      exact hopened.trans (Disk.edited_single hedit _ d')
    simp only
    split_ifs
    · exact hopened
    · rcases hwrite : d'.faults.write with _ | bytes | bytes
      · exact hwritten data hdata
      · have hstored := hwritten bytes (hfault bytes (by rw [← hopened.faults, hwrite]; rfl))
        have hentry : (d.storing path content).entry (path.named d'.cwd) := congrArg path.named hopened.cwd
        exact hstored.trans (Disk.remove_edited (hstored.noLinks hfree) hentry _)
      · exact hwritten bytes (hfault bytes (by rw [← hopened.faults, hwrite]; rfl))

/-- what comes after `create_directories` of the parent keeps to the scope of a store -/
theorem after_parents_edited {path : Path} (hup : path.NoUp) (content : Bytes → Prop) :
    Disk.Edited (d.storing path content) (d.opening path) d (d.createDirectories path.parentPath).2 ∧
      ∀ d'', Disk.Edited ((d.createDirectories path.parentPath).2.storing path content)
          ((d.createDirectories path.parentPath).2.opening path) (d.createDirectories path.parentPath).2 d'' →
        Disk.Edited (d.storing path content) (d.opening path) d d'' := by
  obtain ⟨hmade, hgrown⟩ := Disk.createDirectories_edited hfree hup (q := path.parentPath) rfl
    (Disk.parentPath_elements_within path) content
  refine ⟨hmade, fun d'' h => ?_⟩
  exact hmade.trans (h.mono (hgrown.storing path content) fun loc => hgrown.opening path)

theorem putFile_edited {path : Path} (hup : path.NoUp) {data : Bytes} {content : Bytes → Prop} (hnil : content [])
    (hdata : content data) (hfault : ∀ bytes ∈ d.faults.write.stored, content bytes) :
    Disk.Edited (d.storing path content) (d.opening path) d (putFile d path data).1 := by
  obtain ⟨hmade, hafter⟩ := after_parents_edited hfree hup content
  rw [putFile]
  rcases hc : d.createDirectories path.parentPath with ⟨_ | e, d'⟩
  · rw [hc] at hmade hafter
    rw [← hmade.faults] at hfault
    exact hafter _ (writeFile_edited (hmade.noLinks hfree) path hnil hdata hfault)
  · rw [hc] at hmade
    exact hmade

theorem putDirectory_edited {path : Path} (hup : path.NoUp) (content : Bytes → Prop) :
    Disk.Edited (d.storing path content) (d.opening path) d (putDirectory d path).1 := by
  obtain ⟨hmade, -⟩ := Disk.createDirectories_edited hfree hup (q := path) rfl (List.prefix_refl _) content
  rw [putDirectory]
  rcases hc : d.createDirectories path with ⟨_ | e, d'⟩
  · rw [hc] at hmade
    exact hmade
  · rw [hc] at hmade
    exact hmade

theorem openUpload_edited {path : Path} (hup : path.NoUp) {content : Bytes → Prop} (hnil : content []) :
    Disk.Edited (d.storing path content) (d.opening path) d (openUpload d path).1 := by
  obtain ⟨hmade, hafter⟩ := after_parents_edited hfree hup content
  rw [openUpload]
  rcases hc : d.createDirectories path.parentPath with ⟨_ | e, d'⟩
  · rw [hc] at hmade hafter
    have hopened := hafter _ (Disk.openOut_edited (hmade.noLinks hfree) path hnil).1
    simp only
    rcases hopen : d'.openOut path with ⟨_ | loc, d''⟩
    · rw [hopen] at hopened
      exact hopened
    · rw [hopen] at hopened
      exact hopened
  · rw [hc] at hmade
    exact hmade

theorem openDownload_edited (path : Path) : Disk.Edited .none (d.opening path) d (openDownload d path).1 := by
  have hopened := Disk.openIn_edited hfree path
  rw [openDownload]
  rcases d.existsAt path with (_ | _) | _
  · exact .refl _ _ d
  · simp only
    split_ifs
    · exact .refl _ _ d
    · rcases hopen : d.openIn path with ⟨_ | content, d'⟩
      · rw [hopen] at hopened
        exact hopened
      · rw [hopen] at hopened
        exact hopened
  · exact .refl _ _ d

theorem deletePath_edited (path : Path) (recursive : Bool) (opened : Location → Prop) :
    Disk.Edited (d.removing path) opened d (deletePath d path recursive).2 := by
  rw [deletePath]
  split_ifs
  · exact Disk.removeAll_edited hfree path opened
  · exact Disk.remove_edited hfree rfl opened

end Filesystem

end Iotmp
