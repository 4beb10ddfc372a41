/-
Inline puts that fail on the way (`handle_put`).

The target is truncated where it is, before its bytes are written. An error that the stream reports at the write makes
the handler remove the target; one that shows when the file is closed is not looked at.

- `handlePutAfter`: the handler, with what `create_directories` did as an argument: it may stop at any directory.
- `AllOrNothing`: a success says that the file holds the payload, and an error leaves the file that was there as it was.
- `openedPath`: the path a put request gets as far as opening. `Whole`: what it takes from there on.
- `openOut_cases`, `writeFile_cases`: everything that opening and writing can do to the disk.
- `put_all_or_nothing_iff`: a put is all or nothing exactly if it is whole where it opens a file.
Witness: `put_over_file`. Counterexample: `put_loses_file`.
-/
import Mathlib.Tactic
import Iotmp.Lib.FileTreeChanges
import Iotmp.Fs.Deletion

namespace Iotmp

open FileTree (Outcome Step Node)

/-! ## Files at paths -/

namespace Disk

def Holds (d : Disk) (p : Path) (content : Bytes) : Prop :=
  ∃ loc, d.lookup p = .found loc ∧ d.tree.node loc = some (.file content)

/-- the path leads to a device or the like -/
def IsSpecial (d : Disk) (p : Path) : Prop := ∃ loc, d.lookup p = .found loc ∧ d.tree.node loc = some .special

/-- the file that was at the path is as it was -/
def Keeps (d : Disk) (p : Path) (d' : Disk) : Prop :=
  ∀ loc content, d.lookup p = .found loc → d.tree.node loc = some (.file content) →
    d'.tree.node loc = some (.file content)

/-- the same disk with more in it -/
structure Grown (d d' : Disk) : Prop where
  tree : FileTree.Extends d.tree d'.tree
  cwd : d'.cwd = d.cwd

variable {d d' : Disk} {p : Path}

theorem Grown.refl (d : Disk) : d.Grown d := ⟨FileTree.extends_refl _, rfl⟩

theorem Grown.keeps (h : d.Grown d') (p : Path) : d.Keeps p d' := fun loc _ _ hnode => h.tree loc _ hnode

theorem Grown.lookup (h : d.Grown d') {loc : Location} (hl : d.lookup p = .found loc) : d'.lookup p = .found loc := by
  have hwalk : (d.tree.walk maxLinks (d.start p) (Path.steps p.elements p.trailing)).1 = .found loc := by
    rw [← lookup_eq_walk_of_ne (by simp [hl]), hl]
  have hstart : d'.start p = d.start p := by rw [start, start, h.cwd]
  rw [Disk.lookup] at hl ⊢
  split_ifs at hl ⊢
  rw [hstart, FileTree.walk_mono h.tree hwalk, hwalk]

/-- **`create_directories` adds to the disk**, however far it gets. -/
theorem createDirectories_grown (d : Disk) (p : Path) : d.Grown (d.createDirectories p).2 := by
  refine createDirectories_induction (P := fun d' => d.Grown d') p (Grown.refl d) fun q _ _ d' hd' => ?_
  rcases createDir_cases d' q with ⟨dir, name, hmissing, hmade⟩ | hself
  · obtain ⟨-, -, -, -, hnone⟩ := entry_missing hmissing
    rw [hmade]
    exact ⟨fun loc n hn => FileTree.extends_add hnone _ loc n (hd'.tree loc n hn), hd'.cwd⟩
  · rw [hself]
    exact hd'

/-- lookups do not depend on contents -/
theorem lookup_shape (hshape : FileTree.SameShape d.tree d'.tree) (hcwd : d'.cwd = d.cwd) (p : Path) :
    d'.lookup p = d.lookup p := by
  have hstart : d'.start p = d.start p := by rw [start, start, hcwd]
  rw [lookup, lookup, hstart, FileTree.walk_shape hshape]

/-! ## Opening and writing -/

/-- **Opening a file to write** fails and changes nothing, truncates what is there, or creates a file. -/
theorem openOut_cases (d : Disk) (p : Path) :
    d.openOut p = (none, d) ∨
      (∃ loc, d.lookup p = .found loc ∧ d.tree.isDirectory loc = false ∧
        d.openOut p = (some loc, { d with tree := d.tree.write loc [] }.touch loc)) ∨
      ∃ dir name, d.lookup p = .missing dir name ∧
        d.openOut p =
          (some (dir ++ [name]), { d with tree := d.tree.add dir name (.file []) }.touch (dir ++ [name])) := by
  rw [openOut]
  split_ifs
  · exact .inl rfl
  · rcases d.lookup p with loc | ⟨dir, name⟩ | _ | _
    · simp only
      split_ifs with hdir
      · exact .inl rfl
      · exact .inr (.inl ⟨loc, rfl, by simpa using hdir, rfl⟩)
    · exact .inr (.inr ⟨dir, name, rfl, rfl⟩)
    · exact .inl rfl
    · exact .inl rfl

/-- `d'` is what an `ofstream` made of `d` when it opened `p`, and the file is at `loc` -/
structure Opened (d d' : Disk) (p : Path) (loc : Location) : Prop where
  lookup : d'.lookup p = .found loc
  device : d.IsSpecial p → d'.tree.node loc = some .special
  file : ¬ d.IsSpecial p → d'.tree.node loc = some (.file [])
  faults : d'.faults = d.faults
  cwd : d'.cwd = d.cwd
  /-- what the path leads to was truncated -/
  was : ∀ loc', d.lookup p = .found loc' → loc' = loc ∧ FileTree.SameShape d.tree d'.tree

/-- **Where a file was opened to write**, there is an empty file, or the device that was there. -/
theorem openOut_opened {loc : Location} (h : d.openOut p = (some loc, d')) : d.Opened d' p loc := by
  rcases openOut_cases d p with hnone | ⟨loc', hl, hdir, hopen⟩ | ⟨dir, name, hl, hopen⟩
  · rw [hnone] at h
    exact absurd (congrArg Prod.fst h) (by simp)
  · rw [hopen] at h
    obtain ⟨hloc, hd'⟩ := Prod.ext_iff.1 h
    obtain rfl : loc' = loc := Option.some.inj hloc
    subst hd'
    have hshape := FileTree.sameShape_write d.tree loc' []
    have hsame : ({ d with tree := d.tree.write loc' [] }.touch loc').lookup p = d.lookup p :=
      @lookup_shape d ({ d with tree := d.tree.write loc' [] }.touch loc') hshape rfl p
    have hspecial : d.IsSpecial p ↔ d.tree.node loc' = some .special := by
      refine ⟨fun ⟨l, hl', hn⟩ => ?_, fun hn => ⟨loc', hl, hn⟩⟩
      rw [hl] at hl'
      rwa [Outcome.found.inj hl']
    refine ⟨hsame.trans hl, fun hdevice => ?_, fun hnot => ?_, rfl, rfl, fun l hl' => ⟨?_, hshape⟩⟩
    · have hn := hspecial.1 hdevice
      change (d.tree.write loc' []).node loc' = _
      rw [FileTree.write_of_not_file (by simp [FileTree.isFile, hn, Node.isFile]), hn]
    · obtain ⟨n, hn, hlink⟩ : d.tree.Solid loc' := by simpa [hl, Outcome.Sound] using lookup_sound d p
      change (d.tree.write loc' []).node loc' = _
      cases n with
      | directory => exact absurd ((FileTree.isDirectory_iff _ _).2 hn) (by simp [hdir])
      | file content => rw [FileTree.node_write ((FileTree.isFile_iff _ _).2 ⟨content, hn⟩), if_pos rfl]
      | link target => exact absurd hlink (by simp [Node.isLink])
      | special => exact absurd (hspecial.2 hn) hnot
    · rw [hl] at hl'
      exact (Outcome.found.inj hl').symm
  · rw [hopen] at h
    obtain ⟨hloc, hd'⟩ := Prod.ext_iff.1 h
    obtain rfl : dir ++ [name] = loc := Option.some.inj hloc
    subst hd'
    obtain ⟨hdir, hnone⟩ : d.tree.isDirectory dir = true ∧ d.tree.node (dir ++ [name]) = none := by
      simpa [hl, Outcome.Sound] using lookup_sound d p
    have hspecial : ¬ d.IsSpecial p := fun ⟨l, hl', _⟩ => absurd (hl.symm.trans hl') (by simp)
    refine ⟨?_, fun hdevice => absurd hdevice hspecial, fun _ => ?_, rfl, rfl,
      fun l hl' => absurd (hl.symm.trans hl') (by simp)⟩
    · have hwalk := lookup_eq_walk_of_ne (d := d) (p := p) (by simp [hl])
      rw [hl] at hwalk
      rw [Disk.lookup] at hl ⊢
      split_ifs at hl ⊢
      exact FileTree.walk_add hdir hnone (n := .file []) rfl hwalk.symm
    · change (d.tree.add dir name (.file [])).node (dir ++ [name]) = _
      rw [FileTree.node_add hdir hnone, if_pos rfl]

/-- what a file holds after bytes were written to it -/
theorem Opened.holds_iff {loc : Location} (h : d.Opened d' p loc) (bytes data : Bytes) :
    { d' with tree := d'.tree.write loc bytes }.Holds p data ↔ ¬ d.IsSpecial p ∧ bytes = data := by
  have hsame : { d' with tree := d'.tree.write loc bytes }.lookup p = .found loc :=
    (@lookup_shape d' { d' with tree := d'.tree.write loc bytes } (FileTree.sameShape_write _ _ _) rfl p).trans h.lookup
  have hholds : { d' with tree := d'.tree.write loc bytes }.Holds p data ↔
      (d'.tree.write loc bytes).node loc = some (.file data) := by
    refine ⟨fun ⟨l, hl, hn⟩ => ?_, fun hn => ⟨loc, hsame, hn⟩⟩
    rw [hsame] at hl
    obtain rfl := Outcome.found.inj hl
    exact hn
  rw [hholds]
  by_cases hspecial : d.IsSpecial p
  · have hnode := h.device hspecial
    rw [FileTree.write_of_not_file (by simp [FileTree.isFile, hnode, Node.isFile]), hnode]
    simp [hspecial]
  · have hnode := h.file hspecial
    rw [FileTree.node_write ((FileTree.isFile_iff _ _).2 ⟨[], hnode⟩), if_pos rfl]
    simp [hspecial]

theorem Opened.holds_nil_iff {loc : Location} (h : d.Opened d' p loc) : d'.Holds p [] ↔ ¬ d.IsSpecial p := by
  have hholds : d'.Holds p [] ↔ d'.tree.node loc = some (.file []) := by
    refine ⟨fun ⟨l, hl, hn⟩ => ?_, fun hn => ⟨loc, h.lookup, hn⟩⟩
    rw [h.lookup] at hl
    obtain rfl := Outcome.found.inj hl
    exact hn
  rw [hholds]
  by_cases hspecial : d.IsSpecial p
  · simp [h.device hspecial, hspecial]
  · simp [h.file hspecial, hspecial]

/-! ## The entry of a file -/

/-- a last step finds an entry: where it leads, or a link -/
theorem walk_into_found {t : FileTree FileName Bytes} {k : ℕ} {dir loc : Location} {a : FileName}
    (h : (t.walk k dir [.into a]).1 = .found loc) :
    t.isDirectory dir = true ∧
      ∃ n, t.node (dir ++ [a]) = some n ∧ (dir ++ [a] = loc ∨ ∃ target, n = .link target) := by
  rcases hd : t.isDirectory dir with _ | _
  · rw [FileTree.walk_of_stop (o := .notFound) (by simp [FileTree.advance_cons, hd])] at h
    exact absurd h (by simp)
  · refine ⟨rfl, ?_⟩
    rcases hn : t.node (dir ++ [a]) with _ | n
    · rw [FileTree.walk_of_stop (o := .missing dir a) (by simp [FileTree.advance_cons, hd, hn])] at h
      exact absurd h (by simp)
    · refine ⟨n, rfl, ?_⟩
      cases n with
      | link target => exact .inr ⟨target, rfl⟩
      | _ =>
        rw [FileTree.walk_into_solid ⟨_, hn, rfl⟩] at h
        exact .inl (Outcome.found.inj h)

theorem linkEntry_shape (hshape : FileTree.SameShape d.tree d'.tree) (hcwd : d'.cwd = d.cwd) (p : Path) :
    d'.linkEntry p = d.linkEntry p := by
  have hstart : d'.start p = d.start p := by rw [start, start, hcwd]
  rw [linkEntry, linkEntry, entry, entry, lookup_shape hshape hcwd, hstart]
  simp only [FileTree.walk_shape hshape, hshape.isDirectory, hshape.node_eq_none]

/-- the last component of a path that leads somewhere is an entry: where the path leads, or a link -/
theorem linkEntry_found {loc : Location} (hl : d.lookup p = .found loc) :
    ∃ own, (∀ d', d.Grown d' → d'.linkEntry p = .found own) ∧
      (own = loc ∨ ∃ target, d.tree.node own = some (.link target)) := by
  have hlookup : ∀ d', d.Grown d' → d'.lookup p = .found loc := fun d' h => h.lookup hl
  by_cases hslash : (Path.cString p.elements p.trailing).2 = true
  · refine ⟨loc, fun d' h => ?_, .inl rfl⟩
    rw [linkEntry, if_pos hslash]
    exact hlookup d' h
  · have hwalk := lookup_eq_walk_of_ne (d := d) (p := p) (by simp [hl])
    rw [hl, Path.steps, if_neg hslash] at hwalk
    have hentry : ∀ d' : Disk, d'.linkEntry p = d'.entry p := fun d' => if_neg hslash
    rcases hlast : (Path.cString p.elements p.trailing).1.getLast? with _ | _ | _ | a
    · exact ⟨loc, fun d' h => by rw [hentry, entry, hlast]; exact hlookup d' h, .inl rfl⟩
    · exact ⟨loc, fun d' h => by rw [hentry, entry, hlast]; exact hlookup d' h, .inl rfl⟩
    · exact ⟨loc, fun d' h => by rw [hentry, entry, hlast]; exact hlookup d' h, .inl rfl⟩
    · have hsplit := List.dropLast_append_getLast? (Step.into a) hlast
      rw [← hsplit, FileTree.walk_append _ _ _ _ _ (by simp)] at hwalk
      rcases hdir : d.tree.walk maxLinks (d.start p) (Path.cString p.elements p.trailing).1.dropLast with
        ⟨dir | ⟨_, _⟩ | _ | _, k⟩
      all_goals rw [hdir] at hwalk
      · simp only [Outcome.andThen] at hwalk
        obtain ⟨hisdir, n, hn, hown⟩ := walk_into_found hwalk.symm
        refine ⟨dir ++ [a], fun d' h => ?_, ?_⟩
        · have hstart : d'.start p = d.start p := by rw [start, start, h.cwd]
          have hfound := FileTree.walk_mono h.tree (congrArg Prod.fst hdir)
          rw [hentry, entry, hlast]
          simp only [hstart, hfound, hdir, h.tree.isDirectory hisdir, h.tree _ n hn, Bool.not_true, Bool.false_eq_true,
            if_false, reduceCtorEq]
        · rcases hown with rfl | ⟨target, rfl⟩
          · exact .inl rfl
          · exact .inr ⟨target, hn⟩
      · exact absurd hwalk (by simp [Outcome.andThen])
      · exact absurd hwalk (by simp [Outcome.andThen])
      · exact absurd hwalk (by simp [Outcome.andThen])

/-- **The removal of a file** takes the file away, or the link that leads to it. -/
theorem remove_file {loc : Location} {bytes : Bytes} {own : Location} (hown : d.linkEntry p = .found own)
    (hnode : d.tree.node loc = some (.file bytes))
    (hkind : own = loc ∨ ∃ target, d.tree.node own = some (.link target)) :
    (d.remove p).2.tree.node loc = if own = loc then none else some (.file bytes) := by
  have hdir : d.tree.isDirectory own = false := by
    rcases hkind with rfl | ⟨target, htarget⟩
    · simp [FileTree.isDirectory, hnode, Node.isDirectory]
    · simp [FileTree.isDirectory, htarget, Node.isDirectory]
  have hloc : loc ≠ [] := by
    rintro rfl
    simp at hnode
  rw [remove, hown]
  simp only [hdir, Bool.false_eq_true, if_false]
  rw [FileTree.node_remove (FileTree.hasChildren_of_not_directory hdir) hloc, hnode]
  simp only [eq_comm]

end Disk

namespace Filesystem

/-! ## The handler -/

/-- `putFile` behind its `create_directories` -/
def putFileAfter (made : Option Errno × Disk) (path : Path) (data : Bytes) : Disk × Reply :=
  match made with
  | (some e, d) => (d, .error e.message)
  | (none, d) => writeFile d path data

def putDirectoryAfter (made : Option Errno × Disk) (path : Path) : Disk × Reply :=
  match made with
  | (some e, d) => (d, .error e.message)
  | (none, d) => (d, stored path "directory" [])

/-- `handle_put`, where `create_directories` does what `mkdirs` says -/
def handlePutAfter (fs : Filesystem) (d : Disk) (mkdirs : Path → Option Errno × Disk) (input : Input) :
    Disk × Call Reply :=
  if input.describe then
    (d, .returns (.fields [("success", .boolean true), ("path", .string []), ("type", .string [])]))
  else
    fs.withPath d input "path" false fun path =>
      if (payloadBytes input).length > MAX_INLINE_FILE_SIZE then
        (d, .returns (.tooLarge (payloadBytes input).length MAX_INLINE_FILE_SIZE))
      else
        match overwriteFlag input.getParams with
        | .throws => (d, .throws)
        | .returns overwrite =>
          if d.isFound path && namesDirectory input then
            if d.isDirectory path then
              (d, .returns (stored path "directory" [("message", Reply.ofText "Directory already exists")]))
            else (d, .returns (.errorCode 409 "A file exists at this path"))
          else if d.isFound path && !overwrite then
            (d, .returns (.errorCode 409 "File already exists (overwrite=false)"))
          else
            let done :=
              if namesDirectory input then putDirectoryAfter (mkdirs path) path
              else putFileAfter (mkdirs path.parentPath) path (payloadBytes input)
            (done.1, .returns done.2)

theorem handlePutAfter_createDirectories (fs : Filesystem) (d : Disk) (input : Input) :
    fs.handlePutAfter d d.createDirectories input = fs.handlePut d input := rfl

/-- a success says that the file holds the payload, an error leaves the file that was there -/
def AllOrNothing (fs : Filesystem) (d : Disk) (input : Input) (out : Disk × Call Reply) : Prop :=
  ∀ pathStr reply, input.requestPath "path" = .returns pathStr → out.2 = .returns reply →
    (reply.success = true → namesDirectory input = false →
      out.1.Holds (fs.resolvePath d pathStr) (payloadBytes input)) ∧
    (reply.success = false → d.Keeps (fs.resolvePath d pathStr) out.1)

/-- the file a put request opens, if its directory can be made -/
def openedPath (fs : Filesystem) (d : Disk) (input : Input) : Option Path :=
  (fs.putPath d input).filter fun path => !d.isFound path || decide (overwriteFlag input.getParams = .returns true)

/-- a file that is opened on `d'`, where `d` was before, is written whole or left alone: no device; nothing is lost at
the close; no error at the write, unless there was no file or the old content was stored again behind a link -/
def Whole (d d' : Disk) (path : Path) (data : Bytes) : Prop :=
  (d'.openOut path).1.isSome = true →
    match d'.faults.write with
    | .none => ¬ d'.IsSpecial path
    | .atClose bytes => ¬ d'.IsSpecial path ∧ (data = [] ∨ bytes = data)
    | .atWrite bytes =>
      if data = [] then ¬ d'.IsSpecial path
      else
        ∀ loc content, d.lookup path = .found loc → d.tree.node loc = some (.file content) →
          d.linkEntry path ≠ .found loc ∧ bytes = content

/-! ## Writing -/

variable {fs : Filesystem} {d d' : Disk} {path : Path} {input : Input}

/-- what is left of the old file after an error at the write -/
theorem keeps_removed_iff {opened : Disk} {loc : Location} (hgrown : d.Grown d') (hopened : d'.Opened opened path loc)
    (bytes : Bytes) :
    d.Keeps path ({ opened with tree := opened.tree.write loc bytes }.remove path).2 ↔
      ∀ loc content, d.lookup path = .found loc → d.tree.node loc = some (.file content) →
        d.linkEntry path ≠ .found loc ∧ bytes = content := by
  refine forall_congr' fun loc' => forall_congr' fun content => forall_congr' fun hl => forall_congr' fun hnode => ?_
  obtain ⟨rfl, hshape⟩ := hopened.was loc' (hgrown.lookup hl)
  obtain ⟨own, hentry, hkind⟩ := Disk.linkEntry_found hl
  have hnode' := hgrown.tree _ _ hnode
  have hspecial : ¬ d'.IsSpecial path := fun ⟨l, hl', hn⟩ => by
    rw [hgrown.lookup hl] at hl'
    obtain rfl := Outcome.found.inj hl'
    rw [hnode'] at hn
    exact absurd hn (by simp)
  have hwritten : (opened.tree.write loc' bytes).node loc' = some (.file bytes) := by
    rw [FileTree.node_write ((FileTree.isFile_iff _ _).2 ⟨[], hopened.file hspecial⟩), if_pos rfl]
  have hshape' := hshape.trans (FileTree.sameShape_write opened.tree loc' bytes)
  have hown : ({ opened with tree := opened.tree.write loc' bytes }).linkEntry path = .found own :=
    (@Disk.linkEntry_shape d' { opened with tree := opened.tree.write loc' bytes } hshape' hopened.cwd path).trans
      (hentry d' hgrown)
  have hkind' : own = loc' ∨ ∃ target, (opened.tree.write loc' bytes).node own = some (.link target) := by
    rcases hkind with rfl | ⟨target, htarget⟩
    · exact .inl rfl
    · have hsame := hshape' own
      rw [hgrown.tree _ _ htarget] at hsame
      obtain ⟨n, hn, hlink⟩ := Option.map_eq_some_iff.1 hsame
      cases n with
      | link target' => exact .inr ⟨target', hn⟩
      | _ => exact absurd hlink (by simp [Node.shape])
  rw [Disk.remove_file hown hwritten hkind', hentry d (Disk.Grown.refl d)]
  by_cases hloc : own = loc'
  · simp [hloc]
  · simp [hloc]

/-- **A file that is opened** is written or left alone exactly if it is whole. -/
theorem writeFile_whole_iff (hgrown : d.Grown d') (data : Bytes) :
    (((writeFile d' path data).2.success = true → (writeFile d' path data).1.Holds path data) ∧
        ((writeFile d' path data).2.success = false → d.Keeps path (writeFile d' path data).1)) ↔
      Whole d d' path data := by
  rw [Whole, writeFile]
  rcases ho : d'.openOut path with ⟨_ | loc, opened⟩
  · have hsame : opened = d' := by
      rcases Disk.openOut_cases d' path with h | ⟨l, -, -, h⟩ | ⟨dir, name, -, h⟩
      · rw [ho] at h
        exact congrArg Prod.snd h
      · rw [ho] at h
        exact absurd (congrArg Prod.fst h) (by simp)
      · rw [ho] at h
        exact absurd (congrArg Prod.fst h) (by simp)
    subst hsame
    simp [Reply.error, hgrown.keeps path]
  · have hopened := Disk.openOut_opened ho
    simp only [← hopened.faults, Option.isSome_some, forall_const]
    by_cases hdata : data = []
    · subst hdata
      simp only [if_true, stored, Reply.fields, hopened.holds_nil_iff, true_or, and_true, Bool.true_eq_false,
        false_implies, forall_const]
      rcases opened.faults.write with _ | bytes | bytes
      · rfl
      · rfl
      · rfl
    · simp only [hdata, if_false, false_or]
      rcases opened.faults.write with _ | bytes | bytes
      · simp [stored, Reply.fields, hopened.holds_iff]
      · simp only [Reply.error, Bool.false_eq_true, false_implies, true_and, forall_const]
        exact keeps_removed_iff hgrown hopened bytes
      · simp [stored, Reply.fields, hopened.holds_iff]

/-! ## The request -/

theorem resolve_ok {key : String} {checkExists : Bool}
    (h : fs.resolveAndValidatePath d input key checkExists = .returns (.ok path)) {pathStr : Bytes}
    (hpath : input.requestPath key = .returns pathStr) : fs.resolvePath d pathStr = path := by
  rw [resolveAndValidatePath, hpath] at h
  simp only at h
  rcases hv : fs.validateResolvedPath d (fs.resolvePath d pathStr) with (_ | _) | _
  · simp [hv] at h
  · simp only [hv] at h
    split_ifs at h
    · rcases hx : d.existsAt (fs.resolvePath d pathStr) with (_ | _) | _
      · simp [hx] at h
      · simpa [hx] using h
      · simp [hx] at h
    · simpa using h
  · simp [hv] at h

/-- a request that opens a file does nothing else -/
theorem handlePutAfter_opened (mkdirs : Path → Option Errno × Disk) (h : fs.openedPath d input = some path) :
    fs.handlePutAfter d mkdirs input =
        ((putFileAfter (mkdirs path.parentPath) path (payloadBytes input)).1,
          .returns (putFileAfter (mkdirs path.parentPath) path (payloadBytes input)).2) ∧
      namesDirectory input = false ∧
      ∀ pathStr, input.requestPath "path" = .returns pathStr → fs.resolvePath d pathStr = path := by
  obtain ⟨hput, hopens⟩ := Option.filter_eq_some_iff.1 h
  have hresolve := (handlePut_of_putPath hput).2
  rw [putPath] at hput
  split_ifs at hput with hpre
  simp only [Bool.or_eq_true, decide_eq_true_eq, not_or, Bool.not_eq_true, not_lt] at hpre
  obtain ⟨⟨hdescribe, hnames⟩, hsize⟩ := hpre
  refine ⟨?_, hnames, fun pathStr hpath => resolve_ok hresolve hpath⟩
  rcases ho : overwriteFlag input.getParams with overwrite | _
  · rw [ho] at hopens
    have hgo : (d.isFound path && !overwrite) = false := by
      rcases hf : d.isFound path with _ | _
      · rfl
      · simpa [hf] using hopens
    rw [handlePutAfter, hdescribe, withPath, hresolve]
    simp only [Bool.false_eq_true, if_false, ho, hnames, Bool.and_false, hgo]
    rw [if_neg (by omega)]
  · rw [hresolve, ho] at hput
    exact absurd hput (by simp)

/-- a request that opens no file stores none, and takes nothing away -/
theorem handlePutAfter_unopened (mkdirs : Path → Option Errno × Disk) (hdescribe : input.describe = false)
    (hgrown : ∀ p, d.Grown (mkdirs p).2) (h : fs.openedPath d input = none) :
    d.Grown (fs.handlePutAfter d mkdirs input).1 ∧
      ∀ reply, (fs.handlePutAfter d mkdirs input).2 = .returns reply → namesDirectory input = false →
        reply.success = false := by
  rw [handlePutAfter, hdescribe, withPath]
  simp only [Bool.false_eq_true, if_false]
  rcases hr : fs.resolveAndValidatePath d input "path" false with (reply | path) | _
  · refine ⟨Disk.Grown.refl d, fun reply' hreply _ => ?_⟩
    obtain rfl := Call.returns.inj hreply
    exact resolve_error hr
  · simp only
    by_cases hsize : (payloadBytes input).length > MAX_INLINE_FILE_SIZE
    · rw [if_pos hsize]
      refine ⟨Disk.Grown.refl d, fun reply hreply _ => ?_⟩
      rw [← Call.returns.inj hreply]
      rfl
    · rw [if_neg hsize]
      rcases ho : overwriteFlag input.getParams with overwrite | _
      · simp only
        split_ifs with hfound hdir hrefused hnames
        · exact ⟨Disk.Grown.refl d, fun _ _ hnot => by simp [hnot] at hfound⟩
        · exact ⟨Disk.Grown.refl d, fun _ _ hnot => by simp [hnot] at hfound⟩
        · refine ⟨Disk.Grown.refl d, fun reply hreply _ => ?_⟩
          rw [← Call.returns.inj hreply]
          rfl
        · refine ⟨?_, fun _ _ hnot => absurd hnames (by simp [hnot])⟩
          have hmade := hgrown path
          unfold putDirectoryAfter
          rcases hm : mkdirs path with ⟨_ | e, d'⟩ <;> rw [hm] at hmade
          · exact hmade
          · exact hmade
        · -- nothing stands in the way of opening the file
          have hput : fs.putPath d input = some path := by
            have hcond : (input.describe || namesDirectory input ||
                decide ((payloadBytes input).length > MAX_INLINE_FILE_SIZE)) = false := by
              simp [hdescribe, hnames, hsize]
            rw [putPath, hcond, hr, ho]
            rfl
          rw [openedPath, hput, ho] at h
          exfalso
          rcases hf : d.isFound path with _ | _
          · simp [hf] at h
          · rcases overwrite with _ | _
            · exact hrefused (by simp [hf])
            · simp at h
      · exact ⟨Disk.Grown.refl d, fun _ hreply _ => absurd hreply (by simp)⟩
  · exact ⟨Disk.Grown.refl d, fun _ hreply _ => absurd hreply (by simp)⟩

/-- **Inline puts.** A put is all or nothing, wherever the creation of directories stops, if and only if the file it
opens, once its directories are there, is written whole or left alone. -/
theorem put_all_or_nothing_iff (fs : Filesystem) (d : Disk) (input : Input) (mkdirs : Path → Option Errno × Disk)
    (hdescribe : input.describe = false) (hgrown : ∀ p, d.Grown (mkdirs p).2) :
    AllOrNothing fs d input (fs.handlePutAfter d mkdirs input) ↔
      ∀ path, fs.openedPath d input = some path → (mkdirs path.parentPath).1 = none →
        Whole d (mkdirs path.parentPath).2 path (payloadBytes input) := by
  rcases hopened : fs.openedPath d input with _ | path
  · obtain ⟨hkept, hfails⟩ := handlePutAfter_unopened mkdirs hdescribe hgrown hopened
    refine iff_of_true (fun pathStr reply _ hreply => ⟨fun hsuccess hnames => ?_, fun _ => hkept.keeps _⟩) (by simp)
    rw [hfails reply hreply hnames] at hsuccess
    exact absurd hsuccess (by simp)
  · obtain ⟨hout, hnames, hpath⟩ := handlePutAfter_opened mkdirs hopened
    obtain ⟨pathStr, hstr⟩ : ∃ pathStr, input.requestPath "path" = .returns pathStr := by
      have hresolve := (handlePut_of_putPath (Option.filter_eq_some_iff.1 hopened).1).2
      rw [resolveAndValidatePath] at hresolve
      rcases hp : input.requestPath "path" with pathStr | _
      · exact ⟨pathStr, rfl⟩
      · simp [hp] at hresolve
    have hiff : AllOrNothing fs d input (fs.handlePutAfter d mkdirs input) ↔
        ((putFileAfter (mkdirs path.parentPath) path (payloadBytes input)).2.success = true →
          (putFileAfter (mkdirs path.parentPath) path (payloadBytes input)).1.Holds path (payloadBytes input)) ∧
        ((putFileAfter (mkdirs path.parentPath) path (payloadBytes input)).2.success = false →
          d.Keeps path (putFileAfter (mkdirs path.parentPath) path (payloadBytes input)).1) := by
      rw [hout, AllOrNothing]
      refine ⟨fun h => ?_, fun h pathStr' reply hstr' hreply => ?_⟩
      · obtain ⟨hsuccess, herror⟩ := h pathStr _ hstr rfl
        rw [hpath pathStr hstr] at hsuccess herror
        exact ⟨fun hs => hsuccess hs hnames, herror⟩
      · obtain rfl := Call.returns.inj hreply
        rw [hpath pathStr' hstr']
        exact ⟨fun hs _ => h.1 hs, h.2⟩
    have hmade := hgrown path.parentPath
    rw [hiff]
    rcases hm : mkdirs path.parentPath with ⟨_ | e, d'⟩ <;> rw [hm] at hmade
    · simp only [Option.some.injEq, forall_eq', hm, forall_const, putFileAfter]
      exact writeFile_whole_iff hmade _
    · simp [hm, putFileAfter, Reply.error, hmade.keeps path]

/-! ## A file that is replaced -/

/-- two bytes for `/data/f` -/
def replaceFile : Input := { putRequest "f" with data := .binary [2, 3] none }

def withFault (fault : WriteFault) : Disk := { dataWithFile with faults := { write := fault } }

theorem put_over_file :
    AllOrNothing dataFolder dataWithFile replaceFile (dataFolder.handlePut dataWithFile replaceFile) := by
  refine (put_all_or_nothing_iff dataFolder dataWithFile replaceFile dataWithFile.createDirectories rfl
    (Disk.createDirectories_grown dataWithFile)).2 fun path hpath _ _ => ?_
  have hopened : dataFolder.openedPath dataWithFile replaceFile = some (Path.ofBytes (text "/data/f")) := by decide
  obtain rfl := Option.some.inj (hopened.symm.trans hpath)
  rintro ⟨loc, hl, hnode⟩
  have hfile : (dataWithFile.createDirectories (Path.ofBytes (text "/data/f")).parentPath).2.lookup
      (Path.ofBytes (text "/data/f")) = .found [fileName "data" (by decide), fileName "f" (by decide)] := by decide
  obtain rfl := Outcome.found.inj (hfile.symm.trans hl)
  exact absurd hnode (by decide)

/-- **A put loses the file**: it reports success when nothing of the payload reached the disk at the close, and after
an error at the write the file that was there is gone. -/
theorem put_loses_file :
    ¬ AllOrNothing dataFolder (withFault (.atClose [])) replaceFile
        (dataFolder.handlePut (withFault (.atClose [])) replaceFile) ∧
      ¬ AllOrNothing dataFolder (withFault (.atWrite [2])) replaceFile
        (dataFolder.handlePut (withFault (.atWrite [2])) replaceFile) := by
  refine ⟨fun h => ?_, fun h => ?_⟩
  · obtain ⟨loc, hl, hnode⟩ := (h (text "f") _ rfl rfl).1 rfl (by decide)
    have hfile : (dataFolder.handlePut (withFault (.atClose [])) replaceFile).1.lookup
        (dataFolder.resolvePath (withFault (.atClose [])) (text "f")) =
          .found [fileName "data" (by decide), fileName "f" (by decide)] := by decide
    obtain rfl := Outcome.found.inj (hfile.symm.trans hl)
    exact absurd hnode (by decide)
  · have hkept := (h (text "f") _ rfl rfl).2 rfl [fileName "data" (by decide), fileName "f" (by decide)] [1]
      (by decide) (by decide)
    exact absurd hkept (by decide)

end Filesystem

end Iotmp
