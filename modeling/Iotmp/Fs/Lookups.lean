/-
What the system finds at paths that share their first elements, and what the creation of directories does there.

- `lookup_of_reaches`: a lookup goes on where the first elements lead.
- `entry_ne_missing`: nothing is missing on the way to what is found.
- `createDir_cases`: a directory is created where the entry is missing, or nothing changes.
- `createDirectories_induction`: what every directory creation on the way keeps, `create_directories` keeps.
- `isDirectory_of_createDirectories`: where no entry is missing, `create_directories` succeeds on directories only.
-/
import Mathlib.Tactic
import Iotmp.Fs.Disk

namespace Iotmp

open FileTree (Outcome Step Node)

/-! ## Components of paths with common first elements -/

/-- a lookup of a longer path begins with the components of a shorter one -/
theorem Path.cString_begins_steps (first second : List Element) (slash slash' : Bool) :
    ∃ rest, Path.steps (first ++ second) slash = (Path.cString first slash').1 ++ rest := by
  by_cases h : ∃ e ∈ first, 0 ∈ e.1
  · rw [Path.steps, Path.cString_of_nul h second slash slash']
    split_ifs
    · exact ⟨[.here], rfl⟩
    · exact ⟨[], by rw [List.append_nil]⟩
  · have hclean : ∀ e ∈ first, 0 ∉ e.1 := by
      intro e he hz
      exact h ⟨e, he, hz⟩
    have hfirst := Path.cString_append hclean [] slash'
    rw [List.append_nil] at hfirst
    rw [Path.steps_append hclean, hfirst]
    refine ⟨Path.steps second slash, ?_⟩
    simp [Path.cString]

namespace Disk

variable {d d' : Disk} {p q : Path}

theorem start_congr (h : q.root = p.root) : d.start q = d.start p := by
  rw [start, start, h]

theorem lookup_eq_walk (h : p.root = true ∨ (Path.cString p.elements p.trailing).1 ≠ []) :
    d.lookup p = (d.tree.walk maxLinks (d.start p) (Path.steps p.elements p.trailing)).1 := by
  rw [lookup, if_neg]
  rcases h with h | h
  · simp [h]
  · simp [h]

/-- a lookup that ends somewhere is a walk -/
theorem lookup_eq_walk_of_ne (h : d.lookup p ≠ .notFound) :
    d.lookup p = (d.tree.walk maxLinks (d.start p) (Path.steps p.elements p.trailing)).1 := by
  rw [lookup] at h ⊢
  split_ifs at h ⊢ with h1
  · exact absurd rfl h
  · rfl

/-- what a lookup says of the tree -/
theorem lookup_sound (d : Disk) (p : Path) : (d.lookup p).Sound d.tree := by
  rw [lookup]
  split_ifs with h
  · trivial
  · apply FileTree.walk_sound
    intro hnil
    have hc : (Path.cString p.elements p.trailing).1 = [] := by
      rw [Path.steps] at hnil
      split_ifs at hnil
      · exact absurd hnil (by simp)
      · exact hnil
    have hroot : p.root = true := by simpa [hc] using h
    rw [start, if_pos hroot]
    exact FileTree.solid_of_isDirectory rfl

/-! ## Where the first elements lead -/

/-- the elements `done` of `p` lead to `loc`, with `k` links left to follow, and none of them has a NUL -/
structure Reaches (d : Disk) (p : Path) (done : List Element) (loc : Location) (k : ℕ) : Prop where
  clean : ∀ e ∈ done, 0 ∉ e.1
  walk : d.tree.walk maxLinks (d.start p) (done.map fun e => Path.stepOf e.1) = (.found loc, k)
  anchored : p.root = true ∨ done ≠ []

namespace Reaches

variable {done more : List Element} {loc : Location} {k : ℕ}

theorem walk_cString (h : d.Reaches p done loc k) (hr : q.root = p.root) (slash : Bool) :
    d.tree.walk maxLinks (d.start q) (Path.cString (done ++ more) slash).1 =
      d.tree.walk k loc (Path.cString more slash).1 := by
  rw [start_congr hr, Path.cString_append h.clean]
  exact FileTree.walk_of_found h.walk _

/-- a lookup goes on from where the first elements lead -/
theorem lookup (h : d.Reaches p done loc k) (hr : q.root = p.root) (he : q.elements = done ++ more) :
    d.lookup q = (d.tree.walk k loc (Path.steps more q.trailing)).1 := by
  have hanchor : q.root = true ∨ (Path.cString q.elements q.trailing).1 ≠ [] := by
    rcases h.anchored with hroot | hne
    · exact .inl (hr.trans hroot)
    · right
      rw [he, Path.cString_append h.clean]
      intro hnil
      apply hne
      exact List.map_eq_nil_iff.1 (List.append_eq_nil_iff.1 hnil).1
  rw [lookup_eq_walk hanchor, he, Path.steps_append h.clean, start_congr hr, FileTree.walk_of_found h.walk]

/-- the same with more entries on the disk -/
theorem mono (h : d.Reaches p done loc k) (ht : FileTree.Extends d.tree d'.tree) (hc : d'.cwd = d.cwd) :
    d'.Reaches p done loc k where
  clean := h.clean
  walk := by
    have hstart : d'.start p = d.start p := by rw [start, start, hc]
    have hfound : (d.tree.walk maxLinks (d.start p) (done.map fun e => Path.stepOf e.1)).1 = .found loc := by
      rw [h.walk]
    rw [hstart, FileTree.walk_mono ht hfound]
    exact h.walk
  anchored := h.anchored

end Reaches

/-! ## Entries -/

/-- an entry is missing: its directory is there, and no such name in it -/
theorem entry_missing {dir : Location} {name : FileName} (h : d.entry p = .missing dir name) :
    ∃ init, (Path.cString p.elements p.trailing).1 = init ++ [.into name] ∧
      (d.tree.walk maxLinks (d.start p) init).1 = .found dir ∧ d.tree.isDirectory dir = true ∧
      d.tree.node (dir ++ [name]) = none := by
  by_cases hlast : ∃ a, (Path.cString p.elements p.trailing).1.getLast? = some (.into a)
  · obtain ⟨a, ha⟩ := hlast
    have hsplit := List.dropLast_append_getLast? (Step.into a) ha
    rw [entry] at h
    simp only [ha] at h
    rcases hw : (d.tree.walk maxLinks (d.start p) (Path.cString p.elements p.trailing).1.dropLast).1 with
      loc | _ | _ | _ <;> rw [hw] at h
    · simp only at h
      split_ifs at h with hd hn
      obtain ⟨rfl, rfl⟩ : loc = dir ∧ a = name := by simpa using h
      exact ⟨_, hsplit.symm, hw, by simpa using hd, hn⟩
    · exact absurd h (by simp)
    · exact absurd h (by simp)
    · exact absurd h (by simp)
  · exfalso
    have hlookup : d.lookup p = .missing dir name := by
      rw [entry] at h
      rcases hl : (Path.cString p.elements p.trailing).1.getLast? with _ | s
      · simpa [hl] using h
      · cases s with
        | into a => exact absurd ⟨a, hl⟩ hlast
        | here => simpa [hl] using h
        | up => simpa [hl] using h
    have hwalk := lookup_eq_walk_of_ne (d := d) (p := p) (by rw [hlookup]; simp)
    rw [hlookup] at hwalk
    apply FileTree.walk_ne_missing _ dir name hwalk.symm
    intro a
    rw [Path.steps]
    split_ifs
    · simp
    · intro ha
      exact hlast ⟨a, ha⟩

/-- an entry that is missing is missing for the walk -/
theorem walk_of_entry_missing {dir : Location} {name : FileName} (h : d.entry p = .missing dir name) :
    (d.tree.walk maxLinks (d.start p) (Path.cString p.elements p.trailing).1).1 = .missing dir name := by
  obtain ⟨init, hinit, hwalk, hdir, hnode⟩ := entry_missing h
  have hadv : d.tree.advance dir [.into name] = .stop (.missing dir name) := by
    simp [FileTree.advance_cons, hdir, hnode]
  have hpair : d.tree.walk maxLinks (d.start p) init = (.found dir, (d.tree.walk maxLinks (d.start p) init).2) := by
    rw [← hwalk]
  rw [hinit, FileTree.walk_of_found hpair, FileTree.walk_of_stop hadv]

/-- nothing is missing on the way to what is found -/
theorem entry_ne_missing {loc : Location} (h : d.lookup q = .found loc) (hr : p.root = q.root)
    (hp : p.elements <+: q.elements) (dir : Location) (name : FileName) : d.entry p ≠ .missing dir name := by
  intro hm
  have hshort := walk_of_entry_missing hm
  have hlong := lookup_eq_walk_of_ne (d := d) (p := q) (by rw [h]; simp)
  obtain ⟨second, hsecond⟩ := hp
  obtain ⟨rest, hrest⟩ := Path.cString_begins_steps p.elements second q.trailing p.trailing
  rw [← hsecond, hrest, h] at hlong
  apply FileTree.walk_ne_found _ rest loc hlong.symm
  intro loc'
  rw [← start_congr hr, hshort]
  simp

/-! ## The creation of directories -/

/-- a directory is created where the entry is missing, or nothing changes -/
theorem createDir_cases (d : Disk) (p : Path) :
    (∃ dir name, d.entry p = .missing dir name ∧
        d.createDir p = (none, { d with tree := d.tree.add dir name .directory }.touch (dir ++ [name]))) ∨
      (d.createDir p).2 = d := by
  rw [createDir]
  rcases d.entry p with loc | ⟨dir, name⟩ | _ | _
  · right
    simp only
    split_ifs <;> rfl
  · simp only
    rcases d.faults.mkdir with _ | e
    · exact .inl ⟨dir, name, rfl, rfl⟩
    · exact .inr rfl
  · exact .inr rfl
  · exact .inr rfl

theorem createDir_eq_self (h : ∀ dir name, d.entry p ≠ .missing dir name) : (d.createDir p).2 = d := by
  rcases createDir_cases d p with ⟨dir, name, hm, -⟩ | hself
  · exact absurd hm (h dir name)
  · exact hself

/-- the path with the last element `e`, unless that is a dot or two -/
def lastPath (root : Bool) (e : Element) (outer : List Element) : List Path :=
  if e = dot ∨ e = dotDot then [] else [Path.make root (e :: outer).reverse false]

theorem missingPaths_eq (root : Bool) (e : Element) (outer : List Element) :
    d.missingPaths root (e :: outer) =
      if outer.isEmpty then .ok (lastPath root e outer)
      else
        match d.lookup (Path.make root outer.reverse false) with
        | .found loc => if d.tree.isDirectory loc then .ok (lastPath root e outer) else .error .ENOTDIR
        | .loop => .ok (lastPath root e outer)
        | _ =>
          match d.missingPaths root outer with
          | .error e => .error e
          | .ok paths => .ok (paths ++ lastPath root e outer) := rfl

theorem ok_append {r : Except Errno (List Path)} {last paths : List Path}
    (h : (match r with
      | .error e => .error e
      | .ok inner => .ok (inner ++ last)) = Except.ok paths) : ∃ inner, r = .ok inner ∧ paths = inner ++ last := by
  rcases r with e | inner
  · exact absurd h (by simp)
  · exact ⟨inner, rfl, (Except.ok.inj h).symm⟩

theorem missingPaths_cons {root : Bool} {e : Element} {outer : List Element} {paths : List Path}
    (h : d.missingPaths root (e :: outer) = .ok paths) :
    ∃ inner, paths = inner ++ lastPath root e outer ∧ (inner = [] ∨ d.missingPaths root outer = .ok inner) := by
  rw [missingPaths_eq] at h
  split_ifs at h with hout
  · exact ⟨[], (Except.ok.inj h).symm, .inl rfl⟩
  · rcases hl : d.lookup (Path.make root outer.reverse false) with loc | ⟨dir, name⟩ | _ | _ <;> rw [hl] at h
    · simp only at h
      split_ifs at h
      exact ⟨[], (Except.ok.inj h).symm, .inl rfl⟩
    · obtain ⟨inner, hi, heq⟩ := ok_append h
      exact ⟨inner, heq, .inr hi⟩
    · obtain ⟨inner, hi, heq⟩ := ok_append h
      exact ⟨inner, heq, .inr hi⟩
    · exact ⟨[], (Except.ok.inj h).symm, .inl rfl⟩

/-- a path to create has the first elements of the whole, and no final separator -/
theorem mem_missingPaths {root : Bool} {es : List Element} {paths : List Path}
    (h : d.missingPaths root es = .ok paths) : ∀ q ∈ paths, q.root = root ∧ q.elements <+: es.reverse := by
  induction es generalizing paths with
  | nil =>
    obtain rfl : [] = paths := by simpa [missingPaths] using h
    simp
  | cons e outer ih =>
    obtain ⟨inner, rfl, hinner⟩ := missingPaths_cons h
    intro q hq
    rcases List.mem_append.1 hq with hq | hq
    · rcases hinner with rfl | hi
      · exact absurd hq (by simp)
      · obtain ⟨hr, hp⟩ := ih hi q hq
        rw [List.reverse_cons]
        exact ⟨hr, hp.trans (List.prefix_append _ _)⟩
    · rw [lastPath] at hq
      split_ifs at hq
      · exact absurd hq (by simp)
      · obtain rfl := List.mem_singleton.1 hq
        exact ⟨rfl, List.prefix_refl _⟩

theorem createAll_induction {P : Disk → Prop} {paths : List Path} (hd : P d)
    (h : ∀ q ∈ paths, ∀ d', P d' → P (d'.createDir q).2) : P (d.createAll paths).2 := by
  induction paths generalizing d with
  | nil => exact hd
  | cons q paths ih =>
    have hq := h q List.mem_cons_self d hd
    rw [createAll]
    rcases hc : d.createDir q with ⟨_ | e, d'⟩ <;> rw [hc] at hq
    · exact ih hq fun q' hq' => h q' (List.mem_cons_of_mem q hq')
    · exact hq

/-- **What each creation of a directory on the way keeps, `create_directories` keeps.** -/
theorem createDirectories_induction {P : Disk → Prop} (p : Path) (hd : P d)
    (h : ∀ q, q.root = p.root → q.elements <+: p.elements → ∀ d', P d' → P (d'.createDir q).2) :
    P (d.createDirectories p).2 := by
  have hmissing : ∀ e paths, d.missingPaths p.root p.elements.reverse = .ok paths → e = d.createAll paths → P e.2 := by
    rintro e paths hm rfl
    apply createAll_induction hd
    intro q hq d' hd'
    obtain ⟨hr, hp⟩ := mem_missingPaths hm q hq
    rw [List.reverse_reverse] at hp
    exact h q hr hp d' hd'
  rw [createDirectories]
  split_ifs
  · exact hd
  · rcases d.lookup p with loc | ⟨dir, name⟩ | _ | _
    · simp only
      split_ifs
      · exact hd
      · exact hd
    · rcases hm : d.missingPaths p.root p.elements.reverse with e | paths
      · exact hd
      · exact hmissing _ paths hm rfl
    · rcases hm : d.missingPaths p.root p.elements.reverse with e | paths
      · exact hd
      · exact hmissing _ paths hm rfl
    · exact hd

/-! ## Where nothing can be created -/

/-- no entry is missing on the way to `p`: nothing is created there -/
def Settled (d : Disk) (p : Path) : Prop :=
  ∀ q, q.root = p.root → q.elements <+: p.elements → ∀ dir name, d.entry q ≠ .missing dir name

theorem Settled.createDirectories (h : d.Settled p) (hr : q.root = p.root) (hp : q.elements <+: p.elements) :
    (d.createDirectories q).2 = d := by
  apply createDirectories_induction (P := fun d' => d' = d) q rfl
  rintro q' hr' hp' d' rfl
  exact createDir_eq_self (h q' (hr'.trans hr) (hp'.trans hp))

theorem isDirectory_of_createDir (h : ∀ dir name, d.entry p ≠ .missing dir name) (hc : (d.createDir p).1 = none) :
    d.isDirectory p = true := by
  rw [createDir] at hc
  rcases hentry : d.entry p with loc | ⟨dir, name⟩ | _ | _ <;> rw [hentry] at hc
  · simp only at hc
    split_ifs at hc with hdir
    exact hdir
  · exact absurd hentry (h dir name)
  · exact absurd hc (by simp)
  · exact absurd hc (by simp)

theorem isDirectory_of_createAll {paths : List Path} (h : ∀ q ∈ paths, ∀ dir name, d.entry q ≠ .missing dir name)
    (hc : (d.createAll paths).1 = none) : ∀ q ∈ paths, d.isDirectory q = true := by
  induction paths with
  | nil => simp
  | cons q paths ih =>
    have hself := createDir_eq_self (h q List.mem_cons_self)
    have hmade := isDirectory_of_createDir (h q List.mem_cons_self)
    rw [createAll] at hc
    rcases hq : d.createDir q with ⟨_ | e, d'⟩ <;> rw [hq] at hc hself hmade
    · obtain rfl : d' = d := hself
      intro q' hq'
      rcases List.mem_cons.1 hq' with rfl | hq'
      · exact hmade rfl
      · exact ih (fun q'' hq'' => h q'' (List.mem_cons_of_mem q hq'')) hc q' hq'
    · exact absurd hc (by simp)

theorem createAll_of_none {r : Except Errno (List Path)}
    (h : (match r with
      | .error e => (some e, d)
      | .ok paths => d.createAll paths).1 = none) : ∃ paths, r = .ok paths ∧ (d.createAll paths).1 = none := by
  rcases r with e | paths
  · exact absurd h (by simp)
  · exact ⟨paths, rfl, h⟩

/-- **Where no entry is missing, `create_directories` succeeds on directories only.** -/
theorem isDirectory_of_createDirectories (h : d.Settled q) (hdot : dot ∉ q.elements) (hup : dotDot ∉ q.elements)
    (ht : q.trailing = false) (hc : (d.createDirectories q).1 = none) : d.isDirectory q = true := by
  have hmissing : ∀ paths, d.missingPaths q.root q.elements.reverse = .ok paths → (d.createAll paths).1 = none →
      q.elements ≠ [] → d.isDirectory q = true := by
    intro paths hm hall hne
    rcases hrev : q.elements.reverse with _ | ⟨e, outer⟩
    · exact absurd (List.reverse_eq_nil_iff.1 hrev) hne
    · have helements : q.elements = (e :: outer).reverse := by rw [← hrev, List.reverse_reverse]
      have hmem : e ∈ q.elements := by simp [helements]
      have hlast : lastPath q.root e outer = [q] := by
        rw [lastPath, if_neg]
        · congr 1
          cases q
          simp_all [Path.make]
        · rintro (rfl | rfl)
          · exact hdot hmem
          · exact hup hmem
      obtain ⟨inner, hpaths, -⟩ := missingPaths_cons (by rw [← hrev]; exact hm)
      apply isDirectory_of_createAll _ hall q
      · rw [hpaths, hlast]
        simp
      · intro q' hq'
        obtain ⟨hr, hp⟩ := mem_missingPaths hm q' hq'
        rw [List.reverse_reverse] at hp
        exact h q' hr hp
  have hlookup : q.elements = [] → q.isEmpty = false → d.lookup q = .found [] := by
    intro hnil hemp
    have hroot : q.root = true := by simpa [Path.isEmpty, hnil] using hemp
    rw [lookup_eq_walk (.inl hroot), hnil, ht, start, if_pos hroot]
    rfl
  rw [createDirectories] at hc
  split_ifs at hc with hemp
  have hne : d.lookup q ≠ .found [] → q.elements ≠ [] := by
    intro hl hnil
    exact hl (hlookup hnil (by simpa using hemp))
  rcases hl : d.lookup q with loc | ⟨dir, name⟩ | _ | _ <;> rw [hl] at hc hne
  · simp only at hc
    split_ifs at hc with hdir
    rw [isDirectory, hl]
    exact hdir
  · obtain ⟨paths, hm, hall⟩ := createAll_of_none hc
    exact hmissing paths hm hall (hne (by simp))
  · obtain ⟨paths, hm, hall⟩ := createAll_of_none hc
    exact hmissing paths hm hall (hne (by simp))
  · exact absurd hc (by simp)

end Disk

end Iotmp
