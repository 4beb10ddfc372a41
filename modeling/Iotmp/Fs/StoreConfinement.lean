/-
Confinement of the store: where there are no symbolic links, no run of requests and transfers leaves the base directory.

A path is checked when a request comes or a session is created, and used then or later; what counts is the location it
names, which does not change.

- `named_of_validated`: an accepted path names a location inside the base directory, whatever of it is there.
- `Confined`: what every event keeps: the tree outside is as it was, everything that was opened is inside, and so are the
  paths and the open files of the sessions.
- `Confined.step`, `store_confined`: one event, and a run.
Witness: `store_confined_escape`.
-/
import Mathlib.Tactic
import Iotmp.Fs.Overwrite
import Iotmp.Fs.StoreRuns

namespace Iotmp

open FileTree (Outcome Step Node Edit Scope)

namespace Filesystem

variable {digest : Bytes → Bytes → Bytes} {fs : Filesystem} {d : Disk} {b : Location} {path : Path}

/-! ## Accepted paths -/

theorem canonicalInside_of_validated (hne : fs.basePath.isEmpty = false) (hb : d.canonical fs.basePath = .returns b)
    (h : fs.validateResolvedPath d path = .returns true) : d.CanonicalInside b path := by
  rw [validateResolvedPath] at h
  split_ifs at h with hdots hemp
  · exact absurd h (by simp)
  · rw [isWithinBasePath, hne, hb] at h
    simp only [Bool.false_eq_true, if_false] at h
    rcases hc : d.weaklyCanonical path with c | _
    · rw [hc] at h
      simp only [Call.returns.injEq, Bool.and_eq_true, decide_eq_true_eq] at h
      exact ⟨c, hc, h.1, h.2⟩
    · rw [hc] at h
      exact absurd h (by simp)
  · exact absurd hne (by simpa using hemp)

/-- **An accepted path names a location inside**, there or not. -/
theorem named_of_validated (hfree : d.tree.NoLinks []) (hne : fs.basePath.isEmpty = false)
    (hb : d.canonical fs.basePath = .returns b) (h : fs.validateResolvedPath d path = .returns true) :
    b <+: path.named d.cwd := by
  have hup := noUp_of_validated h
  obtain ⟨c, hc, hroot, hpre⟩ := canonicalInside_of_validated hne hb h
  by_cases hfound : ∃ loc, d.lookup path = .found loc
  · obtain ⟨loc, hl⟩ := hfound
    rw [Disk.weaklyCanonical, hl] at hc
    obtain rfl : Path.ofLocation loc = c := Call.returns.inj hc
    have hloc : loc = path.named d.cwd := Disk.lookup_named hfree path loc (by rw [hl]; rfl)
    rw [← hloc]
    exact (List.prefix_map_iff_of_injective FileName.element_injective).1 hpre
  · have habsent : ∀ l, d.lookup path ≠ .found l := fun l hl => hfound ⟨l, hl⟩
    have hupMem : dotDot ∉ path.elements := fun hmem => hup dotDot hmem (List.infix_refl _)
    have hsolid : d.tree.Solid b := by
      have hsound := d.lookup_sound fs.basePath
      rw [Disk.canonical_returns hb] at hsound
      exact hsound
    obtain ⟨done, todo, loc, hfrontier, helements⟩ := Disk.weaklyCanonical_frontier hc hroot hupMem habsent
    rw [helements] at hpre
    -- the part that is there names where it leads, and the rest does not go up
    have hfirst : loc = (Path.make path.root done false).named d.cwd :=
      Disk.lookup_named hfree _ loc (by rw [hfrontier.first]; rfl)
    have hway : done <+: path.elements := by
      rw [hfrontier.elements]
      exact List.prefix_append done todo
    calc b <+: loc := hfrontier.base_within hsolid hpre
      _ = (Path.make path.root done false).named d.cwd := hfirst
      _ <+: path.named d.cwd := Path.named_prefix (q := .make path.root done false) hup rfl hway d.cwd

/-- the base directory is where its path names, whenever it is there -/
theorem base_named (hfree : d.tree.NoLinks []) (hb : d.canonical fs.basePath = .returns b) :
    b = fs.basePath.named d.cwd :=
  Disk.lookup_named hfree fs.basePath b (by rw [Disk.canonical_returns hb]; rfl)

/-! ## Scopes inside -/

/-- everything above `b` is there -/
def Above (d : Disk) (b : Location) : Prop := ∀ loc, loc <+: b → ¬ b <+: loc → d.tree.node loc ≠ none

theorem opening_within (habove : Above d b) (hpath : b <+: path.named d.cwd) {loc : Location}
    (h : d.opening path loc) : b <+: loc := by
  rcases h with rfl | ⟨hway, hnone⟩
  · exact hpath
  · by_contra hout
    have hup : loc <+: b := (List.prefix_or_prefix_of_prefix hway hpath).resolve_right hout
    exact habove loc hup hout hnone

theorem storing_within (habove : Above d b) (hpath : b <+: path.named d.cwd) (content : Bytes → Prop) :
    (d.storing path content).Within b where
  made := fun _ h => opening_within habove hpath (.inr h)
  entry := fun _ h => opening_within habove hpath (.inl h)
  subtree := fun _ h => h.elim

theorem none_within (b : Location) : (Scope.none : Scope FileName Bytes).Within b where
  made := fun _ h => h.elim
  entry := fun _ h => h.elim
  subtree := fun _ h => h.elim

theorem request_within (habove : Above d b) (r : FsRequest) (hpaths : ∀ path ∈ r.paths fs d, b <+: path.named d.cwd) :
    (r.scope fs d).Within b := by
  cases r with
  | put input =>
    rw [FsRequest.scope]
    rcases hpath : fs.requested d input "path" with _ | path
    · exact none_within b
    · exact storing_within habove (hpaths path (Option.mem_toList.2 hpath)) _
  | delete input =>
    rw [FsRequest.scope]
    rcases hpath : fs.requested d input "path" with _ | path
    · exact none_within b
    · have hinside := hpaths path (Option.mem_toList.2 hpath)
      refine ⟨fun _ h => h.elim, ?_, ?_⟩
      · rintro loc rfl
        exact hinside
      · rintro loc rfl
        exact hinside
  | move input refused =>
    rw [FsRequest.scope]
    split
    · rename_i source dest hsource hdest
      refine ⟨fun _ h => h.elim, fun _ h => h.elim, ?_⟩
      rintro loc (rfl | rfl)
      · exact hpaths source (List.mem_append_left _ (Option.mem_toList.2 hsource))
      · exact hpaths dest (List.mem_append_right _ (Option.mem_toList.2 hdest))
    · exact none_within b
  | _ => exact none_within b

/-- what a move moves to is what its second path names -/
theorem renames_named (hfree : d.tree.NoLinks []) {r : FsRequest} {src dst : Location}
    (h : r.renames fs d = some (src, dst)) : ∃ path ∈ r.paths fs d, dst = path.named d.cwd := by
  cases r with
  | move input refused =>
    rw [FsRequest.renames] at h
    split at h
    · rename_i reply source dest hreply hsource hdest
      have hmem : dest ∈ (FsRequest.move input refused).paths fs d :=
        List.mem_append_right _ (Option.mem_toList.2 hdest)
      split_ifs at h
      split at h
      · rename_i src' dst' hsrc hdst
        split_ifs at h
        obtain ⟨-, rfl⟩ := Prod.mk.inj (Option.some.inj h)
        exact ⟨dest, hmem, Disk.entry_named hfree dest _ (by rw [hdst]; rfl)⟩
      · rename_i src' dir name hsrc hdst
        obtain ⟨-, rfl⟩ := Prod.mk.inj (Option.some.inj h)
        exact ⟨dest, hmem, Disk.entry_named hfree dest _ (by rw [hdst]; rfl)⟩
      · exact absurd h (by simp)
    · exact absurd h (by simp)
  | _ => exact absurd h (by simp [FsRequest.renames])

theorem stays_same {loc loc' : Location} (h : stays d loc = some loc') : loc = loc' := by
  rw [stays] at h
  split_ifs at h
  exact Option.some.inj h

/-- an open file stays inside -/
theorem follow_within (hfree : d.tree.NoLinks []) {d' : Disk} {r : FsRequest}
    (hpaths : ∀ path ∈ r.paths fs d, b <+: path.named d.cwd) {loc loc' : Location} (hloc : b <+: loc)
    (h : r.follow fs d d' loc = some loc') : b <+: loc' := by
  rw [FsRequest.follow] at h
  rcases hr : r.renames fs d with _ | ⟨src, dst⟩
  · rw [hr] at h
    simp only [stays] at h
    split_ifs at h
    obtain rfl := Option.some.inj h
    exact hloc
  · rw [hr] at h
    simp only at h
    split_ifs at h
    obtain rfl := Option.some.inj h
    obtain ⟨path, hmem, rfl⟩ := renames_named hfree hr
    rw [FileTree.moved]
    split_ifs
    · exact (hpaths path hmem).trans (List.prefix_append _ _)
    · exact hloc

/-! ## Runs -/

namespace Store

/-- nothing has left the base directory `b` of the disk `d` -/
structure Confined (d : Disk) (b : Location) (s : Store) : Prop where
  sound : s.Sound
  cwd : s.disk.cwd = d.cwd
  outside : ∀ loc, ¬ b <+: loc → s.disk.tree.node loc = d.tree.node loc
  inside : s.disk.Inside b
  paths : ∀ t ∈ s.transfers, ∀ path ∈ t.path, b <+: path.named d.cwd
  files : ∀ t ∈ s.transfers, ∀ loc ∈ t.file, b <+: loc

section

variable {s : Store} (hs : Confined d b s) (hsolid : d.tree.Solid b) (hne : fs.basePath.isEmpty = false)
  (hbase : b = fs.basePath.named d.cwd)

include hs

theorem Confined.above (hsolid : d.tree.Solid b) : Above s.disk b := by
  rintro loc ⟨more, hmore⟩ hout
  obtain ⟨n, hn, -⟩ : d.tree.Solid loc := by
    rw [← hmore] at hsolid
    exact hsolid.of_append
  rw [hs.outside loc hout, hn]
  simp

include hne hbase

/-- a path that is accepted now names a location inside: if the base directory is still there, it is where it was -/
theorem Confined.validated (h : fs.validateResolvedPath s.disk path = .returns true) : b <+: path.named d.cwd := by
  have hfound : ∃ b', s.disk.canonical fs.basePath = .returns b' := by
    rw [validateResolvedPath] at h
    split_ifs at h with hdots hemp
    · exact absurd h (by simp)
    · rw [isWithinBasePath, hne] at h
      rcases hb : s.disk.canonical fs.basePath with b' | _
      · exact ⟨b', rfl⟩
      · simp [hb] at h
    · exact absurd hne (by simpa using hemp)
  obtain ⟨b', hb'⟩ := hfound
  have hsame : b' = b := by
    rw [base_named hs.sound.free hb', hs.cwd, hbase]
  rw [hsame] at hb'
  rw [← hs.cwd]
  exact named_of_validated hs.sound.free hne hb' h

theorem Confined.request_paths (faults : Faults) (r : FsRequest) :
    ∀ path ∈ r.paths fs { s.disk with faults := faults }, b <+: path.named s.disk.cwd := by
  intro path hmem
  have hs' : Confined d b { s with disk := { s.disk with faults := faults } } :=
    ⟨⟨hs.sound.free, hs.sound.noUp⟩, hs.cwd, hs.outside, hs.inside, hs.paths, hs.files⟩
  rw [hs.cwd]
  exact hs'.validated hne hbase (validated_of_mem_paths hmem)

include hsolid

/-- **What an event edits is inside.** -/
theorem Confined.scope_within (e : StoreEvent) : (s.scope fs e).Within b := by
  have habove := hs.above hsolid
  cases e with
  | request faults r =>
    exact request_within (d := { s.disk with faults := faults }) habove r (hs.request_paths hne hbase faults r)
  | start i faults =>
    rw [scope]
    split
    · rename_i path ht
      refine storing_within habove ?_ _
      rw [hs.cwd]
      exact hs.paths _ (List.mem_of_getElem? ht) path rfl
    · exact none_within b
  | flush i content =>
    rw [scope]
    split
    · rename_i path loc ht
      refine ⟨fun _ h => h.elim, ?_, fun _ h => h.elim⟩
      rintro l rfl
      exact hs.files _ (List.mem_of_getElem? ht) l rfl
    · exact none_within b
  | stop i completed =>
    rw [scope]
    split
    · rename_i path file ht
      split_ifs
      · exact none_within b
      · refine ⟨fun _ h => h.elim, ?_, fun _ h => h.elim⟩
        rintro l rfl
        rw [hs.cwd]
        exact hs.paths _ (List.mem_of_getElem? ht) path rfl
    · exact none_within b
  | _ => exact none_within b

/-- **What an event opens is inside.** -/
theorem Confined.opens_within (e : StoreEvent) {loc : Location} (h : s.opens fs e loc) : b <+: loc := by
  have habove := hs.above hsolid
  cases e with
  | request faults r =>
    obtain ⟨path, hmem, hopening⟩ := h
    have hpath := hs.request_paths hne hbase faults r path hmem
    exact opening_within (d := { s.disk with faults := faults }) habove hpath hopening
  | start i faults =>
    rw [opens] at h
    rcases ht : s.transfers[i]? with _ | (⟨upload, path⟩ | ⟨path, file⟩ | _)
    · simp only [ht] at h
    · simp only [ht] at h
      refine opening_within habove ?_ h
      rw [hs.cwd]
      exact hs.paths _ (List.mem_of_getElem? ht) path rfl
    · simp only [ht] at h
    · simp only [ht] at h
  | _ => exact h.elim

omit hsolid

/-- **The open files stay inside.** -/
theorem Confined.files_step (digest : Bytes → Bytes → Bytes) (e : StoreEvent) :
    ∀ t ∈ (step digest fs s e).transfers, ∀ loc ∈ t.file, b <+: loc := by
  have hset : ∀ i t', (∀ loc ∈ t'.file, b <+: loc) → ∀ t ∈ s.transfers.set i t', ∀ loc ∈ t.file, b <+: loc := by
    intro i t' ht' t ht
    rcases List.mem_or_eq_of_mem_set ht with hold | rfl
    · exact hs.files t hold
    · exact ht'
  have happend : ∀ upload path, ∀ t ∈ s.transfers ++ [.created upload path], ∀ loc ∈ t.file, b <+: loc := by
    intro upload path t ht
    rcases List.mem_append.1 ht with hold | hlast
    · exact hs.files t hold
    · rw [List.mem_singleton.1 hlast]
      exact fun loc hloc => absurd hloc (by simp [Transfer.file])
  have hended : ∀ loc ∈ Transfer.ended.file, b <+: loc := fun loc hloc => absurd hloc (by simp [Transfer.file])
  cases e with
  | request faults r =>
    intro t ht loc' hloc'
    obtain ⟨t', ht', rfl⟩ := List.mem_map.1 ht
    rw [Transfer.follow_file] at hloc'
    obtain ⟨loc, hloc, hfollow⟩ := Option.bind_eq_some_iff.1 hloc'
    exact follow_within (d := { s.disk with faults := faults }) hs.sound.free (hs.request_paths hne hbase faults r)
      (hs.files t' ht' loc hloc) hfollow
  | createDownload parameters =>
    rw [step]
    rcases fs.createDownload s.disk parameters with (_ | ⟨path, config⟩) | _
    · exact hs.files
    · exact happend false path
    · exact hs.files
  | createUpload parameters available =>
    rw [step]
    rcases fs.createUpload s.disk parameters available with (_ | ⟨path, config⟩) | _
    · exact hs.files
    · exact happend true path
    · exact hs.files
  | start i faults =>
    have hfree := (hs.sound.step digest fs (.start i faults)).free
    have hcwd := step_cwd hs.sound digest fs (.start i faults)
    rw [step] at hfree hcwd ⊢
    rcases ht : s.transfers[i]? with _ | (⟨_ | _, path⟩ | ⟨path, file⟩ | _)
    · exact hs.files
    · exact hset i _ hended
    · simp only [ht] at hfree hcwd ⊢
      rcases hopen : openUpload { s.disk with faults := faults } path with ⟨d', (_ | _) | _⟩
      · exact hset i _ hended
      · rw [hopen] at hfree hcwd
        refine hset i _ fun loc hloc => ?_
        have hpath : b <+: path.named d.cwd := hs.paths _ (List.mem_of_getElem? ht) path rfl
        have hl : d'.lookup path = .found loc := by
          rw [Transfer.file, fileAt] at hloc
          split at hloc
          · rename_i l hl
            rw [hl, Option.some.inj hloc]
          · exact absurd hloc (by simp)
        have hloc' : loc = path.named d'.cwd := Disk.lookup_named hfree path loc (by rw [hl]; rfl)
        calc b <+: path.named d.cwd := hpath
          _ = loc := by rw [hloc', hcwd, hs.cwd]
      · exact hset i _ hended
    · exact hs.files
    · exact hs.files
  | flush i content =>
    rw [step]
    rcases s.transfers[i]? with _ | (⟨_, path⟩ | ⟨path, _ | loc⟩ | _) <;> exact hs.files
  | stop i completed =>
    rw [step]
    rcases s.transfers[i]? with _ | (⟨_, path⟩ | ⟨path, file⟩ | _)
    · exact hs.files
    · exact hs.files
    · intro t ht loc' hloc'
      obtain ⟨t', ht', rfl⟩ := List.mem_map.1 ht
      rw [Transfer.follow_file] at hloc'
      obtain ⟨loc, hloc, hstays⟩ := Option.bind_eq_some_iff.1 hloc'
      rw [← stays_same hstays]
      exact hset i _ hended t' ht' loc hloc
    · exact hs.files

include hsolid

theorem Confined.step (digest : Bytes → Bytes → Bytes) (e : StoreEvent) : Confined d b (step digest fs s e) where
  sound := hs.sound.step digest fs e
  cwd := (step_cwd hs.sound digest fs e).trans hs.cwd
  outside := fun loc hout =>
    ((step_tree hs.sound digest fs e).outside (hs.scope_within hsolid hne hbase e) hout).trans (hs.outside loc hout)
  inside := by
    intro loc hloc
    rcases (step_edited hs.sound digest fs e).touched loc hloc with hold | hnew
    · rw [(under_eq s e).2.2] at hold
      exact hs.inside loc hold
    · exact hs.opens_within hsolid hne hbase e hnew
  paths := paths_step hs.paths (fun _ h => hs.validated hne hbase h) digest e
  files := hs.files_step hne hbase digest e

end

/-- **Confinement of the store.** The base path leads to `b`, and there is no symbolic link on the disk. Whatever requests
come, whatever transfers are created, started, written and stopped, in whatever order and with whatever faults, nothing
outside `b` changes and nothing outside `b` is opened, created, read or truncated; no symbolic link is made; and the base
path leads to `b` or nowhere. -/
theorem store_confined (digest : Bytes → Bytes → Bytes) (fs : Filesystem) (d : Disk) (b : Location)
    (hne : fs.basePath.isEmpty = false) (hb : d.canonical fs.basePath = .returns b) (hfree : d.tree.NoLinks [])
    (htouched : d.touched = []) (events : List StoreEvent) :
    let after := (run digest fs ⟨d, []⟩ events).disk
    (∀ loc, ¬ b <+: loc → after.tree.node loc = d.tree.node loc) ∧ (∀ loc ∈ after.touched, b <+: loc) ∧
      after.tree.NoLinks [] ∧ ∀ b', after.canonical fs.basePath = .returns b' → b' = b := by
  have hsolid : d.tree.Solid b := by
    have hsound := d.lookup_sound fs.basePath
    rw [Disk.canonical_returns hb] at hsound
    exact hsound
  have hstart : Confined d b ⟨d, []⟩ :=
    { sound := ⟨hfree, List.forall_mem_nil _⟩
      cwd := rfl
      outside := fun _ _ => rfl
      inside := by
        intro loc hloc
        rw [htouched] at hloc
        exact absurd hloc List.not_mem_nil
      paths := List.forall_mem_nil _
      files := List.forall_mem_nil _ }
  have hbase := base_named hfree hb
  have hrun : Confined d b (run digest fs ⟨d, []⟩ events) :=
    Run.always (fun _ e hs => hs.step hsolid hne hbase digest e) _ events hstart
  refine ⟨hrun.outside, hrun.inside, hrun.sound.free, fun b' hb' => ?_⟩
  rw [base_named hrun.sound.free hb', hrun.cwd, hbase]

/-- a put above the base directory, an upload that starts after the base directory is deleted -/
theorem store_confined_escape :
    let events := [StoreEvent.request {} (.put (putRequest "../g")), .createUpload (keepExisting "x") 100,
      .request {} (.delete (deleteRequest "." true)), .start 0 {}, .stop 0 false]
    let after := (run (fun _ _ => []) dataFolder ⟨dataWithFile, []⟩ events).disk
    ∀ loc, ¬ [fileName "data" data_isName] <+: loc → after.tree.node loc = dataWithFile.tree.node loc :=
  (store_confined (fun _ _ => []) dataFolder dataWithFile [fileName "data" data_isName] (by decide) (by decide)
    data_noLinks rfl _).1

end Store

end Filesystem

end Iotmp
