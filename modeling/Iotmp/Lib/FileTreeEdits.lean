/-
Edits of a tree of files, and what holds however many of them are made.

- `named`: the location that components name. In a tree without links a walk ends there, or nowhere (`walk_named`);
  whether it ends at a file depends on that file only (`walk_found_file`).
- `Edit`: a change of one entry, or of everything at and below one. `Reaches`: where it may change something.
- `node_apply_aside`, `node_apply_kept`, `node_apply_from`: what an edit leaves as it is, and where the entries after it
  come from.
- `Scope`: the edits that are allowed, by where they are and by what they store. `Edited`: any number of them.
- `Edited.outside`, `Edited.kept`, `Edited.no_file`, `Edited.sources`, `Edited.noLinks`: the same of any number of edits.
-/
import Mathlib.Tactic
import Iotmp.Lib.FileTreeChanges

namespace FileTree

variable {α β : Type*}

/-! ## What components name -/

/-- the location that components lead to by their names alone -/
def named (cur : List α) (steps : List (Step α)) : List α := steps.foldl (fun loc s => s.target loc) cur

@[simp] theorem named_nil (cur : List α) : named cur [] = cur := rfl

@[simp] theorem named_cons (cur : List α) (s : Step α) (rest : List (Step α)) :
    named cur (s :: rest) = named (s.target cur) rest := rfl

theorem named_append (cur : List α) (first second : List (Step α)) :
    named cur (first ++ second) = named (named cur first) second :=
  List.foldl_append

/-- components that do not go up name a location below where they start -/
theorem prefix_named {cur : List α} {steps : List (Step α)} (hup : Step.up ∉ steps) : cur <+: named cur steps := by
  induction steps generalizing cur with
  | nil => exact List.prefix_refl _
  | cons s rest ih =>
    obtain ⟨hs, hrest⟩ : Step.up ≠ s ∧ Step.up ∉ rest := by simpa using hup
    have hbelow : s.target cur <+: named cur (s :: rest) := ih hrest
    cases s with
    | here => exact hbelow
    | up => exact absurd rfl hs
    | into a => exact (List.prefix_append cur [a]).trans hbelow

/-- the entry that an outcome is about, there or missing -/
def Outcome.place : Outcome α → Option (List α)
  | .found loc => some loc
  | .missing dir name => some (dir ++ [name])
  | _ => none

section

variable [DecidableEq α]

theorem advance_named {t : FileTree α β} (hfree : t.NoLinks []) (cur : List α) (steps : List (Step α)) :
    ∃ o, t.advance cur steps = .stop o ∧ ∀ loc ∈ o.place, loc = named cur steps := by
  induction steps generalizing cur with
  | nil => exact ⟨_, rfl, by simp [Outcome.place]⟩
  | cons s rest ih =>
    rw [advance_cons]
    rcases t.isDirectory cur with _ | _
    · exact ⟨_, rfl, by simp [Outcome.place]⟩
    · simp only [Bool.not_true, Bool.false_eq_true, if_false, named_cons]
      cases s with
      | here => exact ih cur
      | up => exact ih cur.dropLast
      | into a =>
        simp only
        rcases hn : t.node (cur ++ [a]) with _ | n
        · rcases rest with _ | ⟨s, rest⟩
          · exact ⟨_, rfl, by simp [Outcome.place, Step.target]⟩
          · exact ⟨_, rfl, by simp [Outcome.place]⟩
        · have hlink : n.isLink = false := hfree (cur ++ [a]) n hn
          cases n with
          | link target => exact absurd hlink (by simp [Node.isLink])
          | _ => exact ih (cur ++ [a])

/-- **Without links, a walk ends where its components name, or nowhere.** -/
theorem walk_named {t : FileTree α β} (hfree : t.NoLinks []) (links : ℕ) (cur : List α) (steps : List (Step α)) :
    ∀ loc ∈ (t.walk links cur steps).1.place, loc = named cur steps := by
  obtain ⟨o, ho, hplace⟩ := advance_named hfree cur steps
  rw [walk_of_stop ho]
  exact hplace

/-- **A walk to a file** depends on that file only: what is above it is a directory in any tree that has the file. -/
theorem walk_found_file {t t' : FileTree α β} (hfree : t.NoLinks []) (links : ℕ) {cur loc : List α}
    {steps : List (Step α)} (hup : Step.up ∉ steps) (hw : (t.walk links cur steps).1 = .found loc)
    (hfile : t.isFile loc = true) (hfile' : t'.isFile loc = true) : (t'.walk links cur steps).1 = .found loc := by
  have hadvance : t'.advance cur steps = .stop (.found loc) := by
    obtain ⟨o, ho, -⟩ := advance_named hfree cur steps
    have hfound : t.advance cur steps = .stop (.found loc) := by
      rw [walk_of_stop ho] at hw
      rw [ho, show o = .found loc from hw]
    obtain ⟨content', hnode'⟩ := (isFile_iff t' loc).1 hfile'
    clear hw ho
    induction steps generalizing cur with
    | nil => exact hfound
    | cons s rest ih =>
      obtain ⟨hs, hrest⟩ : Step.up ≠ s ∧ Step.up ∉ rest := by simpa using hup
      have hway : named cur (s :: rest) = loc :=
        (walk_named hfree links cur (s :: rest) loc (by rw [walk_of_stop hfound]; rfl)).symm
      have hbelow : cur <+: loc := by
        rw [← hway]
        exact prefix_named hup
      rw [advance_cons] at hfound ⊢
      rcases hd : t.isDirectory cur with _ | _
      · simp [hd] at hfound
      · have hd' : t'.isDirectory cur = true := by
          obtain ⟨more, rfl⟩ := hbelow
          have hthere : t'.node (cur ++ more) ≠ none := by
            rw [hnode']
            simp
          refine isDirectory_above hthere ?_
          rintro rfl
          rw [List.append_nil] at hfile
          obtain ⟨content, hnode⟩ := (isFile_iff t cur).1 hfile
          simp [isDirectory, hnode, Node.isDirectory] at hd
        simp only [hd, hd', Bool.not_true, Bool.false_eq_true, if_false] at hfound ⊢
        cases s with
        | here => exact ih hrest hfound
        | up => exact absurd rfl hs
        | into a =>
          have hnext : cur ++ [a] <+: loc := by
            rw [← hway]
            exact prefix_named hrest
          simp only at hfound ⊢
          rcases hn : t.node (cur ++ [a]) with _ | n
          · rw [hn] at hfound
            simp only at hfound
            split_ifs at hfound <;> simp at hfound
          · have hlink : n.isLink = false := hfree (cur ++ [a]) n hn
            have hgo : t.advance (cur ++ [a]) rest = .stop (.found loc) := by
              rw [hn] at hfound
              cases n with
              | link target => exact absurd hlink (by simp [Node.isLink])
              | _ => exact hfound
            have hthere : t'.isDirectory (cur ++ [a]) = true ∨ t'.isFile (cur ++ [a]) = true := by
              obtain ⟨more, rfl⟩ := hnext
              by_cases hmore : more = []
              · rw [hmore, List.append_nil] at hfile'
                exact .inr hfile'
              · exact .inl (isDirectory_above (by rw [hnode']; simp) hmore)
            rcases hthere with hdir | hfile''
            · rw [(isDirectory_iff t' _).1 hdir]
              exact ih hrest hgo
            · obtain ⟨c, hc⟩ := (isFile_iff t' _).1 hfile''
              rw [hc]
              exact ih hrest hgo
  rw [walk_of_stop hadvance]

/-! ## What a move leaves -/

variable {t : FileTree α β} {src dst : List α}

/-- what was below `src` has gone -/
theorem node_rename_gone {loc : List α} (hsd : ¬ src <+: dst) (hds : ¬ dst <+: src)
    (hdir : t.isDirectory dst.dropLast = true) (hs : src <+: loc) (hd : ¬ dst <+: loc) :
    (t.rename src dst).node loc = none := by
  have hloc : loc ≠ [] := by
    rintro rfl
    obtain rfl := List.prefix_nil.1 hs
    exact hsd List.nil_prefix
  rw [rename, dif_pos ⟨hsd, hds, hdir⟩]
  change nodeIn (movedEntries src dst t.entries) loc = none
  rw [nodeIn, if_neg hloc, Option.map_eq_none_iff, List.find?_eq_none]
  intro e' he'
  obtain ⟨e, -, rfl⟩ := List.mem_map.1 he'
  rw [decide_eq_true_eq]
  rintro rfl
  by_cases hpre : src <+: e.1
  · obtain ⟨rest, hrest⟩ := hpre
    rw [← hrest, moved_append] at hd
    exact hd (List.prefix_append dst rest)
  · rw [moved_of_not_below hpre] at hs
    exact hpre hs

/-- **A move makes nothing new.** -/
theorem node_rename_from {loc : List α} {n : Node α β} (h : (t.rename src dst).node loc = some n) :
    ∃ l, t.node l = some n := by
  by_cases hmoves : ¬ src <+: dst ∧ ¬ dst <+: src ∧ t.isDirectory dst.dropLast = true
  · obtain ⟨hsd, hds, hdir⟩ := hmoves
    by_cases hd : dst <+: loc
    · obtain ⟨more, rfl⟩ := hd
      exact ⟨src ++ more, (node_rename_below hsd hds hdir more).symm.trans h⟩
    · by_cases hs : src <+: loc
      · rw [node_rename_gone hsd hds hdir hs hd] at h
        exact absurd h (by simp)
      · exact ⟨loc, (node_rename_aside hs hd).symm.trans h⟩
  · rw [rename, dif_neg hmoves] at h
    exact ⟨loc, h⟩

end

/-! ## Edits -/

inductive Edit (α β : Type*) where
  | makeDirectory (dir : List α) (name : α)
  | makeFile (dir : List α) (name : α) (content : β)
  | write (loc : List α) (content : β)
  | remove (loc : List α)
  | clear (loc : List α)
  | rename (src dst : List α)

namespace Edit

def apply [DecidableEq α] (t : FileTree α β) : Edit α β → FileTree α β
  | makeDirectory dir name => t.add dir name .directory
  | makeFile dir name content => t.add dir name (.file content)
  | write loc content => t.write loc content
  | remove loc => t.remove loc
  | clear loc => t.clear loc
  | rename src dst => t.rename src dst

/-- what is at the location may be another entry afterwards -/
def Reaches (loc : List α) : Edit α β → Prop
  | makeDirectory dir name => loc = dir ++ [name]
  | makeFile dir name _ => loc = dir ++ [name]
  | write l _ => loc = l
  | remove l => loc = l
  | clear l => l <+: loc
  | rename src dst => src <+: loc ∨ dst <+: loc

/-- what is there stays -/
def Adds : Edit α β → Prop
  | makeDirectory _ _ => True
  | makeFile _ _ _ => True
  | _ => False

/-- the content it stores -/
def content : Edit α β → Option β
  | makeFile _ _ content => some content
  | write _ content => some content
  | _ => none

end Edit

section

variable [DecidableEq α] {t : FileTree α β}

/-- an entry that is added: where, and that the rest stays -/
theorem node_add_cases (t : FileTree α β) (dir : List α) (name : α) (n : Node α β) (loc : List α) :
    (t.add dir name n).node loc = t.node loc ∨
      loc = dir ++ [name] ∧ t.node loc = none ∧ (t.add dir name n).node loc = some n := by
  by_cases h : t.isDirectory dir = true ∧ t.node (dir ++ [name]) = none
  · rw [node_add h.1 h.2]
    split_ifs with hloc
    · exact .inr ⟨hloc, by rw [hloc, h.2], rfl⟩
    · exact .inl rfl
  · rw [add, dif_neg h]
    exact .inl rfl

/-- a removal of an entry, which may be refused -/
theorem node_remove_cases (t : FileTree α β) (l loc : List α) :
    (t.remove l).node loc = t.node loc ∨ loc = l ∧ (t.remove l).node loc = none := by
  by_cases hl : loc = []
  · rw [hl]
    exact .inl rfl
  · rcases hchildren : t.hasChildren l with _ | _
    · rw [node_remove hchildren hl]
      split_ifs with hloc
      · exact .inr ⟨hloc, rfl⟩
      · exact .inl rfl
    · rw [remove, dif_neg (by simp [hchildren])]
      exact .inl rfl

theorem node_clear_cases (t : FileTree α β) (l loc : List α) :
    (t.clear l).node loc = t.node loc ∨ l <+: loc ∧ (t.clear l).node loc = none := by
  by_cases hl : loc = []
  · rw [hl]
    exact .inl rfl
  · rw [clear, node_restrict _ _ _ hl]
    split_ifs with hkeep
    · exact .inl rfl
    · exact .inr ⟨(not_not.1 (of_decide_eq_false (eq_false_of_ne_true hkeep))).1, rfl⟩

theorem node_write_cases (t : FileTree α β) (l : List α) (content : β) (loc : List α) :
    (t.write l content).node loc = t.node loc ∨
      loc = l ∧ (t.write l content).node loc = some (.file content) := by
  rcases hfile : t.isFile l with _ | _
  · rw [write_of_not_file hfile]
    exact .inl rfl
  · rw [node_write hfile]
    split_ifs with hloc
    · exact .inr ⟨hloc, rfl⟩
    · exact .inl rfl

/-- **An edit changes nothing** where it does not reach. -/
theorem node_apply_aside {e : Edit α β} {loc : List α} (h : ¬ e.Reaches loc) : (e.apply t).node loc = t.node loc := by
  cases e with
  | makeDirectory dir name => exact (node_add_cases t dir name .directory loc).resolve_right fun hnew => h hnew.1
  | makeFile dir name content =>
    exact (node_add_cases t dir name (.file content) loc).resolve_right fun hnew => h hnew.1
  | write l content => exact (node_write_cases t l content loc).resolve_right fun hnew => h hnew.1
  | remove l => exact (node_remove_cases t l loc).resolve_right fun hgone => h hgone.1
  | clear l => exact (node_clear_cases t l loc).resolve_right fun hgone => h hgone.1
  | rename src dst =>
    obtain ⟨hs, hd⟩ := not_or.1 h
    exact node_rename_aside hs hd

/-- **An edit keeps an entry** that it does not reach, and any entry if it only adds one. -/
theorem node_apply_kept {e : Edit α β} {loc : List α} {n : Node α β} (hn : t.node loc = some n)
    (h : e.Reaches loc → e.Adds) : (e.apply t).node loc = some n := by
  by_cases hreaches : e.Reaches loc
  · have hstays : ∀ dir name m, (t.add dir name m).node loc = some n := by
      intro dir name m
      rcases node_add_cases t dir name m loc with hsame | ⟨-, hnone, -⟩
      · exact hsame.trans hn
      · exact absurd (hnone.symm.trans hn) (by simp)
    have hadds := h hreaches
    cases e with
    | makeDirectory dir name => exact hstays dir name .directory
    | makeFile dir name content => exact hstays dir name (.file content)
    | write l content => exact hadds.elim
    | remove l => exact hadds.elim
    | clear l => exact hadds.elim
    | rename src dst => exact hadds.elim
  · exact (node_apply_aside hreaches).trans hn

/-- **Where an entry comes from**: it was there before, at this location or at another one, or it is a new directory or
a file with the content of the edit. -/
theorem node_apply_from {e : Edit α β} {loc : List α} {n : Node α β} (h : (e.apply t).node loc = some n) :
    n = .directory ∨ (∃ content ∈ e.content, n = .file content) ∨ ∃ l, t.node l = some n := by
  cases e with
  | makeDirectory dir name =>
    rcases node_add_cases t dir name .directory loc with hsame | ⟨-, -, hnew⟩
    · exact .inr (.inr ⟨loc, hsame.symm.trans h⟩)
    · exact .inl (Option.some.inj (h.symm.trans hnew))
  | makeFile dir name content =>
    rcases node_add_cases t dir name (.file content) loc with hsame | ⟨-, -, hnew⟩
    · exact .inr (.inr ⟨loc, hsame.symm.trans h⟩)
    · exact .inr (.inl ⟨content, rfl, Option.some.inj (h.symm.trans hnew)⟩)
  | write l content =>
    rcases node_write_cases t l content loc with hsame | ⟨-, hnew⟩
    · exact .inr (.inr ⟨loc, hsame.symm.trans h⟩)
    · exact .inr (.inl ⟨content, rfl, Option.some.inj (h.symm.trans hnew)⟩)
  | remove l =>
    rcases node_remove_cases t l loc with hsame | ⟨-, hgone⟩
    · exact .inr (.inr ⟨loc, hsame.symm.trans h⟩)
    · exact absurd (hgone.symm.trans h) (by simp)
  | clear l =>
    rcases node_clear_cases t l loc with hsame | ⟨-, hgone⟩
    · exact .inr (.inr ⟨loc, hsame.symm.trans h⟩)
    · exact absurd (hgone.symm.trans h) (by simp)
  | rename src dst => exact .inr (.inr (node_rename_from h))

end

/-! ## Any number of edits -/

/-- which edits are allowed -/
structure Scope (α β : Type*) where
  /-- where a directory may be made -/
  made : List α → Prop
  /-- where a file may be made or written, or an entry taken away -/
  entry : List α → Prop
  /-- where everything below may be taken away, or a subtree moved from or to -/
  subtree : List α → Prop
  /-- what a file may be given -/
  content : β → Prop

namespace Scope

def Allows (s : Scope α β) : Edit α β → Prop
  | .makeDirectory dir name => s.made (dir ++ [name])
  | .makeFile dir name content => s.entry (dir ++ [name]) ∧ s.content content
  | .write loc content => s.entry loc ∧ s.content content
  | .remove loc => s.entry loc
  | .clear loc => s.subtree loc
  | .rename src dst => s.subtree src ∧ s.subtree dst

/-- no edit -/
def none : Scope α β := ⟨fun _ => False, fun _ => False, fun _ => False, fun _ => False⟩

/-- what the first allows, the second allows -/
structure Le (s s' : Scope α β) : Prop where
  made : ∀ loc, s.made loc → s'.made loc
  entry : ∀ loc, s.entry loc → s'.entry loc
  subtree : ∀ loc, s.subtree loc → s'.subtree loc
  content : ∀ content, s.content content → s'.content content

theorem Le.refl (s : Scope α β) : s.Le s := ⟨fun _ => id, fun _ => id, fun _ => id, fun _ => id⟩

theorem Le.allows {s s' : Scope α β} (h : s.Le s') {e : Edit α β} (he : s.Allows e) : s'.Allows e := by
  cases e with
  | makeDirectory dir name => exact h.made _ he
  | makeFile dir name content => exact ⟨h.entry _ he.1, h.content _ he.2⟩
  | write loc content => exact ⟨h.entry _ he.1, h.content _ he.2⟩
  | remove loc => exact h.entry _ he
  | clear loc => exact h.subtree _ he
  | rename src dst => exact ⟨h.subtree _ he.1, h.subtree _ he.2⟩

/-- all of it lies at `base` or below -/
structure Within (s : Scope α β) (base : List α) : Prop where
  made : ∀ loc, s.made loc → base <+: loc
  entry : ∀ loc, s.entry loc → base <+: loc
  subtree : ∀ loc, s.subtree loc → base <+: loc

/-- an entry at the location is left alone -/
structure Spares (s : Scope α β) (loc : List α) : Prop where
  entry : ¬ s.entry loc
  subtree : ∀ l, s.subtree l → ¬ l <+: loc

theorem Within.reaches {s : Scope α β} {base : List α} (h : s.Within base) {e : Edit α β} (he : s.Allows e)
    {loc : List α} (hloc : e.Reaches loc) : base <+: loc := by
  cases e with
  | makeDirectory dir name =>
    rw [Edit.Reaches] at hloc
    rw [hloc]
    exact h.made _ he
  | makeFile dir name content =>
    rw [Edit.Reaches] at hloc
    rw [hloc]
    exact h.entry _ he.1
  | write l content =>
    rw [Edit.Reaches] at hloc
    rw [hloc]
    exact h.entry _ he.1
  | remove l =>
    rw [Edit.Reaches] at hloc
    rw [hloc]
    exact h.entry _ he
  | clear l => exact (h.subtree _ he).trans hloc
  | rename src dst =>
    rcases hloc with hs | hd
    · exact (h.subtree _ he.1).trans hs
    · exact (h.subtree _ he.2).trans hd

theorem Spares.adds {s : Scope α β} {loc : List α} (h : s.Spares loc) {e : Edit α β} (he : s.Allows e)
    (hloc : e.Reaches loc) : e.Adds := by
  cases e with
  | makeDirectory dir name => trivial
  | makeFile dir name content => trivial
  | write l content =>
    rw [Edit.Reaches] at hloc
    exact absurd he.1 (hloc ▸ h.entry)
  | remove l =>
    rw [Edit.Reaches] at hloc
    exact absurd he (hloc ▸ h.entry)
  | clear l => exact absurd hloc (h.subtree _ he)
  | rename src dst => exact hloc.elim (fun hs => absurd hs (h.subtree _ he.1)) fun hd => absurd hd (h.subtree _ he.2)

end Scope

section

variable [DecidableEq α] {t t' t'' : FileTree α β} {s s' : Scope α β}

/-- any number of allowed edits -/
def Edited (s : Scope α β) : FileTree α β → FileTree α β → Prop :=
  Relation.ReflTransGen fun t t' => ∃ e, s.Allows e ∧ t' = e.apply t

namespace Edited

theorem refl (s : Scope α β) (t : FileTree α β) : Edited s t t := Relation.ReflTransGen.refl

theorem single {e : Edit α β} (he : s.Allows e) (t : FileTree α β) : Edited s t (e.apply t) :=
  Relation.ReflTransGen.single ⟨e, he, rfl⟩

theorem trans (h : Edited s t t') (h' : Edited s t' t'') : Edited s t t'' := Relation.ReflTransGen.trans h h'

theorem mono (hle : s.Le s') (h : Edited s t t') : Edited s' t t' :=
  Relation.ReflTransGen.mono (fun _ _ ⟨e, he, heq⟩ => ⟨e, hle.allows he, heq⟩) _ _ h

/-- **Nothing changes outside.** -/
theorem outside {base loc : List α} (h : Edited s t t') (hs : s.Within base) (hloc : ¬ base <+: loc) :
    t'.node loc = t.node loc := by
  induction h with
  | refl => rfl
  | tail _ hstep ih =>
    obtain ⟨e, he, rfl⟩ := hstep
    exact (node_apply_aside fun hreaches => hloc (hs.reaches he hreaches)).trans ih

/-- **What is spared stays.** -/
theorem kept {loc : List α} {n : Node α β} (h : Edited s t t') (hs : s.Spares loc) (hn : t.node loc = some n) :
    t'.node loc = some n := by
  induction h with
  | refl => exact hn
  | tail _ hstep ih =>
    obtain ⟨e, he, rfl⟩ := hstep
    exact node_apply_kept ih (hs.adds he)

/-- where there is no file, none is put -/
theorem no_file {loc : List α} (h : Edited s t t') (hs : s.Spares loc) (hno : t.isFile loc = false) :
    t'.isFile loc = false := by
  induction h with
  | refl => exact hno
  | @tail t₁ t₂ _ hstep ih =>
    obtain ⟨e, he, rfl⟩ := hstep
    by_cases hreaches : e.Reaches loc
    · have hadds := hs.adds he hreaches
      cases e with
      | makeDirectory dir name =>
        rcases node_add_cases t₁ dir name .directory loc with hsame | ⟨-, -, hnew⟩
        · rw [isFile, Edit.apply, hsame]
          exact ih
        · rw [isFile, Edit.apply, hnew]
          rfl
      | makeFile dir name content =>
        rw [Edit.Reaches] at hreaches
        exact absurd he.1 (hreaches ▸ hs.entry)
      | _ => exact hadds.elim
    · rw [isFile, node_apply_aside hreaches]
      exact ih

/-- **Where entries come from.** -/
theorem sources {loc : List α} {n : Node α β} (h : Edited s t t') (hn : t'.node loc = some n) :
    n = .directory ∨ (∃ content, s.content content ∧ n = .file content) ∨ ∃ l, t.node l = some n := by
  induction h generalizing loc with
  | refl => exact .inr (.inr ⟨loc, hn⟩)
  | tail _ hstep ih =>
    obtain ⟨e, he, rfl⟩ := hstep
    rcases node_apply_from hn with hdir | ⟨content, hcontent, hfile⟩ | ⟨l, hl⟩
    · exact .inl hdir
    · refine .inr (.inl ⟨content, ?_, hfile⟩)
      cases e with
      | makeFile dir name content' =>
        obtain rfl : content' = content := by simpa [Edit.content] using hcontent
        exact he.2
      | write l content' =>
        obtain rfl : content' = content := by simpa [Edit.content] using hcontent
        exact he.2
      | _ => exact absurd hcontent (by simp [Edit.content])
    · exact ih hl

/-- **No link is made.** -/
theorem noLinks (h : Edited s t t') (hfree : t.NoLinks []) : t'.NoLinks [] := by
  intro loc n hn
  rcases h.sources hn with rfl | ⟨content, -, rfl⟩ | ⟨l, hl⟩
  · rfl
  · rfl
  · exact hfree l n hl

end Edited

end

end FileTree
