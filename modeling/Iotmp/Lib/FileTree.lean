/-
A tree of directories, files and symbolic links, and the resolution of paths in it.

- `FileTree α β`: the entries below the root, each at its location, the list of names on the way down. Every entry lies
  in a directory. Names are of type `α`, the content of a file of type `β`.
- `walk`: the resolution of the components of a path from a location on, through symbolic links, with a limit on their
  number. A final separator of a path is a final `here`: both ask for a directory. It finds a location, or the place
  where a last component is missing, or fails. It also says how many links may still be followed. `walkEnd`: where it
  ends, in a directory or at something that is none.
- `walk_append`: the resolution of a path goes on where that of its first part ended.
- `walk_within`, `walk_mono`: a walk over link-free ground stays there; a walk that finds a location finds it in any
  tree with more entries.
- `walk_ne_loop`, `walk_single_found`, `walk_names`: in a tree without links, each component leads where it says.
- `add`, `write`, `remove`, `clear`: one new entry, another content, one entry less, an emptied directory.
-/
import Mathlib.Tactic

namespace FileTree

/-- a component of a path -/
inductive Step (α : Type*) where
  | here
  | up
  | into (a : α)
deriving DecidableEq, Repr

/-- what a symbolic link holds: a path, absolute or from the directory of the link -/
structure Target (α : Type*) where
  absolute : Bool := false
  steps : List (Step α)
deriving DecidableEq, Repr

inductive Node (α β : Type*) where
  | directory
  | file (content : β)
  | link (target : Target α)
  | special
deriving DecidableEq, Repr

def Node.isDirectory {α β : Type*} : Node α β → Bool
  | .directory => true
  | _ => false

def Node.isFile {α β : Type*} : Node α β → Bool
  | .file _ => true
  | _ => false

def Node.isLink {α β : Type*} : Node α β → Bool
  | .link _ => true
  | _ => false

/-- the newest entry at a location; the root is a directory -/
def nodeIn {α β : Type*} [DecidableEq α] (entries : List (List α × Node α β)) (loc : List α) : Option (Node α β) :=
  if loc = [] then some .directory else (entries.find? fun e => e.1 = loc).map Prod.snd

end FileTree

open FileTree in
structure FileTree (α β : Type*) [DecidableEq α] where
  entries : List (List α × Node α β)
  closed : ∀ e ∈ entries, (nodeIn entries e.1.dropLast).any Node.isDirectory = true

namespace FileTree

variable {α β : Type*} [DecidableEq α]

def node (t : FileTree α β) (loc : List α) : Option (Node α β) := nodeIn t.entries loc

def isDirectory (t : FileTree α β) (loc : List α) : Bool := (t.node loc).any Node.isDirectory

def isFile (t : FileTree α β) (loc : List α) : Bool := (t.node loc).any Node.isFile

/-- there is something in the directory -/
def hasChildren (t : FileTree α β) (loc : List α) : Bool :=
  t.entries.any fun e => decide (e.1 ≠ []) && decide (e.1.dropLast = loc)

/-- the names in a directory -/
def children (t : FileTree α β) (loc : List α) : List α :=
  (t.entries.filterMap fun e => if e.1 ≠ [] ∧ e.1.dropLast = loc then e.1.getLast? else none).dedup

/-! ## Locations -/

@[simp] theorem node_root (t : FileTree α β) : t.node [] = some .directory := rfl

@[simp] theorem isDirectory_root (t : FileTree α β) : t.isDirectory [] = true := rfl

theorem isDirectory_iff (t : FileTree α β) (loc : List α) :
    t.isDirectory loc = true ↔ t.node loc = some .directory := by
  rw [isDirectory]
  rcases t.node loc with _ | n
  · simp
  · cases n <;> simp [Node.isDirectory]

theorem isFile_iff (t : FileTree α β) (loc : List α) :
    t.isFile loc = true ↔ ∃ content, t.node loc = some (.file content) := by
  rw [isFile]
  rcases t.node loc with _ | n
  · simp
  · cases n <;> simp [Node.isFile]

theorem node_eq_some_mem {t : FileTree α β} {loc : List α} {n : Node α β} (h : t.node loc = some n) (hl : loc ≠ []) :
    (loc, n) ∈ t.entries := by
  rw [node, nodeIn, if_neg hl] at h
  obtain ⟨e, he, rfl⟩ := Option.map_eq_some_iff.1 h
  have hloc : e.1 = loc := by simpa using List.find?_some he
  rw [← hloc]
  exact List.mem_of_find?_eq_some he

/-- what contains an entry is a directory -/
theorem isDirectory_of_node {t : FileTree α β} {loc : List α} {a : α} (h : t.node (loc ++ [a]) ≠ none) :
    t.isDirectory loc = true := by
  obtain ⟨n, hn⟩ := Option.ne_none_iff_exists'.1 h
  have hmem := node_eq_some_mem hn (by simp)
  simpa [isDirectory, node] using t.closed _ hmem

theorem node_none_append {t : FileTree α β} {loc : List α} (h : t.node loc = none) (more : List α) :
    t.node (loc ++ more) = none := by
  induction more using List.reverseRecOn with
  | nil => simpa using h
  | append_singleton more a ih =>
    by_contra hne
    rw [← List.append_assoc] at hne
    have hd := isDirectory_of_node hne
    rw [isDirectory, ih] at hd
    exact absurd hd (by simp)

/-- the locations on the way to an entry are directories -/
theorem isDirectory_above {t : FileTree α β} {loc more : List α} (h : t.node (loc ++ more) ≠ none)
    (hm : more ≠ []) : t.isDirectory loc = true := by
  rcases more with _ | ⟨a, more⟩
  · exact absurd rfl hm
  · apply isDirectory_of_node (a := a)
    intro hnone
    apply h
    have := node_none_append hnone more
    simpa using this

/-! ## Resolution -/

inductive Outcome (α : Type*) where
  | found (loc : List α)
  /-- the directory exists, the last component in it does not -/
  | missing (dir : List α) (name : α)
  | notFound
  /-- too many symbolic links -/
  | loop
deriving DecidableEq, Repr

/-- a walk up to the next symbolic link -/
inductive Advance (α : Type*) where
  | stop (outcome : Outcome α)
  | follow (dir : List α) (target : Target α) (rest : List (Step α))

def advance (t : FileTree α β) : List α → List (Step α) → Advance α
  | cur, [] => .stop (.found cur)
  | cur, s :: rest =>
    if !t.isDirectory cur then .stop .notFound
    else
      match s with
      | .here => advance t cur rest
      | .up => advance t cur.dropLast rest
      | .into a =>
        match t.node (cur ++ [a]) with
        | none => .stop (if rest.isEmpty then .missing cur a else .notFound)
        | some (.link target) => .follow cur target rest
        | some _ => advance t (cur ++ [a]) rest

/-- where the walk through a link starts -/
def Target.start (target : Target α) (dir : List α) : List α := if target.absolute then [] else dir

def walk (t : FileTree α β) : ℕ → List α → List (Step α) → Outcome α × ℕ
  | links, cur, steps =>
    match t.advance cur steps with
    | .stop outcome => (outcome, links)
    | .follow dir target rest =>
      match links with
      | 0 => (.loop, 0)
      | links + 1 => walk t links (target.start dir) (target.steps ++ rest)

/-- where a walk up to the next symbolic link ends -/
def advanceEnd (t : FileTree α β) : List α → List (Step α) → List α
  | cur, [] => cur
  | cur, s :: rest =>
    if !t.isDirectory cur then cur
    else
      match s with
      | .here => advanceEnd t cur rest
      | .up => advanceEnd t cur.dropLast rest
      | .into a =>
        match t.node (cur ++ [a]) with
        | none => cur
        | some (.link _) => cur
        | some _ => advanceEnd t (cur ++ [a]) rest

/-- where a walk ends, whether it has found something or not -/
def walkEnd (t : FileTree α β) : ℕ → List α → List (Step α) → List α
  | links, cur, steps =>
    match t.advance cur steps with
    | .stop _ => t.advanceEnd cur steps
    | .follow dir target rest =>
      match links with
      | 0 => dir
      | links + 1 => walkEnd t links (target.start dir) (target.steps ++ rest)

/-! ## The resolution of a path in two parts -/

/-- how a walk goes on after its first part -/
def Outcome.andThen (k : ℕ) (next : List α → Outcome α × ℕ) : Outcome α → Outcome α × ℕ
  | .found loc => next loc
  | .missing _ _ => (.notFound, k)
  | .notFound => (.notFound, k)
  | .loop => (.loop, k)

theorem advance_cons (t : FileTree α β) (cur : List α) (s : Step α) (rest : List (Step α)) :
    t.advance cur (s :: rest) =
      if !t.isDirectory cur then .stop .notFound
      else
        match s with
        | .here => t.advance cur rest
        | .up => t.advance cur.dropLast rest
        | .into a =>
          match t.node (cur ++ [a]) with
          | none => .stop (if rest.isEmpty then .missing cur a else .notFound)
          | some (.link target) => .follow cur target rest
          | some _ => t.advance (cur ++ [a]) rest := rfl

theorem walk_of_stop {t : FileTree α β} {cur : List α} {steps : List (Step α)} {o : Outcome α}
    (h : t.advance cur steps = .stop o) (links : ℕ) : t.walk links cur steps = (o, links) := by
  rw [walk, h]

theorem walk_of_follow {t : FileTree α β} {cur : List α} {steps : List (Step α)} {dir : List α}
    {target : Target α} {rest : List (Step α)} (h : t.advance cur steps = .follow dir target rest) (links : ℕ) :
    t.walk (links + 1) cur steps =
      t.walk links (target.start dir) (target.steps ++ rest) := by
  rw [walk, h]

theorem walk_of_follow_zero {t : FileTree α β} {cur : List α} {steps : List (Step α)} {dir : List α}
    {target : Target α} {rest : List (Step α)} (h : t.advance cur steps = .follow dir target rest) :
    t.walk 0 cur steps = (.loop, 0) := by
  rw [walk, h]

theorem walk_congr {t : FileTree α β} {cur cur' : List α} {steps steps' : List (Step α)}
    (h : t.advance cur steps = t.advance cur' steps') (links : ℕ) :
    t.walk links cur steps = t.walk links cur' steps' := by
  rw [walk, h, walk]

theorem advance_append (t : FileTree α β) (cur : List α) (first second : List (Step α)) (hs : second ≠ []) :
    t.advance cur (first ++ second) =
      match t.advance cur first with
      | .stop (.found loc) => t.advance loc second
      | .stop .loop => .stop .loop
      | .stop _ => .stop .notFound
      | .follow dir target rest => .follow dir target (rest ++ second) := by
  induction first generalizing cur with
  | nil => rfl
  | cons s first ih =>
    rw [List.cons_append, advance_cons, advance_cons]
    rcases t.isDirectory cur with _ | _
    · rfl
    · cases s with
      | here => exact ih cur
      | up => exact ih cur.dropLast
      | into a =>
        simp only [Bool.not_true, Bool.false_eq_true, if_false]
        rcases t.node (cur ++ [a]) with _ | n
        · have hne : (first ++ second).isEmpty = false := by simp [hs]
          rcases first.isEmpty with _ | _ <;> simp [hne]
        · cases n with
          | link target => rfl
          | _ => exact ih (cur ++ [a])

/-- **The walk through a path goes on where the walk through its first part ended.** -/
theorem walk_append (t : FileTree α β) (links : ℕ) (cur : List α) (first second : List (Step α)) (hs : second ≠ []) :
    t.walk links cur (first ++ second) =
      (t.walk links cur first).1.andThen (t.walk links cur first).2
        fun loc => t.walk (t.walk links cur first).2 loc second := by
  induction links generalizing cur first with
  | zero =>
    have happ := advance_append t cur first second hs
    rcases hf : t.advance cur first with o | ⟨dir, target, rest⟩ <;> rw [hf] at happ
    · rw [walk_of_stop hf]
      cases o with
      | found loc => exact walk_congr happ 0
      | _ => exact walk_of_stop happ 0
    · rw [walk_of_follow_zero hf, walk_of_follow_zero happ]
      rfl
  | succ links ih =>
    have happ := advance_append t cur first second hs
    rcases hf : t.advance cur first with o | ⟨dir, target, rest⟩ <;> rw [hf] at happ
    · rw [walk_of_stop hf]
      cases o with
      | found loc => exact walk_congr happ (links + 1)
      | _ => exact walk_of_stop happ (links + 1)
    · rw [walk_of_follow hf, walk_of_follow happ, ← List.append_assoc]
      exact ih (target.start dir) (target.steps ++ rest)

/-- a walk goes on from the location its first part found -/
theorem walk_of_found {t : FileTree α β} {links k : ℕ} {cur loc : List α} {first : List (Step α)}
    (h : t.walk links cur first = (.found loc, k)) (second : List (Step α)) :
    t.walk links cur (first ++ second) = t.walk k loc second := by
  rcases second with _ | ⟨s, second⟩
  · rw [List.append_nil, h]
    exact (walk_of_stop rfl k).symm
  · rw [walk_append t links cur first (s :: second) (by simp), h]
    rfl

/-- a walk whose first part finds nothing finds nothing, and misses no name -/
theorem walk_of_not_found {t : FileTree α β} {links : ℕ} {cur : List α} {first second : List (Step α)}
    (h : ∀ loc, (t.walk links cur first).1 ≠ .found loc) (hs : second ≠ []) :
    (t.walk links cur (first ++ second)).1 = .notFound ∨ (t.walk links cur (first ++ second)).1 = .loop := by
  rw [walk_append t links cur first second hs]
  rcases hw : (t.walk links cur first).1 with loc | _ | _ | _
  · exact absurd hw (h loc)
  · exact .inl rfl
  · exact .inl rfl
  · exact .inr rfl

/-- what a first part does not find, the whole does not find -/
theorem walk_ne_found {t : FileTree α β} {links : ℕ} {cur : List α} {first : List (Step α)}
    (h : ∀ loc, (t.walk links cur first).1 ≠ .found loc) (second : List (Step α)) (loc : List α) :
    (t.walk links cur (first ++ second)).1 ≠ .found loc := by
  by_cases hs : second = []
  · rw [hs, List.append_nil]
    exact h loc
  · rcases walk_of_not_found h hs with hw | hw <;> simp [hw]

/-- only a last component that is a name can be missing -/
theorem walk_ne_missing {t : FileTree α β} {links : ℕ} {cur : List α} {steps : List (Step α)}
    (h : ∀ a, steps.getLast? ≠ some (.into a)) (dir : List α) (name : α) :
    (t.walk links cur steps).1 ≠ .missing dir name := by
  rcases List.eq_nil_or_concat steps with rfl | ⟨init, s, rfl⟩
  · rw [walk_of_stop rfl]
    simp
  · rw [List.concat_eq_append] at h ⊢
    rw [walk_append t links cur init [s] (by simp)]
    rcases (t.walk links cur init).1 with loc | _ | _ | _
    · have hlast : ∃ o, t.advance loc [s] = .stop o ∧ o ≠ .missing dir name := by
        rw [advance_cons]
        rcases t.isDirectory loc with _ | _
        · exact ⟨_, rfl, by simp⟩
        · cases s with
          | here => exact ⟨_, rfl, by simp⟩
          | up => exact ⟨_, rfl, by simp⟩
          | into a => exact absurd (by simp) (h a)
      obtain ⟨o, ho, hne⟩ := hlast
      rw [Outcome.andThen, walk_of_stop ho]
      exact hne
    · simp [Outcome.andThen]
    · simp [Outcome.andThen]
    · simp [Outcome.andThen]

/-! ## Where a walk ends -/

/-- there is an entry, and it is no link -/
def Solid (t : FileTree α β) (loc : List α) : Prop := ∃ n, t.node loc = some n ∧ n.isLink = false

theorem solid_of_isDirectory {t : FileTree α β} {loc : List α} (h : t.isDirectory loc = true) : t.Solid loc :=
  ⟨.directory, (isDirectory_iff t loc).1 h, rfl⟩

theorem isDirectory_dropLast {t : FileTree α β} {loc : List α} (h : t.isDirectory loc = true) :
    t.isDirectory loc.dropLast = true := by
  rcases List.eq_nil_or_concat loc with rfl | ⟨init, a, rfl⟩
  · exact h
  · rw [List.concat_eq_append, List.dropLast_concat]
    apply isDirectory_of_node (a := a)
    rw [← List.concat_eq_append, (isDirectory_iff t _).1 h]
    simp

/-- what the outcome of a walk says about the tree -/
def Outcome.Sound (t : FileTree α β) : Outcome α → Prop
  | .found loc => t.Solid loc
  | .missing dir name => t.isDirectory dir = true ∧ t.node (dir ++ [name]) = none
  | _ => True

theorem advance_sound (t : FileTree α β) (cur : List α) (steps : List (Step α))
    (hcur : steps = [] → t.Solid cur) :
    match t.advance cur steps with
    | .stop o => o.Sound t
    | .follow dir _ _ => t.isDirectory dir = true := by
  induction steps generalizing cur with
  | nil =>
    exact hcur rfl
  | cons s rest ih =>
    rw [advance_cons]
    rcases hd : t.isDirectory cur with _ | _
    · trivial
    · simp only [Bool.not_true, Bool.false_eq_true, if_false]
      cases s with
      | here => exact ih cur fun _ => solid_of_isDirectory hd
      | up => exact ih cur.dropLast fun _ => solid_of_isDirectory (isDirectory_dropLast hd)
      | into a =>
        simp only
        rcases hn : t.node (cur ++ [a]) with _ | n
        · simp only
          split_ifs
          · exact ⟨hd, hn⟩
          · trivial
        · cases n with
          | link target => exact hd
          | _ => exact ih (cur ++ [a]) fun _ => ⟨_, hn, rfl⟩

/-- **A walk ends at an entry that is no link, or finds a last component missing in a directory, or fails.** -/
theorem walk_sound (t : FileTree α β) (links : ℕ) (cur : List α) (steps : List (Step α))
    (hcur : steps = [] → t.Solid cur) : (t.walk links cur steps).1.Sound t := by
  induction links generalizing cur steps with
  | zero =>
    have hadv := advance_sound t cur steps hcur
    rcases hf : t.advance cur steps with o | ⟨dir, target, rest⟩ <;> rw [hf] at hadv
    · rw [walk_of_stop hf]
      exact hadv
    · rw [walk_of_follow_zero hf]
      trivial
  | succ links ih =>
    have hadv := advance_sound t cur steps hcur
    rcases hf : t.advance cur steps with o | ⟨dir, target, rest⟩ <;> rw [hf] at hadv
    · rw [walk_of_stop hf]
      exact hadv
    · rw [walk_of_follow hf]
      apply ih
      intro _
      rw [Target.start]
      split_ifs
      · exact solid_of_isDirectory rfl
      · exact solid_of_isDirectory hadv

/-- what lies on the way to an entry that is no link is no link -/
theorem Solid.of_append {t : FileTree α β} {loc more : List α} (h : t.Solid (loc ++ more)) : t.Solid loc := by
  by_cases hm : more = []
  · rwa [hm, List.append_nil] at h
  · obtain ⟨n, hn, -⟩ := h
    exact solid_of_isDirectory (isDirectory_above (by rw [hn]; simp) hm)

theorem walk_into_solid {t : FileTree α β} {loc : List α} {a : α} (h : t.Solid (loc ++ [a])) (links : ℕ) :
    t.walk links loc [.into a] = (.found (loc ++ [a]), links) := by
  obtain ⟨n, hn, hlink⟩ := h
  have hd : t.isDirectory loc = true := isDirectory_of_node (by rw [hn]; simp)
  apply walk_of_stop
  rw [advance_cons, hd]
  cases n with
  | link target => exact absurd hlink (by simp [Node.isLink])
  | _ => simp [hn, advance]

/-! ## Walks in a tree with more entries -/

/-- every entry of `t` is in `t'` -/
def Extends (t t' : FileTree α β) : Prop := ∀ loc n, t.node loc = some n → t'.node loc = some n

theorem Extends.isDirectory {t t' : FileTree α β} (h : Extends t t') {loc : List α} (hd : t.isDirectory loc = true) :
    t'.isDirectory loc = true :=
  (isDirectory_iff t' loc).2 (h loc _ ((isDirectory_iff t loc).1 hd))

theorem advance_mono {t t' : FileTree α β} (h : Extends t t') (cur : List α) (steps : List (Step α)) :
    (∀ loc, t.advance cur steps = .stop (.found loc) → t'.advance cur steps = .stop (.found loc)) ∧
      ∀ dir target rest, t.advance cur steps = .follow dir target rest →
        t'.advance cur steps = .follow dir target rest := by
  induction steps generalizing cur with
  | nil => exact ⟨fun loc hl => hl, fun dir target rest hf => hf⟩
  | cons s rest ih =>
    rw [advance_cons, advance_cons]
    rcases hd : t.isDirectory cur with _ | _
    · simp
    · rw [h.isDirectory hd]
      simp only [Bool.not_true, Bool.false_eq_true, if_false]
      cases s with
      | here => exact ih cur
      | up => exact ih cur.dropLast
      | into a =>
        simp only
        rcases hn : t.node (cur ++ [a]) with _ | n
        · simp only
          split_ifs <;> simp
        · rw [h _ _ hn]
          cases n with
          | link target => exact ⟨fun loc hl => absurd hl (by simp), fun dir target rest hf => hf⟩
          | _ => exact ih (cur ++ [a])

/-- **What a walk finds, it finds with more entries around too.** -/
theorem walk_mono {t t' : FileTree α β} (h : Extends t t') {links : ℕ} {cur : List α}
    {steps : List (Step α)} {loc : List α} (hw : (t.walk links cur steps).1 = .found loc) :
    t'.walk links cur steps = t.walk links cur steps := by
  induction links generalizing cur steps with
  | zero =>
    obtain ⟨hfound, hfollow⟩ := advance_mono h cur steps
    rcases hf : t.advance cur steps with o | ⟨dir, target, rest⟩
    · rw [walk_of_stop hf] at hw ⊢
      obtain rfl : o = .found loc := hw
      exact walk_of_stop (hfound loc hf) 0
    · rw [walk_of_follow_zero hf] at hw
      exact absurd hw (by simp)
  | succ links ih =>
    obtain ⟨hfound, hfollow⟩ := advance_mono h cur steps
    rcases hf : t.advance cur steps with o | ⟨dir, target, rest⟩
    · rw [walk_of_stop hf] at hw ⊢
      obtain rfl : o = .found loc := hw
      exact walk_of_stop (hfound loc hf) (links + 1)
    · rw [walk_of_follow hf] at hw ⊢
      rw [walk_of_follow (hfollow dir target rest hf)]
      exact ih hw

/-! ## Walks on link-free ground -/

/-- the location an outcome is about lies below `base` -/
def Outcome.Within (base : List α) : Outcome α → Prop
  | .found loc => base <+: loc
  | .missing dir _ => base <+: dir
  | _ => True

/-- there is no link at `base` or below -/
def NoLinks (t : FileTree α β) (base : List α) : Prop := ∀ more n, t.node (base ++ more) = some n → n.isLink = false

omit [DecidableEq α] in
theorem Outcome.Within.mono {base base' : List α} (h : base <+: base') {o : Outcome α} (ho : o.Within base') :
    o.Within base := by
  cases o with
  | found loc => exact h.trans ho
  | missing dir name => exact h.trans ho
  | _ => trivial

theorem advance_within {t : FileTree α β} {base : List α} (hfree : t.NoLinks base) (cur : List α) (hcur : base <+: cur)
    (steps : List (Step α)) (hup : Step.up ∉ steps) : ∃ o, t.advance cur steps = .stop o ∧ o.Within base := by
  induction steps generalizing cur with
  | nil => exact ⟨_, rfl, hcur⟩
  | cons s rest ih =>
    obtain ⟨hs, hrest⟩ : Step.up ≠ s ∧ Step.up ∉ rest := by simpa using hup
    rw [advance_cons]
    rcases t.isDirectory cur with _ | _
    · exact ⟨_, rfl, trivial⟩
    · simp only [Bool.not_true, Bool.false_eq_true, if_false]
      cases s with
      | here => exact ih cur hcur hrest
      | up => exact absurd rfl hs
      | into a =>
        simp only
        rcases hn : t.node (cur ++ [a]) with _ | n
        · simp only
          split_ifs
          · exact ⟨_, rfl, hcur⟩
          · exact ⟨_, rfl, trivial⟩
        · obtain ⟨more, rfl⟩ := hcur
          have hlink : n.isLink = false := hfree (more ++ [a]) n (by rwa [← List.append_assoc])
          have hnext : base <+: base ++ more ++ [a] := by
            rw [List.append_assoc]
            exact List.prefix_append _ _
          cases n with
          | link target => exact absurd hlink (by simp [Node.isLink])
          | _ => exact ih (base ++ more ++ [a]) hnext hrest

/-- **A walk into a link-free directory that does not go up stays below where it started.** -/
theorem walk_within {t : FileTree α β} {loc : List α} {a : α} (hfree : t.NoLinks (loc ++ [a])) (links : ℕ)
    (rest : List (Step α)) (hup : Step.up ∉ rest) : (t.walk links loc (.into a :: rest)).1.Within loc := by
  have hadv : ∃ o, t.advance loc (.into a :: rest) = .stop o ∧ o.Within loc := by
    rw [advance_cons]
    rcases t.isDirectory loc with _ | _
    · exact ⟨_, rfl, trivial⟩
    · simp only [Bool.not_true, Bool.false_eq_true, if_false]
      rcases hn : t.node (loc ++ [a]) with _ | n
      · simp only
        split_ifs
        · exact ⟨_, rfl, List.prefix_refl _⟩
        · exact ⟨_, rfl, trivial⟩
      · have hlink : n.isLink = false := hfree [] n (by simpa using hn)
        obtain ⟨o, ho, hw⟩ := advance_within hfree (loc ++ [a]) (List.prefix_refl _) rest hup
        have hw' : o.Within loc := hw.mono (List.prefix_append _ _)
        cases n with
        | link target => exact absurd hlink (by simp [Node.isLink])
        | _ => exact ⟨o, ho, hw'⟩
  obtain ⟨o, ho, hw⟩ := hadv
  rw [walk_of_stop ho]
  exact hw

/-! ## Walks in a tree without links -/

theorem noLinks_of_entries {t : FileTree α β} (h : ∀ e ∈ t.entries, e.2.isLink = false) (base : List α) :
    t.NoLinks base := by
  intro more n hn
  by_cases hnil : base ++ more = []
  · rw [hnil, node_root] at hn
    obtain rfl := Option.some.inj hn
    rfl
  · exact h _ (node_eq_some_mem hn hnil)

theorem advance_stops {t : FileTree α β} (hfree : t.NoLinks []) (cur : List α) (steps : List (Step α)) :
    ∃ o, t.advance cur steps = .stop o ∧ o ≠ .loop := by
  induction steps generalizing cur with
  | nil => exact ⟨_, rfl, by simp⟩
  | cons s rest ih =>
    rw [advance_cons]
    rcases t.isDirectory cur with _ | _
    · exact ⟨_, rfl, by simp⟩
    · simp only [Bool.not_true, Bool.false_eq_true, if_false]
      cases s with
      | here => exact ih cur
      | up => exact ih cur.dropLast
      | into a =>
        simp only
        rcases hn : t.node (cur ++ [a]) with _ | n
        · simp only
          split_ifs
          · exact ⟨_, rfl, by simp⟩
          · exact ⟨_, rfl, by simp⟩
        · have hlink : n.isLink = false := hfree (cur ++ [a]) n hn
          cases n with
          | link target => exact absurd hlink (by simp [Node.isLink])
          | _ => exact ih (cur ++ [a])

/-- no link is followed, so the limit on them does not matter -/
theorem walk_ne_loop {t : FileTree α β} (hfree : t.NoLinks []) (links : ℕ) (cur : List α) (steps : List (Step α)) :
    (t.walk links cur steps).1 ≠ .loop := by
  obtain ⟨o, ho, hne⟩ := advance_stops hfree cur steps
  rw [walk_of_stop ho]
  exact hne

/-- a walk that does not go up stays below a location it has reached -/
theorem walk_stays {t : FileTree α β} (hfree : t.NoLinks []) (links : ℕ) {cur base : List α} (hcur : base <+: cur)
    (steps : List (Step α)) (hup : Step.up ∉ steps) : (t.walk links cur steps).1.Within base := by
  have hbase : t.NoLinks base := by
    intro more n hn
    exact hfree (base ++ more) n hn
  obtain ⟨o, ho, hw⟩ := advance_within hbase cur hcur steps hup
  rw [walk_of_stop ho]
  exact hw

/-- only directories have components below them -/
theorem isDirectory_of_walk_found {t : FileTree α β} {links : ℕ} {cur loc : List α} {s : Step α} {rest : List (Step α)}
    (h : (t.walk links cur (s :: rest)).1 = .found loc) : t.isDirectory cur = true := by
  by_contra hd
  have hstop : t.advance cur (s :: rest) = .stop .notFound := by
    rw [advance_cons, if_pos (by simpa using hd)]
  rw [walk_of_stop hstop] at h
  exact absurd h (by simp)

/-- where one component leads -/
def Step.target (s : Step α) (cur : List α) : List α :=
  match s with
  | .here => cur
  | .up => cur.dropLast
  | .into a => cur ++ [a]

theorem walk_single_found {t : FileTree α β} (hfree : t.NoLinks []) {links : ℕ} {cur loc : List α} {s : Step α}
    (h : (t.walk links cur [s]).1 = .found loc) : loc = s.target cur := by
  have hd := isDirectory_of_walk_found h
  have hcons := advance_cons t cur s []
  rw [hd] at hcons
  simp only [Bool.not_true, Bool.false_eq_true, if_false] at hcons
  cases s with
  | here =>
    rw [walk_of_stop hcons] at h
    exact (Outcome.found.inj h).symm
  | up =>
    rw [walk_of_stop hcons] at h
    exact (Outcome.found.inj h).symm
  | into a =>
    simp only at hcons
    rcases hn : t.node (cur ++ [a]) with _ | n <;> rw [hn] at hcons
    · rw [walk_of_stop hcons] at h
      exact absurd h (by simp)
    · have hlink : n.isLink = false := hfree (cur ++ [a]) n hn
      cases n with
      | link target => exact absurd hlink (by simp [Node.isLink])
      | _ =>
        rw [walk_of_stop hcons] at h
        exact (Outcome.found.inj h).symm

/-- the way down to an entry that is no link -/
theorem walk_names {t : FileTree α β} {cur names : List α} (h : t.Solid (cur ++ names)) (links : ℕ) :
    t.walk links cur (names.map .into) = (.found (cur ++ names), links) := by
  induction names generalizing cur with
  | nil =>
    rw [List.append_nil]
    exact walk_of_stop rfl links
  | cons a names ih =>
    have hsplit : cur ++ a :: names = cur ++ [a] ++ names := by simp
    rw [hsplit] at h ⊢
    rw [List.map_cons, ← List.singleton_append, walk_of_found (walk_into_solid h.of_append links)]
    exact ih h

/-! ## Changes -/

theorem nodeIn_cons (loc : List α) (n : Node α β) (entries : List (List α × Node α β)) (loc' : List α) (hl : loc ≠ []) :
    nodeIn ((loc, n) :: entries) loc' = if loc' = loc then some n else nodeIn entries loc' := by
  rw [nodeIn, nodeIn]
  split_ifs with h h' h'
  · exact absurd (h'.symm.trans h) hl
  · rfl
  · simp [h']
  · simp [Ne.symm h']

/-- a new entry in a directory where there is none of that name -/
def add (t : FileTree α β) (dir : List α) (name : α) (n : Node α β) : FileTree α β :=
  if h : t.isDirectory dir = true ∧ t.node (dir ++ [name]) = none then
    { entries := (dir ++ [name], n) :: t.entries
      closed := by
        intro e he
        rw [nodeIn_cons _ _ _ _ (by simp)]
        rcases List.mem_cons.1 he with rfl | he
        · simpa [isDirectory, node] using h.1
        · have hold := t.closed e he
          split_ifs with heq
          · -- nothing lies below the new entry
            rw [heq] at hold
            change (t.node (dir ++ [name])).any Node.isDirectory = true at hold
            rw [h.2] at hold
            exact absurd hold (by simp)
          · exact hold }
  else t

/-- another content for a file -/
def write (t : FileTree α β) (loc : List α) (content : β) : FileTree α β :=
  if h : t.isFile loc = true then
    { entries := (loc, .file content) :: t.entries
      closed := by
        obtain ⟨old, hold⟩ := (isFile_iff t loc).1 h
        have hne : loc ≠ [] := by
          rintro rfl
          simp at hold
        intro e he
        rw [nodeIn_cons _ _ _ _ hne]
        have hdir : (nodeIn t.entries e.1.dropLast).any Node.isDirectory = true := by
          rcases List.mem_cons.1 he with rfl | he
          · rcases List.eq_nil_or_concat loc with rfl | ⟨init, a, rfl⟩
            · exact absurd rfl hne
            · have hentry : t.node (init ++ [a]) ≠ none := by
                rw [← List.concat_eq_append, hold]
                simp
              simpa [isDirectory, node] using isDirectory_of_node hentry
          · exact t.closed e he
        split_ifs with heq
        · -- nothing lies below a file
          rw [heq] at hdir
          change (t.node loc).any Node.isDirectory = true at hdir
          rw [hold] at hdir
          exact absurd hdir (by simp [Node.isDirectory])
        · exact hdir }
  else t

theorem nodeIn_filter (keep : List α → Bool) (entries : List (List α × Node α β)) {loc : List α} (hl : loc ≠ []) :
    nodeIn (entries.filter fun e => keep e.1) loc = if keep loc then nodeIn entries loc else none := by
  rw [nodeIn, nodeIn, if_neg hl, if_neg hl, List.find?_filter]
  have hcongr : ∀ e : List α × Node α β,
      (keep e.1 && decide (e.1 = loc)) = (keep loc && decide (e.1 = loc)) := by
    intro e
    by_cases h : e.1 = loc
    · rw [h]
    · simp [h]
  rcases hk : keep loc with _ | _
  · simp [hcongr, hk]
  · simp [hcongr, hk]

/-- the entries at the locations to keep -/
def restrict (t : FileTree α β) (keep : List α → Bool)
    (h : ∀ e ∈ t.entries, keep e.1 = true → e.1.dropLast ≠ [] → keep e.1.dropLast = true) : FileTree α β where
  entries := t.entries.filter fun e => keep e.1
  closed := by
    intro e he
    obtain ⟨he, hk⟩ := List.mem_filter.1 he
    by_cases hl : e.1.dropLast = []
    · rw [hl]
      rfl
    · rw [nodeIn_filter keep _ hl, if_pos (h e he hk hl)]
      exact t.closed e he

theorem node_restrict (t : FileTree α β) (keep : List α → Bool)
    (h : ∀ e ∈ t.entries, keep e.1 = true → e.1.dropLast ≠ [] → keep e.1.dropLast = true) {loc : List α}
    (hl : loc ≠ []) : (t.restrict keep h).node loc = if keep loc then t.node loc else none :=
  nodeIn_filter keep t.entries hl

/-- an entry with nothing below it is taken away -/
def remove (t : FileTree α β) (loc : List α) : FileTree α β :=
  if h : t.hasChildren loc = false then
    t.restrict (fun l => decide (l ≠ loc)) (by
      intro e he _ hl
      simp only [decide_eq_true_eq]
      rintro rfl
      rw [hasChildren, List.any_eq_false] at h
      have hne : e.1 ≠ [] := by
        intro hnil
        rw [hnil] at hl
        exact hl rfl
      exact h e he (by simp [hne]))
  else t

/-- everything below a location is taken away -/
def clear (t : FileTree α β) (loc : List α) : FileTree α β :=
  t.restrict (fun l => decide (¬ (loc <+: l ∧ l ≠ loc))) (by
    intro e _ hk _
    simp only [decide_eq_true_eq, not_and, not_not] at hk ⊢
    intro hpre
    rcases List.eq_nil_or_concat e.1 with hnil | ⟨init, a, hinit⟩
    · rw [hnil] at hpre ⊢
      exact (List.prefix_nil.1 hpre).symm
    · rw [List.concat_eq_append] at hinit
      rw [hinit, List.dropLast_concat] at hpre ⊢
      have heq := hk (by rw [hinit]; exact hpre.trans (List.prefix_append _ _))
      rw [hinit] at heq
      have := hpre.length_le
      rw [← heq] at this
      simp at this)

/-! ## What is at a location after a change -/

theorem node_add {t : FileTree α β} {dir : List α} {name : α} (hd : t.isDirectory dir = true)
    (hn : t.node (dir ++ [name]) = none) (n : Node α β) (loc : List α) :
    (t.add dir name n).node loc = if loc = dir ++ [name] then some n else t.node loc := by
  rw [add, dif_pos ⟨hd, hn⟩]
  exact nodeIn_cons _ _ _ _ (by simp)

theorem extends_refl (t : FileTree α β) : Extends t t := fun _ _ h => h

theorem extends_add {t : FileTree α β} {dir : List α} {name : α} (hn : t.node (dir ++ [name]) = none) (n : Node α β) :
    Extends t (t.add dir name n) := by
  rcases hd : t.isDirectory dir with _ | _
  · rw [add, dif_neg (by simp [hd])]
    exact extends_refl t
  · intro loc m hm
    rw [node_add hd hn, if_neg]
    · exact hm
    · rintro rfl
      exact absurd (hn.symm.trans hm) (by simp)

/-- a new entry that is no link leaves link-free ground link-free -/
theorem NoLinks.add {t : FileTree α β} {base : List α} (h : t.NoLinks base) (dir : List α) (name : α) {n : Node α β}
    (hlink : n.isLink = false) : (t.add dir name n).NoLinks base := by
  intro more m hm
  by_cases hd : t.isDirectory dir = true ∧ t.node (dir ++ [name]) = none
  · rw [node_add hd.1 hd.2] at hm
    split_ifs at hm
    · obtain rfl := Option.some.inj hm
      exact hlink
    · exact h more m hm
  · rw [FileTree.add, dif_neg hd] at hm
    exact h more m hm

theorem node_clear_below {t : FileTree α β} {loc more : List α} (hm : more ≠ []) :
    (t.clear loc).node (loc ++ more) = none := by
  rw [clear, node_restrict _ _ _ (by simp [hm])]
  simp [hm]

/-- a directory that is not empty has an entry -/
theorem exists_child {t : FileTree α β} {loc : List α} (h : t.hasChildren loc = true) :
    ∃ a, t.node (loc ++ [a]) ≠ none := by
  obtain ⟨e, he, hp⟩ := List.any_eq_true.1 h
  simp only [Bool.and_eq_true, decide_eq_true_eq] at hp
  rcases List.eq_nil_or_concat e.1 with hnil | ⟨init, a, hinit⟩
  · exact absurd hnil hp.1
  · rw [List.concat_eq_append] at hinit
    have hloc : init = loc := by rw [← hp.2, hinit, List.dropLast_concat]
    refine ⟨a, ?_⟩
    rw [← hloc, ← hinit, node, nodeIn, if_neg hp.1]
    simp only [ne_eq, Option.map_eq_none_iff, List.find?_eq_none, not_forall]
    exact ⟨e, he, by simp⟩

/-- an empty directory is cleared already -/
theorem clear_of_no_children {t : FileTree α β} {loc : List α} (h : t.hasChildren loc = false) : t.clear loc = t := by
  have hkeep : ∀ e ∈ t.entries, ¬ (loc <+: e.1 ∧ e.1 ≠ loc) := by
    rintro e he ⟨⟨more, hmore⟩, hne⟩
    rcases more with _ | ⟨a, more⟩
    · rw [List.append_nil] at hmore
      exact hne hmore.symm
    · have hnode : t.node (loc ++ [a]) ≠ none := by
        intro hnone
        have hbelow := node_none_append hnone more
        rw [List.append_assoc, List.singleton_append, hmore, node, nodeIn, if_neg (by simp [← hmore]),
          Option.map_eq_none_iff, List.find?_eq_none] at hbelow
        exact hbelow e he (by simp)
      obtain ⟨n, hn⟩ := Option.ne_none_iff_exists'.1 hnode
      have hmem := node_eq_some_mem hn (by simp)
      rw [hasChildren, List.any_eq_false] at h
      exact h _ hmem (by simp)
  rw [clear, restrict]
  congr 1
  apply List.filter_eq_self.2
  intro e he
  exact decide_eq_true (hkeep e he)

end FileTree
