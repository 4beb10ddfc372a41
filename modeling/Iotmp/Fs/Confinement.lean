/-
Base-path confinement: where the operations of the filesystem extension open, create, read and truncate.

A path is accepted if the part of it that exists lies in the base directory. The rest is not there yet, and is checked
as a text only: a symbolic link that leads nowhere counts as not there, but the system follows it.

- `Accepted`: what the acceptance of a path gives. What is found at it is inside; what is not found is either `Settled`,
  no directory can be created on the way, or `Growing`, the first missing element is a plain name and everything goes
  below the base.
- `openNew_inside`: the creation of a file, its parents first.
- `confined_iff`: every operation stays inside if and only if the file it stores, where the parent directory is there
  and the file is not, does not go outside.

Witnesses:
- `dangling_link_escapes`: a put through a link in the base directory that leads to a missing file outside creates that
  file.
-/
import Mathlib.Tactic
import Iotmp.Fs.Lookups
import Iotmp.Fs.Filesystem

namespace Iotmp

open FileTree (Outcome Step Node)

/-! ## What acceptance says -/

/-- where the elements that exist end, and what comes after them -/
structure Disk.Frontier (d : Disk) (p : Path) (done todo : List Element) (loc : Location) : Prop where
  elements : p.elements = done ++ todo
  first : d.lookup (.make p.root done false) = .found loc
  anchored : p.root = true ∨ done ≠ []
  next : ∀ e more, todo = e :: more → ∀ l, d.lookup (.make p.root (done ++ [e]) false) ≠ .found l
  absent : ∀ l, d.lookup p ≠ .found l

namespace Disk

variable {d d' : Disk} {p q : Path} {done todo : List Element} {loc : Location}

theorem existsAt_returns_false (h : d.existsAt p = .returns false) (l : Location) : d.lookup p ≠ .found l := by
  intro hl
  rw [existsAt, hl] at h
  exact absurd h (by simp)

theorem leading_returns {root : Bool} {done₀ todo₀ : List Element}
    (h : d.leading root done₀ todo₀ = .returns (done, todo)) :
    done ++ todo = done₀ ++ todo₀ ∧
      ∀ e more, todo = e :: more → d.existsAt (.make root (done ++ [e]) false) = .returns false := by
  induction todo₀ generalizing done₀ with
  | nil =>
    obtain ⟨rfl, rfl⟩ : done₀ = done ∧ [] = todo := by simpa [leading] using h
    simp
  | cons e todo₀ ih =>
    rw [leading] at h
    rcases hx : d.existsAt (.make root (done₀ ++ [e]) false) with (_ | _) | _ <;> rw [hx] at h
    · obtain ⟨rfl, rfl⟩ : done₀ = done ∧ e :: todo₀ = todo := by simpa using h
      refine ⟨rfl, ?_⟩
      rintro e' more hcons
      obtain ⟨rfl, -⟩ := List.cons.inj hcons
      exact hx
    · obtain ⟨happ, hnext⟩ := ih h
      exact ⟨by rw [happ]; simp, hnext⟩
    · exact absurd h (by simp)

theorem canonical_returns (h : d.canonical p = .returns loc) : d.lookup p = .found loc := by
  rw [canonical] at h
  rcases hl : d.lookup p with l | _ | _ | _ <;> rw [hl] at h
  · obtain rfl : l = loc := by simpa using h
    rfl
  all_goals exact absurd h (by simp)

/-- behind a location, only the text of the rest is normalised -/
theorem lexicallyNormal_behind (loc : Location) (hup : dotDot ∉ todo) (trailing : Bool) :
    (Path.make true (loc.map FileName.element ++ todo) trailing).lexicallyNormal.elements =
      loc.map FileName.element ++ todo.filter (· ≠ dot) := by
  have hupAll : dotDot ∉ loc.map FileName.element ++ todo := by
    intro hmem
    rcases List.mem_append.1 hmem with hmem | hmem
    · obtain ⟨a, -, ha⟩ := List.mem_map.1 hmem
      exact a.2.2.2.2.2 (congrArg Subtype.val ha)
    · exact hup hmem
  have hnormal := Path.lexicallyNormal_of_root
    (p := .make true (loc.map FileName.element ++ todo) trailing) rfl hupAll
  have hnames : (loc.map FileName.element).filter (· ≠ dot) = loc.map FileName.element := by
    apply List.filter_eq_self.2
    intro e he
    obtain ⟨a, -, rfl⟩ := List.mem_map.1 he
    simpa using fun ha => a.2.2.2.2.1 (congrArg Subtype.val ha)
  rw [hnormal.2]
  change (loc.map FileName.element ++ todo).filter (· ≠ dot) = _
  rw [List.filter_append, hnames]

theorem frontier_of_leading {c : Path}
    (hc : (match d.leading p.root [] p.elements with
      | .throws => .throws
      | .returns (done, todo) =>
        let first := Path.make p.root done false
        if first.isEmpty then .returns (Path.make false todo p.trailing).lexicallyNormal
        else
          match d.canonical first with
          | .throws => .throws
          | .returns loc =>
            .returns (Path.make true (loc.map FileName.element ++ todo) p.trailing).lexicallyNormal) = Call.returns c)
    (hr : c.root = true) (hup : dotDot ∉ p.elements) (habsent : ∀ l, d.lookup p ≠ .found l) :
    ∃ done todo loc, d.Frontier p done todo loc ∧
      c.elements = loc.map FileName.element ++ todo.filter (· ≠ dot) := by
  rcases hl : d.leading p.root [] p.elements with ⟨done, todo⟩ | _ <;> rw [hl] at hc
  · simp only at hc
    obtain ⟨happ, hnext⟩ := leading_returns hl
    rw [List.nil_append] at happ
    split_ifs at hc with hemp
    · obtain rfl : _ = c := by simpa using hc
      rw [Path.lexicallyNormal_root] at hr
      exact absurd hr (by simp [Path.make])
    · rcases hcan : d.canonical (.make p.root done false) with loc | _ <;> rw [hcan] at hc
      · obtain rfl : _ = c := by simpa using hc
        have hupTodo : dotDot ∉ todo := by
          intro hmem
          apply hup
          rw [← happ]
          exact List.mem_append_right done hmem
        have hanchored : p.root = true ∨ done ≠ [] := by
          rw [Path.isEmpty] at hemp
          rcases hroot : p.root with _ | _
          · right
            rintro rfl
            exact hemp (by simp [Path.make, hroot])
          · exact .inl rfl
        refine ⟨done, todo, loc, ⟨happ.symm, canonical_returns hcan, hanchored, ?_, habsent⟩, ?_⟩
        · intro e more hcons
          exact existsAt_returns_false (hnext e more hcons)
        · exact lexicallyNormal_behind loc hupTodo p.trailing
      · exact absurd hc (by simp)
  · exact absurd hc (by simp)

/-- **The frontier.** Where a path that is not found becomes canonical, its first elements lead to a location, and the
rest is appended as text. -/
theorem weaklyCanonical_frontier {c : Path} (h : d.weaklyCanonical p = .returns c) (hr : c.root = true)
    (hup : dotDot ∉ p.elements) (habsent : ∀ l, d.lookup p ≠ .found l) :
    ∃ done todo loc, d.Frontier p done todo loc ∧
      c.elements = loc.map FileName.element ++ todo.filter (· ≠ dot) := by
  rw [weaklyCanonical] at h
  rcases hlook : d.lookup p with l | _ | _ | _ <;> rw [hlook] at h
  · exact absurd hlook (habsent l)
  · exact frontier_of_leading h hr hup habsent
  · exact frontier_of_leading h hr hup habsent
  · exact absurd h (by simp)

namespace Frontier

variable {b : Location}

/-- past the frontier the first elements are free of NUL bytes: they lead to the location, and their next component
leads nowhere -/
theorem reaches {e : Element} {more : List Element} (h : d.Frontier p done (e :: more) loc) :
    ∃ k, d.Reaches p done loc k ∧ ∀ l, (d.tree.walk k loc [Path.headStep e]).1 ≠ .found l := by
  have hclean : ∀ e' ∈ done, 0 ∉ e'.1 := by
    intro e' he' hz
    apply h.next e more rfl loc
    rw [← h.first, Disk.lookup, Disk.lookup]
    simp only [Path.steps, Path.make, Bool.false_and, Path.cString_of_nul ⟨e', he', hz⟩ [e] false false]
    rfl
  have hwalk := Disk.lookup_eq_walk_of_ne (d := d) (p := .make p.root done false) (by rw [h.first]; simp)
  have hsteps : Path.steps done false = done.map fun e => Path.stepOf e.1 := by
    have happ := Path.steps_append hclean [] false
    simpa [Path.steps, Path.cString] using happ
  rw [h.first] at hwalk
  change _ = (d.tree.walk Disk.maxLinks (d.start p) (Path.steps done false)).1 at hwalk
  rw [hsteps] at hwalk
  have hreach : d.Reaches p done loc (d.tree.walk Disk.maxLinks (d.start p) (done.map fun e => Path.stepOf e.1)).2 :=
    ⟨hclean, by rw [hwalk], h.anchored⟩
  refine ⟨_, hreach, ?_⟩
  intro l hl
  apply h.next e more rfl l
  rw [hreach.lookup (q := .make p.root (done ++ [e]) false) rfl rfl, ← hl]
  congr 2
  change Path.steps [e] false = _
  rw [Path.steps, Path.headStep]
  by_cases hz : 0 ∈ e.1
  · rw [Path.cString_cons_nul hz, if_pos hz]
    split_ifs <;> simp_all
  · rw [if_neg hz, Path.cString, if_neg hz]
    simp [Path.cString]

/-- **The existing part of an accepted path is inside.** -/
theorem base_within (h : d.Frontier p done todo loc) (hb : d.tree.Solid b)
    (hpre : b.map FileName.element <+: loc.map FileName.element ++ todo.filter (· ≠ dot)) : b <+: loc := by
  rcases List.prefix_or_prefix_of_prefix hpre (List.prefix_append _ _) with hin | hout
  · exact (List.prefix_map_iff_of_injective FileName.element_injective).1 hin
  · obtain ⟨more, rfl⟩ := (List.prefix_map_iff_of_injective FileName.element_injective).1 hout
    rcases more with _ | ⟨x, more⟩
    · rw [List.append_nil]
    · exfalso
      -- the base goes on below the location, so the next element is not missing there
      rw [List.map_append, List.map_cons, List.prefix_append_right_inj] at hpre
      have hx : d.tree.Solid (loc ++ [x]) := by
        have hbelow : d.tree.Solid ((loc ++ [x]) ++ more) := by simpa using hb
        exact hbelow.of_append
      have hdir : d.tree.isDirectory loc = true := by
        obtain ⟨n, hn, -⟩ := hx
        exact FileTree.isDirectory_of_node (by rw [hn]; simp)
      rcases todo with _ | ⟨e, todo⟩
      · exact absurd hpre (by simp)
      · obtain ⟨k, -, hnext⟩ := h.reaches
        by_cases he : e = dot
        · apply hnext loc
          have hhere : Path.headStep e = .here := by rw [he]; decide
          have hadv : d.tree.advance loc [.here] = .stop (.found loc) := by
            simp [hdir, FileTree.advance]
          rw [hhere, FileTree.walk_of_stop hadv]
        · rw [List.filter_cons_of_pos (by simpa using he), List.cons_prefix_cons] at hpre
          apply hnext (loc ++ [x])
          have hinto : Path.headStep e = .into x := by
            have hz : 0 ∉ x.element.1 := x.2.2.2.1
            rw [← hpre.1, Path.headStep, if_neg hz]
            exact Path.stepOf_fileName x
          rw [hinto, FileTree.walk_into_solid hx]

end Frontier

/-! ## Paths that may grow -/

/-- the first missing element is a plain name in `loc`, and there is no link below it -/
structure Growing (d : Disk) (p : Path) (done : List Element) (e : Element) (more : List Element) (loc : Location)
    (a : FileName) (k : ℕ) : Prop where
  reaches : d.Reaches p done loc k
  elements : p.elements = done ++ e :: more
  head : Path.headStep e = .into a
  free : d.tree.NoLinks (loc ++ [a])

/-- a path that begins like another one ends before a given element, or has it -/
theorem prefix_append_cons {α : Type*} {xs done : List α} {todo : List α} (h : xs <+: done ++ todo) :
    xs <+: done ∨ ∃ e more, xs = done ++ e :: more ∧ e :: more <+: todo := by
  rcases List.prefix_or_prefix_of_prefix h (List.prefix_append done todo) with hin | ⟨rest, rfl⟩
  · exact .inl hin
  · rw [List.prefix_append_right_inj] at h
    rcases rest with _ | ⟨e, more⟩
    · rw [List.append_nil]
      exact .inl (List.prefix_refl _)
    · exact .inr ⟨e, more, rfl, h⟩

namespace Reaches

variable {k : ℕ}

/-- the first elements lead to their location -/
theorem lookup_first (h : d.Reaches p done loc k) : d.lookup (.make p.root done false) = .found loc := by
  have hsame : (Path.make p.root done false).elements = done ++ [] := (List.append_nil done).symm
  rw [h.lookup (q := .make p.root done false) rfl hsame]
  exact congrArg Prod.fst (FileTree.walk_of_stop rfl k)

/-- nothing is missing on the way to the location that the first elements lead to -/
theorem entry_ne_missing (h : d.Reaches p done loc k) (hr : q.root = p.root) (hp : q.elements <+: done)
    (dir : Location) (name : FileName) : d.entry q ≠ .missing dir name :=
  Disk.entry_ne_missing h.lookup_first hr hp dir name

end Reaches

namespace Growing

variable {e : Element} {more : List Element} {a : FileName} {k : ℕ}

theorem walk_into_within (h : d.Growing p done e more loc a k) {rest : List (Step FileName)} (hup : Step.up ∉ rest) :
    (d.tree.walk k loc (.into a :: rest)).1.Within loc :=
  FileTree.walk_within h.free k rest hup

/-- what is at the path is below where the first elements lead -/
theorem lookup_within (h : d.Growing p done e more loc a k) (hup : ∀ e ∈ p.elements, ¬ dotDot.1 <:+: e.1) :
    (d.lookup p).Within loc := by
  have hmore : Step.up ∉ Path.steps (e :: more) p.trailing := by
    apply Path.up_not_mem_steps
    intro e' he'
    apply hup
    rw [h.elements]
    exact List.mem_append_right done he'
  rw [h.reaches.lookup rfl h.elements]
  obtain ⟨rest, hrest⟩ := Path.steps_cons e more p.trailing
  rw [hrest, h.head] at hmore ⊢
  apply h.walk_into_within
  exact fun hmem => hmore (List.mem_cons_of_mem _ hmem)

/-- an entry that is missing on the way is missing below where the first elements lead -/
theorem entry_within (h : d.Growing p done e more loc a k) (hup : ∀ e ∈ p.elements, ¬ dotDot.1 <:+: e.1)
    (hr : q.root = p.root) (hp : q.elements <+: p.elements) {dir : Location} {name : FileName}
    (hm : d.entry q = .missing dir name) : loc <+: dir := by
  rw [h.elements] at hp
  rcases prefix_append_cons hp with hin | ⟨e', more', hq, hpre⟩
  · exact absurd hm (h.reaches.entry_ne_missing hr hin dir name)
  · obtain ⟨rfl, hmore⟩ := List.cons_prefix_cons.1 hpre
    have hupq : Step.up ∉ (Path.cString (e' :: more') q.trailing).1 := by
      apply Path.up_not_mem_cString
      intro e'' he''
      apply hup
      rw [h.elements]
      exact List.mem_append_right done (hpre.subset he'')
    have hwalk := walk_of_entry_missing hm
    rw [hq, h.reaches.walk_cString hr] at hwalk
    obtain ⟨rest, hrest⟩ := Path.cString_cons_into h.head more' q.trailing
    rw [hrest] at hwalk hupq
    have hrestUp : Step.up ∉ rest := fun hmem => hupq (List.mem_cons_of_mem _ hmem)
    have hwithin := h.walk_into_within hrestUp
    rw [hwalk] at hwithin
    exact hwithin

/-- **The creation of a directory on the way keeps the ground link-free, and is below where the first elements
lead.** -/
theorem createDir (h : d.Growing p done e more loc a k) (hup : ∀ e ∈ p.elements, ¬ dotDot.1 <:+: e.1)
    (hr : q.root = p.root) (hp : q.elements <+: p.elements) :
    (d.createDir q).2.Growing p done e more loc a k ∧
      ∀ l ∈ (d.createDir q).2.touched, l ∈ d.touched ∨ loc <+: l := by
  rcases createDir_cases d q with ⟨dir, name, hm, hmade⟩ | hself
  · obtain ⟨-, -, -, -, hnode⟩ := entry_missing hm
    rw [hmade]
    constructor
    · exact
        { reaches := h.reaches.mono (FileTree.extends_add hnode _) rfl
          elements := h.elements
          head := h.head
          free := h.free.add dir name rfl }
    · intro l hl
      rcases List.mem_append.1 hl with hl | hl
      · exact .inl hl
      · right
        rw [List.mem_singleton.1 hl]
        exact (h.entry_within hup hr hp hm).trans (List.prefix_append _ _)
  · rw [hself]
    exact ⟨h, fun l hl => .inl hl⟩

end Growing

/-! ## Accepted paths -/

/-- **Beyond the frontier, either no directory can be created or the path grows from a plain name.** -/
theorem Frontier.settled_or_growing (h : d.Frontier p done todo loc) (hup : ∀ e ∈ p.elements, ¬ dotDot.1 <:+: e.1) :
    d.Settled p ∨ ∃ e more a k, d.Growing p done e more loc a k := by
  by_cases hgrow : ∃ e more a k, d.Growing p done e more loc a k
  · exact .inr hgrow
  left
  intro q hr hp dir name hm
  rw [h.elements] at hp
  rcases prefix_append_cons hp with hin | ⟨e, more', hq, hpre⟩
  · exact Disk.entry_ne_missing h.first hr hin dir name hm
  obtain ⟨more, rfl⟩ : ∃ more, todo = e :: more := by
    obtain ⟨rest, rfl⟩ := hpre
    exact ⟨more' ++ rest, rfl⟩
  obtain ⟨k, hreach, hnext⟩ := h.reaches
  have hwalk := walk_of_entry_missing hm
  rw [hq, hreach.walk_cString hr] at hwalk
  rcases hdir : d.tree.isDirectory loc with _ | _
  · -- what is at `loc` has nothing below it
    rcases hc : (Path.cString (e :: more') q.trailing).1 with _ | ⟨s, rest⟩ <;> rw [hc] at hwalk
    · rw [FileTree.walk_of_stop rfl] at hwalk
      exact absurd hwalk (by simp)
    · have hadv : d.tree.advance loc (s :: rest) = .stop .notFound := by simp [FileTree.advance_cons, hdir]
      rw [FileTree.walk_of_stop hadv] at hwalk
      exact absurd hwalk (by simp)
  · rcases hhead : Path.headStep e with _ | _ | a
    · apply hnext loc
      have hadv : d.tree.advance loc [.here] = .stop (.found loc) := by simp [hdir, FileTree.advance]
      rw [hhead, FileTree.walk_of_stop hadv]
    · obtain ⟨rest, hrest⟩ := Path.steps_cons e more p.trailing
      have hnot : Step.up ∉ Path.steps (e :: more) p.trailing := by
        apply Path.up_not_mem_steps
        intro e' he'
        apply hup
        rw [h.elements]
        exact List.mem_append_right done he'
      apply hnot
      rw [hrest, hhead]
      exact List.mem_cons_self
    · by_cases hsolid : d.tree.Solid (loc ++ [a])
      · apply hnext (loc ++ [a])
        rw [hhead, FileTree.walk_into_solid hsolid]
      · rcases hnode : d.tree.node (loc ++ [a]) with _ | n
        · apply hgrow
          refine ⟨e, more, a, k, hreach, h.elements, hhead, ?_⟩
          intro below m hbelow
          rw [FileTree.node_none_append hnode] at hbelow
          exact absurd hbelow (by simp)
        · -- a link that leads nowhere: its name is taken, and nothing is found behind it
          obtain ⟨rest, hrest⟩ := Path.cString_cons_into hhead more' q.trailing
          rw [hrest] at hwalk
          by_cases hnil : rest = []
          · obtain ⟨init, hinit, hfound, -, hfree⟩ := entry_missing hm
            rw [hq, Path.cString_append hreach.clean, hrest, hnil] at hinit
            obtain ⟨hdone, hname⟩ := List.append_inj' hinit rfl
            obtain rfl : a = name := by simpa using hname
            rw [← hdone, start_congr hr, hreach.walk] at hfound
            obtain rfl : loc = dir := by simpa using hfound
            exact absurd (hfree.symm.trans hnode) (by simp)
          · rw [hhead] at hnext
            have hlost := FileTree.walk_of_not_found hnext hnil
            rw [List.singleton_append, hwalk] at hlost
            rcases hlost with hlost | hlost
            · exact absurd hlost (by simp)
            · exact absurd hlost (by simp)

/-- what the acceptance of a path gives, for the base `b` -/
structure Accepted (d : Disk) (b : Location) (p : Path) : Prop where
  no_up : ∀ e ∈ p.elements, ¬ dotDot.1 <:+: e.1
  inside : ∀ loc, d.lookup p = .found loc → b <+: loc
  no_dot : (∀ l, d.lookup p ≠ .found l) → dot ∈ p.elements → p.elements = [dot]
  ground : d.Settled p ∨ ∃ done e more loc a k, d.Growing p done e more loc a k ∧ b <+: loc

end Disk

/-- **Acceptance.** -/
theorem Filesystem.accepted {fs : Filesystem} {d : Disk} {b : Location} {inputPath : Bytes}
    (hne : fs.basePath.isEmpty = false) (hb : d.canonical fs.basePath = .returns b)
    (h : fs.validateResolvedPath d (fs.resolvePath d inputPath) = .returns true) :
    d.Accepted b (fs.resolvePath d inputPath) := by
  have hbase := Disk.canonical_returns hb
  have hdot : (∀ l, d.lookup (fs.resolvePath d inputPath) ≠ .found l) →
      dot ∈ (fs.resolvePath d inputPath).elements → (fs.resolvePath d inputPath).elements = [dot] := by
    intro habsent
    rw [Filesystem.resolvePath] at habsent ⊢
    simp only [hne, Bool.false_eq_true, if_false, Bool.not_false, if_true] at habsent ⊢
    split_ifs at habsent ⊢
    · exact absurd hbase (habsent b)
    · exact Path.dot_mem_lexicallyNormal
    · exact Path.dot_mem_lexicallyNormal
  generalize fs.resolvePath d inputPath = p at h hdot
  rw [Filesystem.validateResolvedPath] at h
  split_ifs at h with htext hemp
  · exact absurd h (by simp)
  · have hup : ∀ e ∈ p.elements, ¬ dotDot.1 <:+: e.1 := by
      intro e he hin
      exact htext (hin.trans (Path.element_infix_string he))
    have hupMem : dotDot ∉ p.elements := by
      intro hmem
      exact hup dotDot hmem (List.infix_refl _)
    have hsolid : d.tree.Solid b := by
      have hsound := d.lookup_sound fs.basePath
      rw [hbase] at hsound
      exact hsound
    rw [Filesystem.isWithinBasePath, hne, hb] at h
    simp only [Bool.false_eq_true, if_false] at h
    rcases hc : d.weaklyCanonical p with c | _ <;> rw [hc] at h
    · simp only [Call.returns.injEq, Bool.and_eq_true, decide_eq_true_eq] at h
      obtain ⟨hroot, hpre⟩ := h
      by_cases hfound : ∃ loc, d.lookup p = .found loc
      · obtain ⟨loc, hloc⟩ := hfound
        refine ⟨hup, ?_, hdot, .inl fun q hr hp => Disk.entry_ne_missing hloc hr hp⟩
        intro l hl
        obtain rfl : loc = l := by simpa [hloc] using hl
        rw [Disk.weaklyCanonical, hloc] at hc
        obtain rfl : Path.ofLocation loc = c := by simpa using hc
        exact (List.prefix_map_iff_of_injective FileName.element_injective).1 hpre
      · have habsent : ∀ l, d.lookup p ≠ .found l := fun l hl => hfound ⟨l, hl⟩
        obtain ⟨done, todo, loc, hfrontier, helements⟩ := Disk.weaklyCanonical_frontier hc hroot hupMem habsent
        rw [helements] at hpre
        have hin := hfrontier.base_within hsolid hpre
        refine ⟨hup, fun l hl => absurd hl (habsent l), hdot, ?_⟩
        rcases hfrontier.settled_or_growing hup with hsettled | ⟨e, more, a, k, hgrow⟩
        · exact .inl hsettled
        · exact .inr ⟨done, e, more, loc, a, k, hgrow, hin⟩
    · exact absurd h (by simp)
  · exact absurd hne (by simpa using hemp)

/-! ## Operations -/

namespace Disk

variable {d d' : Disk} {b : Location} {p : Path}

/-- everything that was opened, created, read or truncated lies inside `b` -/
def Inside (d : Disk) (b : Location) : Prop := ∀ loc ∈ d.touched, b <+: loc

theorem Inside.touch (h : d.Inside b) {loc : Location} (hl : b <+: loc) : (d.touch loc).Inside b := by
  intro l hmem
  rcases List.mem_append.1 hmem with hmem | hmem
  · exact h l hmem
  · rw [List.mem_singleton.1 hmem]
    exact hl

theorem Accepted.openIn (h : d.Accepted b p) (hd : d.Inside b) : (d.openIn p).2.Inside b := by
  rw [Disk.openIn]
  rcases hl : d.lookup p with loc | _ | _ | _
  · simp only
    split_ifs
    · exact hd.touch (h.inside loc hl)
    · exact hd
  · exact hd
  · exact hd
  · exact hd

theorem Accepted.openDirectory (h : d.Accepted b p) (hd : d.Inside b) : (d.openDirectory p).Inside b := by
  rw [Disk.openDirectory]
  rcases hl : d.lookup p with loc | _ | _ | _
  · exact hd.touch (h.inside loc hl)
  · exact hd
  · exact hd
  · exact hd

/-- what a file is opened for writing at -/
theorem openOut_inside (hd : d.Inside b) (hfound : ∀ loc, d.lookup p = .found loc → b <+: loc)
    (hmissing : d.faults.opens = true → ∀ dir name, d.lookup p = .missing dir name → b <+: dir ++ [name]) :
    (d.openOut p).2.Inside b := by
  rw [openOut]
  split_ifs with hopens
  · exact hd
  · rcases hl : d.lookup p with loc | ⟨dir, name⟩ | _ | _
    · simp only
      split_ifs
      · exact hd
      · exact Inside.touch hd (hfound loc hl)
    · exact Inside.touch hd (hmissing (by simpa using hopens) dir name hl)
    · exact hd
    · exact hd

/-- the parent directories, then the file -/
def openNew (d : Disk) (p : Path) : Disk :=
  match d.createDirectories p.parentPath with
  | (some _, d) => d
  | (none, d) => (d.openOut p).2

theorem parentPath_elements_within (p : Path) : p.parentPath.elements <+: p.elements := by
  rw [Path.parentPath]
  simp only [Path.make]
  split_ifs
  · exact List.prefix_refl _
  · exact List.dropLast_prefix _

theorem Growing.createDirectories {done : List Element} {e : Element} {more : List Element} {loc : Location}
    {a : FileName} {k : ℕ} (h : d.Growing p done e more loc a k) (hup : ∀ e ∈ p.elements, ¬ dotDot.1 <:+: e.1)
    (hb : b <+: loc) (hd : d.Inside b) {q : Path} (hr : q.root = p.root) (hp : q.elements <+: p.elements) :
    (d.createDirectories q).2.Growing p done e more loc a k ∧ (d.createDirectories q).2.Inside b := by
  apply createDirectories_induction (P := fun d' => d'.Growing p done e more loc a k ∧ d'.Inside b) q ⟨h, hd⟩
  rintro q' hr' hp' d' ⟨hgrow, hinside⟩
  obtain ⟨hgrow', htouched⟩ := hgrow.createDir hup (hr'.trans hr) (hp'.trans hp)
  refine ⟨hgrow', ?_⟩
  intro l hl
  rcases htouched l hl with hold | hnew
  · exact hinside l hold
  · exact hb.trans hnew

theorem Accepted.createDirectories (h : d.Accepted b p) (hd : d.Inside b) {q : Path} (hr : q.root = p.root)
    (hp : q.elements <+: p.elements) : (d.createDirectories q).2.Inside b := by
  rcases h.ground with hsettled | ⟨done, e, more, loc, a, k, hgrow, hb⟩
  · rw [hsettled.createDirectories hr hp]
    exact hd
  · exact (hgrow.createDirectories h.no_up hb hd hr hp).2

/-- the parent of a path to a missing name has no dots -/
theorem Accepted.plain_parent (h : d.Accepted b p) {dir : Location} {name : FileName}
    (hl : d.lookup p = .missing dir name) : dot ∉ p.parentPath.elements ∧ dotDot ∉ p.parentPath.elements := by
  have hsub := (parentPath_elements_within p).subset
  constructor
  · intro hmem
    have hone := h.no_dot (by rw [hl]; simp) (hsub hmem)
    have hwalk := lookup_eq_walk_of_ne (d := d) (p := p) (by rw [hl]; simp)
    rw [hl, hone] at hwalk
    apply FileTree.walk_ne_missing _ dir name hwalk.symm
    intro a
    have hhere : (Path.steps [dot] p.trailing).getLast? = some .here := by
      cases p.trailing
      · rfl
      · rfl
    rw [hhere]
    simp
  · intro hmem
    exact h.no_up dotDot (hsub hmem) (List.infix_refl _)

/-- **A new file goes inside, if it does where its parent is there and it is not.** -/
theorem Accepted.openNew (h : d.Accepted b p) (hd : d.Inside b)
    (hmissing : d.faults.opens = true → d.isDirectory p.parentPath = true →
      ∀ dir name, d.lookup p = .missing dir name → b <+: dir ++ [name]) : (d.openNew p).Inside b := by
  have hprefix := parentPath_elements_within p
  rw [Disk.openNew]
  rcases h.ground with hsettled | ⟨done, e, more, loc, a, k, hgrow, hb⟩
  · have hsame : (d.createDirectories p.parentPath).2 = d := hsettled.createDirectories rfl hprefix
    have hparent : dot ∉ p.parentPath.elements → dotDot ∉ p.parentPath.elements →
        (d.createDirectories p.parentPath).1 = none → d.isDirectory p.parentPath = true := by
      intro hdot hup
      apply isDirectory_of_createDirectories _ hdot hup rfl
      intro q hr hp
      exact hsettled q hr (hp.trans hprefix)
    rcases hc : d.createDirectories p.parentPath with ⟨_ | e, d'⟩ <;> rw [hc] at hsame hparent
    · obtain rfl : d' = d := hsame
      apply openOut_inside hd h.inside
      intro hopens dir name hl
      obtain ⟨hdot, hup⟩ := h.plain_parent hl
      exact hmissing hopens (hparent hdot hup rfl) dir name hl
    · obtain rfl : d' = d := hsame
      exact hd
  · obtain ⟨hgrow', hd'⟩ := hgrow.createDirectories h.no_up hb hd (q := p.parentPath) rfl hprefix
    rcases hc : d.createDirectories p.parentPath with ⟨_ | e', d'⟩ <;> rw [hc] at hgrow' hd'
    · have hwithin := hgrow'.lookup_within h.no_up
      apply openOut_inside hd'
      · intro l hl
        rw [hl] at hwithin
        exact hb.trans hwithin
      · intro _ dir name hl
        rw [hl] at hwithin
        calc b <+: dir := hb.trans hwithin
          _ <+: dir ++ [name] := List.prefix_append _ _
    · exact hd'

/-- a missing file is created where the lookup ended -/
theorem openNew_touches {dir : Location} {name : FileName} (hopens : d.faults.opens = true)
    (hparent : d.isDirectory p.parentPath = true) (hl : d.lookup p = .missing dir name) :
    dir ++ [name] ∈ (d.openNew p).touched := by
  have hcreate : d.createDirectories p.parentPath = (none, d) := by
    rw [isDirectory] at hparent
    rw [createDirectories]
    rcases hq : d.lookup p.parentPath with loc | _ | _ | _ <;> rw [hq] at hparent
    · have hemp : p.parentPath.isEmpty = false := by
        by_contra hemp
        have hnil : (Path.cString p.parentPath.elements p.parentPath.trailing).1 = [] := by
          simp only [Path.isEmpty, Bool.not_eq_false, Bool.and_eq_true, List.isEmpty_iff] at hemp
          rw [hemp.2]
          rfl
        rw [lookup, if_pos] at hq
        · exact absurd hq (by simp)
        · simp only [Path.isEmpty, Bool.not_eq_false, Bool.and_eq_true] at hemp
          simp [hnil, hemp.1]
      simp [hemp, hparent]
    all_goals exact absurd hparent (by simp)
  rw [openNew, hcreate]
  simp [openOut, hopens, hl, touch]

end Disk

/-! ## The handlers and the sessions -/

namespace Filesystem

/-- an operation that opens, creates, reads or truncates files -/
inductive Operation where
  | get (input : Input)
  | put (input : Input)
  | hash (input : Input)
  | download (parameters : Json)
  /-- `available`: the free space there is -/
  | upload (parameters : Json) (available : ℕ)

variable {fs : Filesystem} {d : Disk} {b : Location}

/-- the disk after an operation -/
def perform (digest : Bytes → Bytes → Bytes) (fs : Filesystem) (d : Disk) : Operation → Disk
  | .get input => (fs.handleGet d input).1
  | .put input => (fs.handlePut d input).1
  | .hash input => (handleHash digest fs d input).1
  | .download parameters =>
    match fs.createDownload d parameters with
    | .returns (some (path, _)) => (openDownload d path).1
    | _ => d
  | .upload parameters available =>
    match fs.createUpload d parameters available with
    | .returns (some (path, _)) => (openUpload d path).1
    | _ => d

/-- the path of a file that a put request stores if it is not there yet -/
def putPath (fs : Filesystem) (d : Disk) (input : Input) : Option Path :=
  if input.describe || namesDirectory input || decide ((payloadBytes input).length > MAX_INLINE_FILE_SIZE) then none
  else
    match fs.resolveAndValidatePath d input "path" false, overwriteFlag input.getParams with
    | .returns (.ok path), .returns _ => some path
    | _, _ => none

/-- the path of a file that an operation stores if it is not there yet -/
def storePath (fs : Filesystem) (d : Disk) : Operation → Option Path
  | .put input => fs.putPath d input
  | .upload parameters available =>
    match fs.createUpload d parameters available with
    | .returns (some (path, _)) => some path
    | _ => none
  | _ => none

theorem remove_touched (d : Disk) (p : Path) : (d.remove p).2.touched = d.touched := by
  rw [Disk.remove]
  rcases d.linkEntry p with loc | _ | _ | _
  · simp only
    split_ifs
    · rw [Disk.rmdir]
      rcases (Path.cString p.elements p.trailing).1.getLast? with _ | _ | _ | a
      · rfl
      · rfl
      · rfl
      · simp only
        split_ifs <;> rfl
    · rfl
  · rfl
  · rfl
  · rfl

theorem writeFile_touched (d : Disk) (p : Path) (data : Bytes) :
    (writeFile d p data).1.touched = (d.openOut p).2.touched := by
  rw [writeFile]
  rcases d.openOut p with ⟨_ | loc, d'⟩
  · rfl
  · simp only
    split_ifs
    · rfl
    · rcases d'.faults.write with _ | bytes | bytes
      · rfl
      · exact remove_touched _ _
      · rfl

theorem putFile_touched (d : Disk) (p : Path) (data : Bytes) :
    (putFile d p data).1.touched = (d.openNew p).touched := by
  rw [putFile, Disk.openNew]
  rcases d.createDirectories p.parentPath with ⟨_ | e, d'⟩
  · exact writeFile_touched d' p data
  · rfl

theorem openUpload_touched (d : Disk) (p : Path) : (openUpload d p).1.touched = (d.openNew p).touched := by
  rw [openUpload, Disk.openNew]
  rcases d.createDirectories p.parentPath with ⟨_ | e, d'⟩
  · simp only
    rcases d'.openOut p with ⟨_ | loc, d''⟩
    · rfl
    · rfl
  · rfl

/-- a path that a handler goes on with is accepted -/
theorem accepted_of_resolve (hne : fs.basePath.isEmpty = false) (hb : d.canonical fs.basePath = .returns b)
    {input : Input} {key : String} {checkExists : Bool} {path : Path}
    (h : fs.resolveAndValidatePath d input key checkExists = .returns (.ok path)) : d.Accepted b path := by
  rw [resolveAndValidatePath] at h
  rcases hp : input.requestPath key with pathStr | _ <;> rw [hp] at h
  · simp only at h
    rcases hv : fs.validateResolvedPath d (fs.resolvePath d pathStr) with (_ | _) | _ <;> rw [hv] at h
    · exact absurd h (by simp)
    · have hpath : fs.resolvePath d pathStr = path := by
        simp only at h
        split_ifs at h
        · rcases hx : d.existsAt (fs.resolvePath d pathStr) with (_ | _) | _ <;> rw [hx] at h
          · exact absurd h (by simp)
          · simpa using h
          · exact absurd h (by simp)
        · simpa using h
      rw [← hpath]
      exact Filesystem.accepted hne hb hv
    · exact absurd h (by simp)
  · exact absurd h (by simp)

/-- what every continuation with an accepted path keeps, a handler keeps -/
theorem withPath_induction {P : Disk → Prop} (hne : fs.basePath.isEmpty = false)
    (hb : d.canonical fs.basePath = .returns b) (input : Input) (key : String) (checkExists : Bool)
    {next : Path → Disk × Call Reply} (hd : P d)
    (h : ∀ path, fs.resolveAndValidatePath d input key checkExists = .returns (.ok path) → d.Accepted b path →
      P (next path).1) : P (fs.withPath d input key checkExists next).1 := by
  rw [withPath]
  rcases hr : fs.resolveAndValidatePath d input key checkExists with (reply | path) | _
  · exact hd
  · exact h path hr (accepted_of_resolve hne hb hr)
  · exact hd

theorem accepted_of_createDownload (hne : fs.basePath.isEmpty = false) (hb : d.canonical fs.basePath = .returns b)
    {parameters : Json} {path : Path} {config : TransferConfig}
    (h : fs.createDownload d parameters = .returns (some (path, config))) : d.Accepted b path := by
  rw [createDownload] at h
  split_ifs at h
  · exact absurd h (by simp)
  · rcases hv : fs.validateResolvedPath d (fs.resolvePath d (getText parameters "path")) with (_ | _) | _ <;>
      simp only [hv] at h
    · exact absurd h (by simp)
    · rcases hm : bandwidth parameters with mbps | _ <;> rw [hm] at h
      · obtain ⟨rfl, -⟩ := Prod.mk.inj (Option.some.inj (Call.returns.inj h))
        exact Filesystem.accepted hne hb hv
      · exact absurd h (by simp)
    · exact absurd h (by simp)

theorem accepted_of_createUpload (hne : fs.basePath.isEmpty = false) (hb : d.canonical fs.basePath = .returns b)
    {parameters : Json} {available : ℕ} {path : Path} {config : TransferConfig}
    (h : fs.createUpload d parameters available = .returns (some (path, config))) : d.Accepted b path := by
  by_cases hpath : getText parameters "path" = []
  · rw [createUpload, if_pos hpath] at h
    exact absurd h (by simp)
  by_cases hsize : getSize parameters "size" 0 = 0
  · rw [createUpload, if_neg hpath, if_pos hsize] at h
    exact absurd h (by simp)
  rw [createUpload, if_neg hpath, if_neg hsize] at h
  rcases hv : fs.validateResolvedPath d (fs.resolvePath d (getText parameters "path")) with (_ | _) | _ <;>
    simp only [hv] at h
  · exact absurd h (by simp)
  · split_ifs at h
    · exact absurd h (by simp)
    · exact absurd h (by simp)
    · rcases hm : bandwidth parameters with mbps | _ <;> rw [hm] at h
      · obtain ⟨rfl, -⟩ := Prod.mk.inj (Option.some.inj (Call.returns.inj h))
        exact Filesystem.accepted hne hb hv
      · exact absurd h (by simp)
  · exact absurd h (by simp)

section
variable (hne : fs.basePath.isEmpty = false) (hb : d.canonical fs.basePath = .returns b) (hd : d.Inside b)
include hne hb hd

theorem handleList_inside (input : Input) : (fs.handleList d input).1.Inside b := by
  rw [handleList]
  apply withPath_induction (P := fun d' => d'.Inside b) hne hb input "path" true hd
  intro path _ hpath
  split_ifs
  · exact hd
  · rcases d.lookup path with loc | _ | _ | _
    · exact hpath.openDirectory hd
    · exact hd
    · exact hd
    · exact hd

theorem handleDownload_inside (input : Input) : (fs.handleDownload d input).1.Inside b := by
  rw [handleDownload]
  apply withPath_induction (P := fun d' => d'.Inside b) hne hb input "path" true hd
  intro path _ hpath
  have hopen := hpath.openIn hd
  split_ifs
  · exact hd
  · exact hd
  · rcases hc : d.openIn path with ⟨_ | content, d'⟩ <;> rw [hc] at hopen
    · exact hopen
    · exact hopen

theorem handleGet_inside (input : Input) : (fs.handleGet d input).1.Inside b := by
  rw [handleGet]
  split_ifs
  · exact hd
  · apply withPath_induction (P := fun d' => d'.Inside b) hne hb input "path" true hd
    intro path _ hpath
    split_ifs
    · exact handleList_inside hne hb hd input
    · exact handleDownload_inside hne hb hd input
    · exact hd

theorem handleHash_inside (digest : Bytes → Bytes → Bytes) (input : Input) :
    (handleHash digest fs d input).1.Inside b := by
  rw [handleHash]
  split_ifs
  · exact hd
  · apply withPath_induction (P := fun d' => d'.Inside b) hne hb input "path" true hd
    intro path _ hpath
    have hopen := hpath.openIn hd
    split_ifs
    · exact hd
    · rcases hashAlgorithm (getText input.getParams "algorithm") with _ | algorithm
      · exact hd
      · rcases hc : d.openIn path with ⟨_ | content, d'⟩ <;> rw [hc] at hopen
        · exact hopen
        · exact hopen

end

theorem openDownload_inside {path : Path} (hd : d.Inside b) (hpath : d.Accepted b path) :
    (openDownload d path).1.Inside b := by
  have hopen := hpath.openIn hd
  rw [openDownload]
  rcases d.existsAt path with (_ | _) | _
  · exact hd
  · simp only
    split_ifs
    · exact hd
    · rcases hc : d.openIn path with ⟨_ | content, d'⟩ <;> rw [hc] at hopen
      · exact hopen
      · exact hopen
  · exact hd

/-- where a put request that passes its checks stores its file -/
theorem handlePut_of_putPath {input : Input} {path : Path} (h : fs.putPath d input = some path) :
    (d.isFound path = false → (fs.handlePut d input).1.touched = (d.openNew path).touched) ∧
      fs.resolveAndValidatePath d input "path" false = .returns (.ok path) := by
  rw [putPath] at h
  split_ifs at h with hpre
  simp only [Bool.or_eq_true, decide_eq_true_eq, not_or, Bool.not_eq_true, not_lt] at hpre
  obtain ⟨⟨hdescribe, hnames⟩, hsize⟩ := hpre
  rcases hr : fs.resolveAndValidatePath d input "path" false with (reply | path') | _ <;> rw [hr] at h
  · exact absurd h (by simp)
  · rcases ho : overwriteFlag input.getParams with overwrite | _ <;> rw [ho] at h
    · obtain rfl : path' = path := by simpa using h
      refine ⟨?_, rfl⟩
      intro hfound
      rw [handlePut, hdescribe, withPath, hr]
      simp only [Bool.false_eq_true, if_false, hfound, Bool.false_and, ho, hnames]
      rw [if_neg (by omega)]
      exact putFile_touched d path' _
    · exact absurd h (by simp)
  · exact absurd h (by simp)

theorem handlePut_inside (hne : fs.basePath.isEmpty = false) (hb : d.canonical fs.basePath = .returns b)
    (hd : d.Inside b) (input : Input)
    (hmissing : ∀ path dir name, fs.putPath d input = some path → d.faults.opens = true →
      d.isDirectory path.parentPath = true → d.lookup path = .missing dir name → b <+: dir ++ [name]) :
    (fs.handlePut d input).1.Inside b := by
  rw [handlePut]
  by_cases hdescribe : input.describe = true
  · rw [if_pos hdescribe]
    exact hd
  rw [if_neg hdescribe]
  apply withPath_induction (P := fun d' => d'.Inside b) hne hb input "path" false hd
  intro path hr hpath
  by_cases hsize : (payloadBytes input).length > MAX_INLINE_FILE_SIZE
  · rw [if_pos hsize]
    exact hd
  rw [if_neg hsize]
  rcases ho : overwriteFlag input.getParams with overwrite | _
  · by_cases hnames : namesDirectory input = true
    · have hmade := hpath.createDirectories hd (q := path) rfl (List.prefix_refl _)
      simp only [hnames, Bool.and_true, if_true]
      split_ifs
      · exact hd
      · exact hd
      · exact hd
      · rw [putDirectory]
        rcases hc : d.createDirectories path with ⟨_ | e, d'⟩ <;> rw [hc] at hmade
        · exact hmade
        · exact hmade
    · have hput : fs.putPath d input = some path := by
        have hcond : (input.describe || namesDirectory input ||
            decide ((payloadBytes input).length > MAX_INLINE_FILE_SIZE)) = false := by
          simp [hdescribe, hnames, hsize]
        rw [putPath, hcond, hr, ho]
        rfl
      have hnew := hpath.openNew hd fun hopens hparent dir name hl => hmissing path dir name hput hopens hparent hl
      simp only [hnames, Bool.and_false, Bool.false_eq_true, if_false]
      split_ifs
      · exact hd
      · intro l hl
        apply hnew
        rw [← putFile_touched]
        exact hl
  · exact hd

/-- **Confinement.** With an existing base directory `b`, an operation opens, creates, reads and truncates inside `b`
only, if and only if the file it stores, where the parent directory is there and the lookup ends at a missing name, has
that name inside. -/
theorem confined_iff (digest : Bytes → Bytes → Bytes) (fs : Filesystem) (d : Disk) (b : Location)
    (hne : fs.basePath.isEmpty = false) (hb : d.canonical fs.basePath = .returns b) (hd : d.touched = [])
    (op : Operation) :
    (∀ loc ∈ (perform digest fs d op).touched, b <+: loc) ↔
      ∀ path dir name, fs.storePath d op = some path → d.faults.opens = true →
        d.isDirectory path.parentPath = true → d.lookup path = .missing dir name → b <+: dir ++ [name] := by
  have hd' : d.Inside b := by
    intro loc hl
    rw [hd] at hl
    exact absurd hl (by simp)
  constructor
  · intro hall path dir name hstore hopens hparent hl
    apply hall
    have htouch := Disk.openNew_touches hopens hparent hl
    cases op with
    | put input =>
      have hfound : d.isFound path = false := by simp [Disk.isFound, Disk.existsAt, hl]
      rw [perform, (handlePut_of_putPath hstore).1 hfound]
      exact htouch
    | upload parameters available =>
      rw [storePath] at hstore
      rw [perform]
      rcases hc : fs.createUpload d parameters available with (_ | ⟨path', config⟩) | _ <;> rw [hc] at hstore
      · exact absurd hstore (by simp)
      · obtain rfl : path' = path := by simpa using hstore
        simp only [openUpload_touched]
        exact htouch
      · exact absurd hstore (by simp)
    | _ => exact absurd hstore (by simp [storePath])
  · intro hmissing
    change (perform digest fs d op).Inside b
    cases op with
    | get input => exact handleGet_inside hne hb hd' input
    | put input => exact handlePut_inside hne hb hd' input hmissing
    | hash input => exact handleHash_inside hne hb hd' digest input
    | download parameters =>
      rw [perform]
      rcases hc : fs.createDownload d parameters with (_ | ⟨path, config⟩) | _
      · exact hd'
      · exact openDownload_inside hd' (accepted_of_createDownload hne hb hc)
      · exact hd'
    | upload parameters available =>
      rw [perform]
      rw [storePath] at hmissing
      rcases hc : fs.createUpload d parameters available with (_ | ⟨path, config⟩) | _ <;> rw [hc] at hmissing
      · exact hd'
      · have hpath := accepted_of_createUpload hne hb hc
        intro l hl
        simp only [openUpload_touched] at hl
        exact hpath.openNew hd' (fun hopens hparent dir name hl => hmissing path dir name rfl hopens hparent hl) l hl
      · exact hd'

/-! ## A link that leads nowhere -/

/-- a file name of a fixed text -/
def fileName (s : String)
    (h : text s ≠ [] ∧ preferredSeparator ∉ text s ∧ 0 ∉ text s ∧ text s ≠ dot.1 ∧ text s ≠ dotDot.1) :
    FileName := ⟨text s, h⟩

/-- `/data/dl` is a link to `/out/new`, which is not there -/
def danglingLink : Disk where
  tree :=
    { entries := [([fileName "data" (by decide)], .directory),
        ([fileName "data" (by decide), fileName "dl" (by decide)],
          .link ⟨false, [.up, .into (fileName "out" (by decide)), .into (fileName "new" (by decide))]⟩),
        ([fileName "out" (by decide)], .directory)]
      closed := by decide }

def dataFolder : Filesystem := ⟨Path.ofBytes (text "/data")⟩

/-- a put request for a path, with one byte -/
def putRequest (path : String) : Input where
  streamId := 0
  data := .binary [1] none
  path := some (.object [(text "path", .string (text path))])

/-- a new file in the base directory is created inside -/
theorem new_file_inside :
    (perform (fun _ _ => []) dataFolder danglingLink (.put (putRequest "new"))).Inside
      [fileName "data" (by decide)] := by
  apply (confined_iff (fun _ _ => []) dataFolder danglingLink [fileName "data" (by decide)] (by decide) (by decide) rfl
    (.put (putRequest "new"))).2
  intro path dir name hstore _ _ hl
  have hpath : storePath dataFolder danglingLink (.put (putRequest "new")) =
      some (Path.ofBytes (text "/data/new")) := by decide
  obtain rfl := Option.some.inj (hpath.symm.trans hstore)
  have hmissing : danglingLink.lookup (Path.ofBytes (text "/data/new")) =
      .missing [fileName "data" (by decide)] (fileName "new" (by decide)) := by decide
  rw [hmissing] at hl
  obtain ⟨rfl, rfl⟩ : [fileName "data" (by decide)] = dir ∧ fileName "new" (by decide) = name := by simpa using hl
  exact List.prefix_append _ _

/-- **A put through a link in the base directory that leads nowhere is accepted, and creates the file outside.** -/
theorem dangling_link_escapes :
    danglingLink.canonical dataFolder.basePath = .returns [fileName "data" (by decide)] ∧
      dataFolder.validateResolvedPath danglingLink (dataFolder.resolvePath danglingLink (text "dl")) = .returns true ∧
      (perform (fun _ _ => []) dataFolder danglingLink (.put (putRequest "dl"))).touched =
        [[fileName "out" (by decide), fileName "new" (by decide)]] ∧
      ¬ [fileName "data" (by decide)] <+: [fileName "out" (by decide), fileName "new" (by decide)] := by
  decide

end Filesystem

end Iotmp
