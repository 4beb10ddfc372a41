/-
Plain request paths under the base directory, in a tree without symbolic links.

`validate_resolved_path` makes two checks: it looks for `..` in the text of the resolved path, base directory and all,
and it compares canonical paths element by element. Only the second is about where a path leads.

- `infix_string_iff`: two dots are in the text of a path iff they are in one of its elements.
- `normal_location`: without links, the normal form of a path that is found names the location the path leads to.
- `resolve_elements`: a plain request goes behind the normal form of the base.
- `weaklyCanonical_inside`: behind a part that exists in the base, every plain path is canonical inside the base.
- `plain_accepted_iff`: which plain requests are accepted.
Witness: `plain_accepted_file`. Counterexample: `double_dot_name_refused`, the file name `a..b`.
-/
import Mathlib.Tactic
import Iotmp.Fs.Deletion

namespace Iotmp

open FileTree (Outcome Step Node)

/-! ## The text of a path -/

theorem prefix_append_cons_of_not_mem {α : Type*} {w u v : List α} {c : α} (hc : c ∉ w) (h : w <+: u ++ c :: v) :
    w <+: u := by
  have hlong : u ++ [c] <+: u ++ c :: v := by
    rw [List.prefix_append_right_inj]
    exact ⟨v, rfl⟩
  rcases List.prefix_or_prefix_of_prefix h hlong with hw | hw
  · rcases List.prefix_concat_iff.1 hw with rfl | hw
    · exact absurd (by simp) hc
    · exact hw
  · exact absurd (hw.subset (by simp)) hc

/-- a text without a separator that is found around one is found on one side of it -/
theorem infix_append_cons {α : Type*} {w u v : List α} {c : α} (hc : c ∉ w) (h : w <:+: u ++ c :: v) :
    w <:+: u ∨ w <:+: v := by
  induction u with
  | nil =>
    rcases List.infix_cons_iff.1 h with hw | hw
    · exact .inl (prefix_append_cons_of_not_mem (u := []) hc hw).isInfix
    · exact .inr hw
  | cons x u ih =>
    rcases List.infix_cons_iff.1 h with hw | hw
    · exact .inl (prefix_append_cons_of_not_mem (u := x :: u) hc hw).isInfix
    · rcases ih hw with hw | hw
      · exact .inl (hw.trans (List.suffix_cons x u).isInfix)
      · exact .inr hw

theorem infix_intercalate {α : Type*} {w : List α} {c : α} (hw : w ≠ []) (hc : c ∉ w) {parts : List (List α)}
    (h : w <:+: List.intercalate [c] parts) : ∃ e ∈ parts, w <:+: e := by
  induction parts with
  | nil => exact absurd (List.infix_nil.1 h) hw
  | cons e parts ih =>
    rcases parts with _ | ⟨e', parts⟩
    · exact ⟨e, by simp, by simpa only [List.intercalate_singleton] using h⟩
    · have hsplit : List.intercalate [c] (e :: e' :: parts) = e ++ c :: List.intercalate [c] (e' :: parts) := by
        rw [List.intercalate_cons_cons, List.append_assoc, List.singleton_append]
      rw [hsplit] at h
      rcases infix_append_cons hc h with h | h
      · exact ⟨e, by simp, h⟩
      · obtain ⟨e'', he, hin⟩ := ih h
        exact ⟨e'', List.mem_cons_of_mem e he, hin⟩

namespace Path

/-- **Two dots in the text are two dots in an element.** -/
theorem infix_string_iff (p : Path) : dotDot.1 <:+: p.string ↔ ∃ e ∈ p.elements, dotDot.1 <:+: e.1 := by
  have hne : dotDot.1 ≠ [] := dotDot.2.1
  have hsep : preferredSeparator ∉ dotDot.1 := dotDot.2.2
  constructor
  · intro h
    set middle := List.intercalate [preferredSeparator] (p.elements.map Subtype.val) with hmiddle
    rw [string, ← hmiddle, List.append_assoc] at h
    have hbehind : dotDot.1 <:+: middle ++ if p.trailing then [preferredSeparator] else [] := by
      rcases hroot : p.root with _ | _ <;> rw [hroot] at h
      · exact h
      · rcases infix_append_cons (u := []) hsep h with h | h
        · exact absurd (List.infix_nil.1 h) hne
        · exact h
    have hmid : dotDot.1 <:+: middle := by
      rcases htrailing : p.trailing with _ | _ <;> rw [htrailing] at hbehind
      · simpa using hbehind
      · rcases infix_append_cons hsep hbehind with h | h
        · exact h
        · exact absurd (List.infix_nil.1 h) hne
    obtain ⟨text, htext, hin⟩ := infix_intercalate hne hsep hmid
    obtain ⟨e, he, rfl⟩ := List.mem_map.1 htext
    exact ⟨e, he, hin⟩
  · rintro ⟨e, he, hin⟩
    exact hin.trans (element_infix_string he)

/-! ## Normal forms -/

/-- two dots that are kept stay -/
theorem dotDot_mem_normalStep {root : Bool} {done : List Element × Bool} (h : dotDot ∈ done.1) (e : Element) :
    dotDot ∈ (normalStep root done e).1 := by
  by_cases hup : e = dotDot
  · rw [normalStep, if_pos hup]
    rcases hl : done.1.getLast? with _ | last
    · rw [List.getLast?_eq_none_iff.1 hl] at h
      exact absurd h (by simp)
    · simp only
      split_ifs with hlast
      · exact List.mem_append_left _ h
      · rw [← List.dropLast_append_getLast? last hl] at h
        rcases List.mem_append.1 h with h | h
        · exact h
        · exact absurd (List.mem_singleton.1 h).symm hlast
  · rw [normalStep_of_ne hup]
    exact List.mem_append_left _ h

/-- the elements that the rounds keep -/
def normalElements (root : Bool) (elements : List Element) : List Element :=
  (elements.foldl (normalStep root) ([], false)).1

theorem normalParts_eq (p : Path) : p.normalParts.1 = normalElements p.root p.elements := by
  rw [normalParts, normalElements]
  split_ifs
  · rfl
  · rfl

theorem normalElements_concat (root : Bool) (elements : List Element) (e : Element) :
    normalElements root (elements ++ [e]) =
      (normalStep root (elements.foldl (normalStep root) ([], false)) e).1 := by
  rw [normalElements, List.foldl_append]
  rfl

/-- names go behind what is kept -/
theorem normalElements_append {root : Bool} {first second : List Element} (hup : dotDot ∉ second) :
    normalElements root (first ++ second) = normalElements root first ++ second.filter (· ≠ dot) := by
  induction second using List.reverseRecOn with
  | nil => simp
  | append_singleton second e ih =>
    obtain ⟨hrest, hne⟩ : dotDot ∉ second ∧ dotDot ≠ e := by simpa using hup
    rw [← List.append_assoc, normalElements_concat, normalStep_of_ne hne.symm]
    change normalElements root (first ++ second) ++ _ = _
    rw [ih hrest, List.append_assoc, ← List.filter_append]

/-- a path that is not empty keeps these elements, or is a single dot -/
theorem lexicallyNormal_elements {p : Path} (h : p.isEmpty = false) :
    p.lexicallyNormal.elements =
      if normalElements p.root p.elements = [] ∧ p.root = false then [dot]
      else normalElements p.root p.elements := by
  rw [lexicallyNormal, ← normalParts_eq]
  simp only [h, Bool.false_eq_true, if_false, Bool.and_eq_true, List.isEmpty_iff, Bool.not_eq_true']
  split_ifs with hlast hdot hdot
  · rw [hdot.1] at hlast
    exact absurd hlast (by simp)
  · rfl
  · rfl
  · rfl

end Path

namespace Disk

variable {d : Disk} {b : Location}

/-- one round of the normal form and one component of the walk -/
theorem normalStep_location {root : Bool} {start loc : Location} (hstart : root = true → start = [])
    {done : List Element × Bool} {names : List FileName} (hdone : done.1 = names.map FileName.element) {e : Element}
    (hclean : 0 ∉ e.1) (hloc : loc = (Path.stepOf e.1).target (start ++ names))
    (hup : dotDot ∉ (Path.normalStep root done e).1) :
    ∃ names' : List FileName, (Path.normalStep root done e).1 = names'.map FileName.element ∧
      loc = start ++ names' := by
  by_cases hdots : e = dotDot
  · subst hdots
    have hstep : Path.stepOf dotDot.1 = .up := by decide
    rw [hstep] at hloc
    rw [Path.normalStep, if_pos rfl, hdone] at hup ⊢
    rcases List.eq_nil_or_concat names with rfl | ⟨init, a, rfl⟩
    · cases root with
      | true =>
        refine ⟨[], by simpa using hdone, ?_⟩
        rw [hloc, hstart rfl]
        rfl
      | false => exact absurd (by simp) hup
    · have hname : a.element ≠ dotDot := fun h => a.2.2.2.2.2 (congrArg Subtype.val h)
      refine ⟨init, ?_, ?_⟩
      · simp [hname]
      · rw [hloc, List.concat_eq_append, ← List.append_assoc]
        exact List.dropLast_concat
  · rw [Path.normalStep_of_ne hdots, hdone]
    by_cases hdot : e = dot
    · subst hdot
      have hstep : Path.stepOf dot.1 = .here := by decide
      rw [hstep] at hloc
      exact ⟨names, by simp, hloc⟩
    · let a : FileName := ⟨e.1, e.2.1, e.2.2, hclean, fun h => hdot (Subtype.ext h), fun h => hdots (Subtype.ext h)⟩
      have hstep : Path.stepOf e.1 = .into a := Path.stepOf_fileName a
      rw [hstep] at hloc
      refine ⟨names ++ [a], ?_, ?_⟩
      · rw [List.filter_cons_of_pos (by simpa using hdot), List.map_append]
        rfl
      · rw [hloc, ← List.append_assoc]
        rfl

/-- **Without links, the normal form of a path that is found names where it leads.** -/
theorem normal_location (hfree : d.tree.NoLinks []) {root : Bool} {start : Location} (hstart : root = true → start = [])
    {links : ℕ} {elements : List Element} (hclean : ∀ e ∈ elements, 0 ∉ e.1) {loc : Location}
    (hw : (d.tree.walk links start (elements.map fun e => Path.stepOf e.1)).1 = .found loc)
    (hup : dotDot ∉ Path.normalElements root elements) :
    ∃ names : List FileName, Path.normalElements root elements = names.map FileName.element ∧ loc = start ++ names := by
  induction elements using List.reverseRecOn generalizing loc with
  | nil =>
    rw [List.map_nil, FileTree.walk_of_stop rfl] at hw
    exact ⟨[], rfl, by simpa using hw.symm⟩
  | append_singleton elements e ih =>
    rw [Path.normalElements_concat] at hup ⊢
    have hupFirst : dotDot ∉ Path.normalElements root elements :=
      fun hmem => hup (Path.dotDot_mem_normalStep hmem e)
    rw [List.map_append, List.map_singleton] at hw
    by_cases hfirst : ∃ mid, (d.tree.walk links start (elements.map fun e => Path.stepOf e.1)).1 = .found mid
    · obtain ⟨mid, hmid⟩ := hfirst
      obtain ⟨names, hnames, rfl⟩ := ih (fun e' he' => hclean e' (List.mem_append_left _ he')) hmid hupFirst
      rw [FileTree.walk_of_found (Prod.ext hmid rfl)] at hw
      have hloc := FileTree.walk_single_found hfree hw
      exact normalStep_location hstart hnames (hclean e (by simp)) hloc hup
    · exact absurd hw (FileTree.walk_ne_found (fun mid hmid => hfirst ⟨mid, hmid⟩) _ loc)

/-! ## What exists on the way -/

variable {p : Path} {done todo : List Element}

theorem lookup_ne_loop (hfree : d.tree.NoLinks []) (p : Path) : d.lookup p ≠ .loop := by
  rw [lookup]
  split_ifs
  · simp
  · exact FileTree.walk_ne_loop hfree _ _ _

theorem existsAt_iff : d.existsAt p = .returns true ↔ ∃ loc, d.lookup p = .found loc := by
  rw [existsAt]
  rcases d.lookup p with loc | _ | _ | _ <;> simp

theorem existsAt_ne_throws (hfree : d.tree.NoLinks []) (p : Path) : d.existsAt p ≠ .throws := by
  have hloop := lookup_ne_loop hfree p
  rw [existsAt]
  rcases hl : d.lookup p with loc | _ | _ | _
  · simp
  · simp
  · simp
  · exact absurd hl hloop

theorem reaches_names {names : List FileName} (hsolid : d.tree.Solid (d.start p ++ names))
    (hne : p.root = true ∨ names ≠ []) :
    d.Reaches p (names.map FileName.element) (d.start p ++ names) maxLinks where
  clean := by
    intro e he
    obtain ⟨a, -, rfl⟩ := List.mem_map.1 he
    exact a.2.2.2.1
  walk := by
    have hsteps : (names.map FileName.element).map (fun e => Path.stepOf e.1) = names.map Step.into := by
      rw [List.map_map]
      apply List.map_congr_left
      intro a _
      exact Path.stepOf_fileName a
    rw [hsteps]
    exact FileTree.walk_names hsolid maxLinks
  anchored := by simpa using hne

/-- elements that exist are passed -/
theorem leading_through {root : Bool} {passed : List Element}
    (h : ∀ first e, first ++ [e] <+: passed → d.existsAt (.make root (done ++ (first ++ [e])) false) = .returns true) :
    d.leading root done (passed ++ todo) = d.leading root (done ++ passed) todo := by
  induction passed generalizing done with
  | nil => simp
  | cons e passed ih =>
    have hhead := h [] e (by simp)
    rw [List.nil_append] at hhead
    rw [List.cons_append, leading, hhead]
    simp only
    rw [ih, List.append_assoc]
    · rfl
    · intro first e' hpre
      have hnext := h (e :: first) e' (by simpa using hpre)
      simpa using hnext

/-- without links the search for the leading elements ends at some that exist -/
theorem leading_spec (hfree : d.tree.NoLinks []) (root : Bool) (done todo : List Element) :
    ∃ more rest, d.leading root done todo = .returns (done ++ more, rest) ∧ more ++ rest = todo ∧
      (more ≠ [] → d.existsAt (.make root (done ++ more) false) = .returns true) := by
  induction todo generalizing done with
  | nil => exact ⟨[], [], by simp [leading], rfl, fun h => absurd rfl h⟩
  | cons e todo ih =>
    rw [leading]
    rcases hx : d.existsAt (.make root (done ++ [e]) false) with (_ | _) | _
    · exact ⟨[], e :: todo, by simp, rfl, fun h => absurd rfl h⟩
    · obtain ⟨more, rest, hlead, happ, hexists⟩ := ih (done ++ [e])
      refine ⟨e :: more, rest, by simpa using hlead, by simp [happ], ?_⟩
      intro _
      by_cases hmore : more = []
      · rw [hmore]
        exact hx
      · simpa using hexists hmore
    · exact absurd hx (existsAt_ne_throws hfree _)

/-! ## Canonical paths -/

theorem weaklyCanonical_of_leading {loc : Location} (habsent : ∀ l, d.lookup p ≠ .found l) (hloop : d.lookup p ≠ .loop)
    (hlead : d.leading p.root [] p.elements = .returns (done, todo))
    (hfirst : d.lookup (.make p.root done false) = .found loc) (hne : p.root = true ∨ done ≠ []) :
    d.weaklyCanonical p =
      .returns (Path.make true (loc.map FileName.element ++ todo) p.trailing).lexicallyNormal := by
  have hemp : (Path.make p.root done false).isEmpty = false := by
    rcases hne with hroot | hne
    · simp [Path.isEmpty, Path.make, hroot]
    · simp [Path.isEmpty, Path.make, hne]
  rw [weaklyCanonical]
  rcases hl : d.lookup p with l | _ | _ | _
  · exact absurd hl (habsent l)
  · simp [hlead, hemp, canonical, hfirst]
  · simp [hlead, hemp, canonical, hfirst]
  · exact absurd hl hloop

/-- where not even the first element of a relative path exists, it stays relative -/
theorem weaklyCanonical_of_none (habsent : ∀ l, d.lookup p ≠ .found l) (hloop : d.lookup p ≠ .loop)
    (hlead : d.leading p.root [] p.elements = .returns ([], todo)) (hroot : p.root = false) :
    d.weaklyCanonical p = .returns (Path.make false todo p.trailing).lexicallyNormal := by
  rw [hroot] at hlead
  rw [weaklyCanonical]
  rcases hl : d.lookup p with l | _ | _ | _
  · exact absurd hl (habsent l)
  · simp [hlead, hroot, Path.isEmpty, Path.make]
  · simp [hlead, hroot, Path.isEmpty, Path.make]
  · exact absurd hl hloop

/-- the canonical path of `p` is absolute, and inside `b` -/
def CanonicalInside (d : Disk) (b : Location) (p : Path) : Prop :=
  ∃ c, d.weaklyCanonical p = .returns c ∧ c.root = true ∧ b.map FileName.element <+: c.elements

theorem canonicalInside_of_found {loc : Location} (hl : d.lookup p = .found loc) (hb : b <+: loc) :
    d.CanonicalInside b p := by
  refine ⟨.ofLocation loc, ?_, rfl, ?_⟩
  · rw [weaklyCanonical, hl]
  · exact hb.map FileName.element

/-- **Behind a part that exists, a plain path is inside.** -/
theorem weaklyCanonical_inside (hfree : d.tree.NoLinks []) (helements : p.elements = done ++ todo)
    (hne : p.root = true ∨ done ≠ []) (hup : dotDot ∉ todo)
    (hlead : d.leading p.root [] p.elements = d.leading p.root done todo)
    (hdone : d.existsAt (.make p.root done false) = .returns true)
    (hin : ∀ q : Path, q.root = p.root → done <+: q.elements → q.elements <+: p.elements → (d.lookup q).Within b) :
    d.CanonicalInside b p := by
  by_cases hfound : ∃ loc, d.lookup p = .found loc
  · obtain ⟨loc, hl⟩ := hfound
    have hwithin := hin p rfl (by rw [helements]; exact List.prefix_append _ _) (List.prefix_refl _)
    rw [hl] at hwithin
    exact canonicalInside_of_found hl hwithin
  · obtain ⟨more, rest, hspec, happ, hexists⟩ := leading_spec hfree p.root done todo
    have hfirst : d.existsAt (.make p.root (done ++ more) false) = .returns true := by
      by_cases hmore : more = []
      · rw [hmore, List.append_nil]
        exact hdone
      · exact hexists hmore
    obtain ⟨loc, hloc⟩ := existsAt_iff.1 hfirst
    have hwithin := hin (.make p.root (done ++ more) false) rfl (List.prefix_append _ _) (by
      rw [helements, ← happ]
      exact ⟨rest, by simp [Path.make]⟩)
    rw [hloc] at hwithin
    have hanchored : p.root = true ∨ done ++ more ≠ [] := by
      rcases hne with hroot | hne
      · exact .inl hroot
      · exact .inr (by simp [hne])
    have hupRest : dotDot ∉ rest := by
      intro hmem
      apply hup
      rw [← happ]
      exact List.mem_append_right more hmem
    refine ⟨_, weaklyCanonical_of_leading (fun l hl => hfound ⟨l, hl⟩) (lookup_ne_loop hfree p) (hlead.trans hspec) hloc
      hanchored, ?_, ?_⟩
    · exact Path.lexicallyNormal_root _
    · rw [lexicallyNormal_behind loc hupRest]
      exact (List.IsPrefix.map FileName.element hwithin).trans (List.prefix_append _ _)

/-- what is found without going up is below where the lookup starts -/
theorem lookup_stays (hfree : d.tree.NoLinks []) (hb : b <+: d.start p) (hup : ∀ e ∈ p.elements, ¬ dotDot.1 <:+: e.1) :
    (d.lookup p).Within b := by
  rw [lookup]
  split_ifs
  · trivial
  · exact FileTree.walk_stays hfree maxLinks hb _ (Path.up_not_mem_steps hup _)

/-- behind a first element that is not found nothing is found -/
theorem lookup_absent {e : Element} {more : List Element} (helements : p.elements = e :: more)
    (h : ∀ l, d.lookup (.make p.root [e] false) ≠ .found l) (l : Location) : d.lookup p ≠ .found l := by
  by_cases hz : 0 ∈ e.1
  · have hsame : d.lookup p = d.lookup (.make p.root [e] false) := by
      have hfirst : ∃ e' ∈ [e], 0 ∈ e'.1 := ⟨e, by simp, hz⟩
      have hcut := Path.cString_of_nul hfirst more p.trailing false
      rw [List.singleton_append, ← helements] at hcut
      simp only [lookup, Path.steps, Path.make, Bool.false_and, hcut]
      rfl
    rw [hsame]
    exact h l
  · have hclean : ∀ e' ∈ [e], 0 ∉ e'.1 := by simpa using hz
    intro hl
    have hwalk := lookup_eq_walk_of_ne (d := d) (p := p) (by rw [hl]; simp)
    rw [hl, helements, ← List.singleton_append, Path.steps_append hclean] at hwalk
    refine FileTree.walk_ne_found ?_ _ l hwalk.symm
    intro l' hl'
    have hanchor : (Path.make p.root [e] false).root = true ∨
        (Path.cString (Path.make p.root [e] false).elements (Path.make p.root [e] false).trailing).1 ≠ [] := by
      right
      simp [Path.make, Path.cString, hz]
    apply h l'
    rw [lookup_eq_walk hanchor, ← hl']
    simp only [Path.make, Path.steps, Path.cString, if_neg hz, Bool.false_and]
    rfl

end Disk

/-! ## Requests -/

theorem Path.append_elements {p q : Path} (hq : q.root = false) :
    (p.append q).root = p.root ∧ (p.append q).elements = p.elements ++ q.elements := by
  rw [Path.append, if_neg (by simp [hq])]
  split_ifs with hemp
  · rw [List.isEmpty_iff.1 hemp, List.append_nil]
    exact ⟨rfl, rfl⟩
  · exact ⟨rfl, rfl⟩

namespace Filesystem

variable {fs : Filesystem} {d : Disk} {b : Location} {s : Bytes}

/-- the base path is there and leads to `b`; the path of a directory has no NUL bytes -/
structure HasBase (fs : Filesystem) (d : Disk) (b : Location) : Prop where
  nonempty : fs.basePath.isEmpty = false
  clean : ∀ e ∈ fs.basePath.elements, 0 ∉ e.1
  found : d.lookup fs.basePath = .found b

/-- a request whose components are all names -/
def PlainRequest (s : Bytes) : Prop := ∀ e ∈ (Path.ofBytes s).elements, e ≠ dot ∧ e ≠ dotDot

instance instDecidablePlainRequest (s : Bytes) : Decidable (PlainRequest s) :=
  inferInstanceAs (Decidable (∀ e ∈ (Path.ofBytes s).elements, e ≠ dot ∧ e ≠ dotDot))

/-- the plain requests that are accepted -/
structure TakesPlain (fs : Filesystem) (d : Disk) (s : Bytes) : Prop where
  request : ∀ e ∈ (Path.ofBytes s).elements, ¬ dotDot.1 <:+: e.1
  base : ∀ e ∈ (if s = [] then fs.basePath else fs.basePath.lexicallyNormal).elements, ¬ dotDot.1 <:+: e.1
  /-- under the working directory by a relative path, the first component exists -/
  anchored : fs.basePath.root = false → fs.basePath.lexicallyNormal.elements = [dot] →
    ∀ e ∈ (Path.ofBytes s).elements.head?, d.isFound (.make false [e] false) = true

/-- a plain request goes behind the normal form of the base -/
theorem resolve_elements (hne : fs.basePath.isEmpty = false) (hs : s ≠ []) (hplain : PlainRequest s) :
    (fs.resolvePath d s).root = fs.basePath.root ∧
      (fs.resolvePath d s).elements =
        if Path.normalElements fs.basePath.root fs.basePath.elements ++ (Path.ofBytes s).elements = [] ∧
          fs.basePath.root = false then [dot]
        else Path.normalElements fs.basePath.root fs.basePath.elements ++ (Path.ofBytes s).elements := by
  have hnames : (Path.ofBytes s).elements.filter (· ≠ dot) = (Path.ofBytes s).elements := by
    apply List.filter_eq_self.2
    intro e he
    simpa using (hplain e he).1
  have hpath : ∃ q : Path, fs.resolvePath d s = (fs.basePath.append q).lexicallyNormal ∧ q.root = false ∧
      dotDot ∉ q.elements ∧ q.elements.filter (· ≠ dot) = (Path.ofBytes s).elements := by
    rw [resolvePath, if_neg hs]
    simp only [hne, Bool.not_false, if_true]
    refine ⟨_, rfl, ?_⟩
    have hdots : dotDot ∉ (Path.ofBytes s).elements := fun hmem => (hplain dotDot hmem).2 rfl
    split_ifs with hroot
    · rw [Path.relativeToRoot]
      split_ifs with hemp
      · refine ⟨rfl, by simp [Path.make, dot, dotDot], ?_⟩
        simp [Path.make, List.isEmpty_iff.1 hemp]
      · exact ⟨rfl, hdots, hnames⟩
    · exact ⟨by simpa using hroot, hdots, hnames⟩
  obtain ⟨q, hq, hroot, hdots, hfilter⟩ := hpath
  obtain ⟨hroot', helements⟩ := Path.append_elements (p := fs.basePath) hroot
  have hemp : (fs.basePath.append q).isEmpty = false := by
    rw [Path.isEmpty, hroot', helements]
    rw [Path.isEmpty] at hne
    simp only [Bool.and_eq_false_imp, Bool.not_eq_true', List.isEmpty_eq_false_iff] at hne ⊢
    intro hr hnil
    exact hne hr (List.append_eq_nil_iff.1 hnil).1
  rw [hq, Path.lexicallyNormal_root, Path.lexicallyNormal_elements hemp, hroot', helements,
    Path.normalElements_append hdots, hfilter]
  exact ⟨rfl, rfl⟩

/-- what `validate_resolved_path` accepts under a base that is there -/
theorem validate_iff (hb : fs.HasBase d b) (p : Path) :
    fs.validateResolvedPath d p = .returns true ↔
      (∀ e ∈ p.elements, ¬ dotDot.1 <:+: e.1) ∧ d.CanonicalInside b p := by
  have hbase : d.canonical fs.basePath = .returns b := by rw [Disk.canonical, hb.found]
  have htext : (∀ e ∈ p.elements, ¬ dotDot.1 <:+: e.1) ↔ ¬ dotDot.1 <:+: p.string := by
    rw [Path.infix_string_iff]
    push Not
    rfl
  rw [htext, validateResolvedPath]
  split_ifs with hdots hemp
  · simp [hdots]
  · rw [isWithinBasePath, hbase]
    simp only [hb.nonempty, Bool.false_eq_true, if_false, hdots, not_false_eq_true, true_and]
    rw [Disk.CanonicalInside]
    rcases d.weaklyCanonical p with c | _
    · simp
    · simp
  · exact absurd hb.nonempty (by simpa using hemp)

/-! ## Where the base is -/

theorem base_walk (hb : fs.HasBase d b) (hfree : d.tree.NoLinks []) :
    (d.tree.walk Disk.maxLinks (d.start fs.basePath) (fs.basePath.elements.map fun e => Path.stepOf e.1)).1 =
      .found b := by
  have hwalk := Disk.lookup_eq_walk_of_ne (d := d) (p := fs.basePath) (by rw [hb.found]; simp)
  have hsteps := Path.steps_append hb.clean [] fs.basePath.trailing
  rw [List.append_nil] at hsteps
  rw [hb.found, hsteps] at hwalk
  by_cases hfirst : ∃ mid, (d.tree.walk Disk.maxLinks (d.start fs.basePath)
      (fs.basePath.elements.map fun e => Path.stepOf e.1)).1 = .found mid
  · obtain ⟨mid, hmid⟩ := hfirst
    rw [FileTree.walk_of_found (Prod.ext hmid rfl)] at hwalk
    rcases htrailing : fs.basePath.trailing with _ | _ <;> rw [htrailing] at hwalk
    · have hdone (k : ℕ) : (d.tree.walk k mid (Path.steps [] false)).1 = .found mid :=
        congrArg Prod.fst (FileTree.walk_of_stop rfl k)
      rw [hmid, hwalk, hdone]
    · have hhere := FileTree.walk_single_found hfree hwalk.symm
      rw [hmid, hhere]
      rfl
  · exact absurd hwalk.symm (FileTree.walk_ne_found (fun mid hmid => hfirst ⟨mid, hmid⟩) _ b)

theorem base_location (hb : fs.HasBase d b) (hfree : d.tree.NoLinks [])
    (hup : dotDot ∉ Path.normalElements fs.basePath.root fs.basePath.elements) :
    ∃ names : List FileName,
      Path.normalElements fs.basePath.root fs.basePath.elements = names.map FileName.element ∧
      b = d.start fs.basePath ++ names := by
  have hstart : fs.basePath.root = true → d.start fs.basePath = [] := by
    intro hroot
    rw [Disk.start, if_pos hroot]
  exact Disk.normal_location hfree hstart hb.clean (base_walk hb hfree) hup

/-- a relative base is reached from a directory -/
theorem start_isDirectory (hb : fs.HasBase d b) (hfree : d.tree.NoLinks []) (hroot : fs.basePath.root = false) :
    d.tree.isDirectory (d.start fs.basePath) = true := by
  have hwalk := base_walk hb hfree
  rcases hel : fs.basePath.elements with _ | ⟨e, more⟩
  · have hemp := hb.nonempty
    rw [Path.isEmpty, hroot, hel] at hemp
    exact absurd hemp (by simp)
  · rw [hel, List.map_cons] at hwalk
    exact FileTree.isDirectory_of_walk_found hwalk

/-! ## Where a plain request leads -/

/-- behind names of the base, or behind the root -/
theorem inside_of_names (hfree : d.tree.NoLinks []) {p : Path} {names : List FileName} {more : List Element}
    (hb : d.tree.Solid (d.start p ++ names)) (hne : p.root = true ∨ names ≠ [])
    (helements : p.elements = names.map FileName.element ++ more) (hup : ∀ e ∈ more, ¬ dotDot.1 <:+: e.1) :
    d.CanonicalInside (d.start p ++ names) p := by
  have hreach := Disk.reaches_names hb hne
  have hlead : d.leading p.root [] p.elements = d.leading p.root (names.map FileName.element) more := by
    rw [helements, Disk.leading_through, List.nil_append]
    intro first e hpre
    obtain ⟨rest, hrest⟩ := hpre
    have hfirst : first ++ [e] = (names.take (first ++ [e]).length).map FileName.element := by
      rw [List.map_take, ← hrest, List.take_left']
      rfl
    have hsolid : d.tree.Solid (d.start p ++ names.take (first ++ [e]).length) := by
      have hall := hb
      rw [← List.take_append_drop (first ++ [e]).length names, ← List.append_assoc] at hall
      exact hall.of_append
    have hnames : names.take (first ++ [e]).length ≠ [] := by
      intro hnil
      rw [hnil] at hfirst
      exact absurd hfirst (by simp)
    rw [List.nil_append, hfirst]
    exact Disk.existsAt_iff.2 ⟨_, (Disk.reaches_names hsolid (.inr hnames)).lookup_first⟩
  apply Disk.weaklyCanonical_inside hfree helements _ _ hlead
  · exact Disk.existsAt_iff.2 ⟨_, hreach.lookup_first⟩
  · intro q hroot hlong hshort
    obtain ⟨rest, hrest⟩ := hlong
    rw [hreach.lookup hroot hrest.symm]
    apply FileTree.walk_stays hfree _ (List.prefix_refl _)
    apply Path.up_not_mem_steps
    intro e he
    apply hup
    rw [← hrest, helements, List.prefix_append_right_inj] at hshort
    exact hshort.subset he
  · simpa using hne
  · exact fun hmem => hup dotDot hmem (List.infix_refl _)

/-- in the working directory, by a relative path -/
theorem inside_cwd_iff (hfree : d.tree.NoLinks []) {p : Path} {e : Element} {more : List Element}
    (hroot : p.root = false) (helements : p.elements = e :: more) (hup : ∀ e ∈ p.elements, ¬ dotDot.1 <:+: e.1) :
    d.CanonicalInside (d.start p) p ↔ d.isFound (.make false [e] false) = true := by
  have hfirst : Path.make false [e] false = .make p.root [e] false := by rw [hroot]
  rw [Disk.isFound, decide_eq_true_iff, hfirst]
  constructor
  · rintro ⟨c, hc, hcroot, -⟩
    rcases hx : d.existsAt (.make p.root [e] false) with (_ | _) | _
    · exfalso
      have hlead : d.leading p.root [] p.elements = .returns ([], e :: more) := by
        rw [helements, Disk.leading, List.nil_append, hx]
      have habsent := Disk.lookup_absent helements (Disk.existsAt_returns_false hx)
      rw [Disk.weaklyCanonical_of_none habsent (Disk.lookup_ne_loop hfree p) hlead hroot] at hc
      obtain rfl := Call.returns.inj hc
      rw [Path.lexicallyNormal_root] at hcroot
      exact absurd hcroot (by simp [Path.make])
    · rfl
    · exact absurd hx (Disk.existsAt_ne_throws hfree _)
  · intro hx
    have hlead : d.leading p.root [] p.elements = d.leading p.root [e] more := by
      rw [helements, Disk.leading, List.nil_append, hx]
    have hsplit : p.elements = [e] ++ more := helements
    apply Disk.weaklyCanonical_inside hfree hsplit (by simp) _ hlead hx
    · intro q hq _ hshort
      apply Disk.lookup_stays hfree
      · rw [Disk.start_congr hq]
      · exact fun e' he' => hup e' (hshort.subset he')
    · intro hmem
      apply hup dotDot _ (List.infix_refl _)
      rw [helements]
      exact List.mem_cons_of_mem e hmem

/-- the working directory itself -/
theorem lookup_dot {p : Path} (helements : p.elements = [dot]) (hd : d.tree.isDirectory (d.start p) = true) :
    d.lookup p = .found (d.start p) := by
  have hcut : Path.cString p.elements p.trailing = ([.here], p.trailing) := by
    rw [helements]
    rfl
  have hadv : d.tree.advance (d.start p) (Path.steps p.elements p.trailing) = .stop (.found (d.start p)) := by
    rw [Path.steps, hcut]
    cases p.trailing
    · simp [FileTree.advance_cons, FileTree.advance, hd]
    · simp [FileTree.advance_cons, FileTree.advance, hd]
  rw [Disk.lookup_eq_walk (.inr (by simp [hcut])), FileTree.walk_of_stop hadv]

theorem inside_iff_anchored (hb : fs.HasBase d b) (hfree : d.tree.NoLinks []) (hs : s ≠ []) (hplain : PlainRequest s)
    (hup : ∀ e ∈ (fs.resolvePath d s).elements, ¬ dotDot.1 <:+: e.1)
    (hupBase : dotDot ∉ Path.normalElements fs.basePath.root fs.basePath.elements) :
    d.CanonicalInside b (fs.resolvePath d s) ↔
      (fs.basePath.root = false → fs.basePath.lexicallyNormal.elements = [dot] →
        ∀ e ∈ (Path.ofBytes s).elements.head?, d.isFound (.make false [e] false) = true) := by
  obtain ⟨hroot, helements⟩ := resolve_elements (d := d) hb.nonempty hs hplain
  obtain ⟨names, hnames, rfl⟩ := base_location hb hfree hupBase
  have hnormal := Path.lexicallyNormal_elements hb.nonempty
  have hstart : d.start (fs.resolvePath d s) = d.start fs.basePath := Disk.start_congr hroot
  have hsolid : d.tree.Solid (d.start fs.basePath ++ names) := by
    have hsound := d.lookup_sound fs.basePath
    rw [hb.found] at hsound
    exact hsound
  rw [hnames] at helements hnormal
  generalize fs.resolvePath d s = p at hroot helements hstart hup
  rw [← hstart] at hsolid ⊢
  by_cases hanchored : fs.basePath.root = true ∨ names ≠ []
  · have hnot : ¬ (names.map FileName.element ++ (Path.ofBytes s).elements = [] ∧ fs.basePath.root = false) := by
      rintro ⟨hnil, hr⟩
      rcases hanchored with h | h
      · exact absurd (hr.symm.trans h) (by simp)
      · exact h (by simpa using (List.append_eq_nil_iff.1 hnil).1)
    rw [if_neg hnot] at helements
    have hinside : d.CanonicalInside (d.start p ++ names) p := by
      apply inside_of_names hfree hsolid (by rwa [hroot]) helements
      intro e he
      apply hup
      rw [helements]
      exact List.mem_append_right _ he
    refine ⟨?_, fun _ => hinside⟩
    intro _ hr hdot
    exfalso
    obtain ⟨a, more, rfl⟩ : ∃ a more, names = a :: more := by
      rcases hanchored with h | h
      · exact absurd (hr.symm.trans h) (by simp)
      · exact List.exists_cons_of_ne_nil h
    rw [hnormal, if_neg (by simp)] at hdot
    have ha : a.element = dot := (List.cons.inj hdot).1
    exact a.2.2.2.2.1 (congrArg Subtype.val ha)
  · obtain ⟨hr, rfl⟩ : fs.basePath.root = false ∧ names = [] := by simpa using hanchored
    rw [if_pos (by simp [hr])] at hnormal
    rw [List.append_nil]
    rcases hrequest : (Path.ofBytes s).elements with _ | ⟨e, more⟩
    · rw [hrequest, if_pos (by simp [hr])] at helements
      have hdir : d.tree.isDirectory (d.start p) = true := by
        rw [hstart]
        exact start_isDirectory hb hfree hr
      have hinside := Disk.canonicalInside_of_found (lookup_dot helements hdir) (List.prefix_refl _)
      exact ⟨fun _ _ _ e he => absurd he (by simp), fun _ => hinside⟩
    · rw [hrequest, if_neg (by simp)] at helements
      rw [inside_cwd_iff hfree (hroot.trans hr) helements hup]
      constructor
      · intro hfound _ _ e' he'
        obtain rfl : e = e' := by simpa using he'
        exact hfound
      · intro h
        exact h hr hnormal e rfl

/-- **Plain requests.** Under a base without symbolic links, a request of plain names is accepted iff no name of it
and no element of the normal form of the base has two dots in it, and it is anchored. -/
theorem plain_accepted_iff (hb : fs.HasBase d b) (hfree : d.tree.NoLinks []) (hplain : PlainRequest s) :
    fs.validateResolvedPath d (fs.resolvePath d s) = .returns true ↔ fs.TakesPlain d s := by
  rw [validate_iff hb]
  by_cases hs : s = []
  · subst hs
    have hempty : (Path.ofBytes []).elements = [] := rfl
    have hresolved : fs.resolvePath d [] = fs.basePath := by simp [resolvePath, hb.nonempty]
    have hinside := Disk.canonicalInside_of_found hb.found (List.prefix_refl b)
    rw [hresolved]
    constructor
    · rintro ⟨hup, -⟩
      exact ⟨by simp [hempty], by simpa using hup, by simp [hempty]⟩
    · intro h
      exact ⟨by simpa using h.base, hinside⟩
  · obtain ⟨-, helements⟩ := resolve_elements (d := d) hb.nonempty hs hplain
    have hnormal := Path.lexicallyNormal_elements hb.nonempty
    have hdot : ¬ dotDot.1 <:+: dot.1 := by decide
    have hdots : (∀ e ∈ (fs.resolvePath d s).elements, ¬ dotDot.1 <:+: e.1) ↔
        (∀ e ∈ (Path.ofBytes s).elements, ¬ dotDot.1 <:+: e.1) ∧
          ∀ e ∈ fs.basePath.lexicallyNormal.elements, ¬ dotDot.1 <:+: e.1 := by
      rw [helements, hnormal]
      by_cases hnone : Path.normalElements fs.basePath.root fs.basePath.elements = [] ∧ fs.basePath.root = false
      · rw [if_pos hnone, hnone.1, List.nil_append]
        split_ifs with hreq
        · simp [hreq.1, hdot]
        · simp [hdot]
      · have hsome : ¬ (Path.normalElements fs.basePath.root fs.basePath.elements ++ (Path.ofBytes s).elements = [] ∧
            fs.basePath.root = false) := fun h => hnone ⟨(List.append_eq_nil_iff.1 h.1).1, h.2⟩
        rw [if_neg hnone, if_neg hsome, List.forall_mem_append, and_comm]
    have hupBase : (∀ e ∈ fs.basePath.lexicallyNormal.elements, ¬ dotDot.1 <:+: e.1) →
        dotDot ∉ Path.normalElements fs.basePath.root fs.basePath.elements := by
      intro hbase hmem
      rw [hnormal, if_neg (fun h => by simp [h.1] at hmem)] at hbase
      exact hbase dotDot hmem (List.infix_refl _)
    constructor
    · rintro ⟨hup, hinside⟩
      obtain ⟨hrequest, hbase⟩ := hdots.1 hup
      have hanchored := (inside_iff_anchored hb hfree hs hplain hup (hupBase hbase)).1 hinside
      exact ⟨hrequest, by rwa [if_neg hs], hanchored⟩
    · rintro ⟨hrequest, hbase, hanchored⟩
      rw [if_neg hs] at hbase
      have hup := hdots.2 ⟨hrequest, hbase⟩
      exact ⟨hup, (inside_iff_anchored hb hfree hs hplain hup (hupBase hbase)).2 hanchored⟩

/-! ## Names with two dots -/

theorem data_hasBase : dataFolder.HasBase dataWithFile [fileName "data" data_isName] where
  nonempty := by decide
  clean := by decide
  found := by decide

theorem data_noLinks : dataWithFile.tree.NoLinks [] := FileTree.noLinks_of_entries (by decide) []

/-- the file in the base directory is accepted -/
theorem plain_accepted_file :
    dataFolder.validateResolvedPath dataWithFile (dataFolder.resolvePath dataWithFile (text "f")) = .returns true := by
  apply (plain_accepted_iff data_hasBase data_noLinks (by decide)).2
  exact ⟨by decide, by decide, by decide⟩

/-- the working directory as the base, by a relative path -/
def workingFolder : Filesystem := ⟨Path.ofBytes (text ".")⟩

/-- `/data`, where the agent runs -/
def runInData : Disk := { dataWithFile with cwd := [fileName "data" data_isName] }

/-- **A name that goes nowhere near the parent directory is refused for its two dots**, and under `.` every new name
is. -/
theorem double_dot_name_refused :
    (dataFolder.HasBase dataWithFile [fileName "data" data_isName] ∧ dataWithFile.tree.NoLinks [] ∧
      PlainRequest (text "a..b") ∧
      dataFolder.validateResolvedPath dataWithFile (dataFolder.resolvePath dataWithFile (text "a..b")) =
        .returns false) ∧
    workingFolder.HasBase runInData [fileName "data" data_isName] ∧ runInData.tree.NoLinks [] ∧
      PlainRequest (text "new") ∧
      workingFolder.validateResolvedPath runInData (workingFolder.resolvePath runInData (text "new")) =
        .returns false := by
  refine ⟨⟨data_hasBase, data_noLinks, by decide, by decide⟩, ?_, data_noLinks, by decide, by decide⟩
  exact ⟨by decide, by decide, by decide⟩

end Filesystem

end Iotmp
