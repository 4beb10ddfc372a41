/-
Paths (`std::filesystem::path` on POSIX): a root directory or not, elements, and a final separator, which counts as an
empty last element.

- `ofBytes`, `string`: from a string of any bytes and back, repeated separators being one.
- `append`, `lexicallyNormal`, `relativeToRoot`, `parentPath`: `operator/`, `lexically_normal`,
  `lexically_relative("/")` and `parent_path`, as libstdc++ computes them. Two paths are equal if they are equal element
  by element.
- `cString`, `steps`: the components the system sees in `c_str()`, which ends at the first NUL byte.
-/
import Mathlib.Tactic
import Iotmp.Lib.FileTree
import Iotmp.Core.Json

namespace Iotmp

open FileTree (Step)

/-! ## Elements -/

def preferredSeparator : UInt8 := 0x2F

/-- an element of a path, any bytes but separators -/
abbrev Element := { n : Bytes // n ≠ [] ∧ preferredSeparator ∉ n }

def dot : Element := ⟨[0x2E], by decide⟩

def dotDot : Element := ⟨[0x2E, 0x2E], by decide⟩

/-- a name in a directory -/
abbrev FileName := { n : Bytes // n ≠ [] ∧ preferredSeparator ∉ n ∧ 0 ∉ n ∧ n ≠ dot.1 ∧ n ≠ dotDot.1 }

def FileName.element (n : FileName) : Element := ⟨n.1, n.2.1, n.2.2.1⟩

theorem FileName.element_injective : Function.Injective FileName.element := by
  intro a b h
  exact Subtype.ext (congrArg (fun e : Element => e.1) h)

def element? (n : Bytes) : Option Element := if h : n ≠ [] ∧ preferredSeparator ∉ n then some ⟨n, h⟩ else none

/-! ## Paths -/

structure Path where
  root : Bool := false
  elements : List Element := []
  trailing : Bool := false
  trailing_ne : trailing = true → elements ≠ [] := by simp
deriving DecidableEq

namespace Path

/-- a path; a final separator needs an element before it -/
def make (root : Bool) (elements : List Element) (trailing : Bool) : Path where
  root := root
  elements := elements
  trailing := trailing && !elements.isEmpty
  trailing_ne := by simp

def ofBytes (s : Bytes) : Path :=
  make (s.head? == some preferredSeparator) ((s.splitOn preferredSeparator).filterMap element?)
    (s.getLast? == some preferredSeparator)

def string (p : Path) : Bytes :=
  (if p.root then [preferredSeparator] else []) ++ List.intercalate [preferredSeparator] (p.elements.map Subtype.val) ++
    if p.trailing then [preferredSeparator] else []

/-- the characters of a C string: it ends before its first NUL -/
def cChars (s : Bytes) : Bytes := s.takeWhile (· ≠ 0)

def isEmpty (p : Path) : Bool := !p.root && p.elements.isEmpty

def parentPath (p : Path) : Path := make p.root (if p.trailing then p.elements else p.elements.dropLast) false

/-- `p / q` -/
def append (p q : Path) : Path :=
  if q.root then q
  else if q.elements.isEmpty then make p.root p.elements true
  else make p.root (p.elements ++ q.elements) q.trailing

/-- `lexically_relative("/")` of an absolute path -/
def relativeToRoot (p : Path) : Path :=
  if p.elements.isEmpty then make false [dot] false else make false p.elements p.trailing

/-- one round of `lexically_normal`: the elements so far, and whether they end with a separator -/
def normalStep (root : Bool) (done : List Element × Bool) (e : Element) : List Element × Bool :=
  if e = dotDot then
    match done.1.getLast? with
    | none => if root then done else ([dotDot], false)
    | some last => if last = dotDot then (done.1 ++ [dotDot], false) else (done.1.dropLast, true)
  else if e = dot then (done.1, true)
  else (done.1 ++ [e], false)

/-- the rounds of `lexically_normal`, the final separator last -/
def normalParts (p : Path) : List Element × Bool :=
  let done := p.elements.foldl (normalStep p.root) ([], false)
  if p.trailing then (done.1, true) else done

def lexicallyNormal (p : Path) : Path :=
  let done := p.normalParts
  if p.isEmpty then p
  else if done.1.getLast? = some dotDot then make p.root done.1 false
  else if done.1.isEmpty && !p.root then make false [dot] false
  else make p.root done.1 done.2

/-! ## What the system sees -/

/-- the component a name without separator and NUL stands for -/
def stepOf (n : Bytes) : Step FileName :=
  if n = dotDot.1 then .up
  else if h : n ≠ [] ∧ preferredSeparator ∉ n ∧ 0 ∉ n ∧ n ≠ dot.1 ∧ n ≠ dotDot.1 then .into ⟨n, h⟩
  else .here

/-- the components of `c_str()`, and whether it ends with a separator -/
def cString : List Element → Bool → List (Step FileName) × Bool
  | [], slash => ([], slash)
  | e :: es, slash =>
    if 0 ∈ e.1 then
      let n := e.1.takeWhile (· ≠ 0)
      if n = [] then ([], true) else ([stepOf n], false)
    else (stepOf e.1 :: (cString es slash).1, (cString es slash).2)

/-- the same for a lookup, where a final separator asks for a directory -/
def steps (elements : List Element) (trailing : Bool) : List (Step FileName) :=
  let c := cString elements trailing
  if c.2 then c.1 ++ [.here] else c.1

/-- the path of a location -/
def ofLocation (loc : List FileName) : Path := make true (loc.map FileName.element) false

example : ofBytes [0x2F, 0x2F, 0x61, 0x2F, 0x2F, 0x62, 0x2F] =
    { root := true, elements := [⟨[0x61], by decide⟩, ⟨[0x62], by decide⟩], trailing := true } := by decide

/-! ## Components -/

theorem stepOf_eq_up {n : Bytes} (h : stepOf n = .up) : n = dotDot.1 := by
  rw [stepOf] at h
  split_ifs at h with hd
  exact hd

theorem stepOf_fileName (a : FileName) : stepOf a.1 = .into a := by
  rw [stepOf, if_neg a.2.2.2.2.2, dif_pos a.2]

/-- the first component that an element gives, NUL bytes or not -/
def headStep (e : Element) : Step FileName :=
  if 0 ∈ e.1 then if e.1.takeWhile (· ≠ 0) = [] then .here else stepOf (e.1.takeWhile (· ≠ 0)) else stepOf e.1

/-- elements before the first NUL byte are seen whole -/
theorem cString_append {first : List Element} (h : ∀ e ∈ first, 0 ∉ e.1) (second : List Element) (slash : Bool) :
    cString (first ++ second) slash =
      (first.map (fun e => stepOf e.1) ++ (cString second slash).1, (cString second slash).2) := by
  induction first with
  | nil => rfl
  | cons e first ih =>
    rw [List.cons_append, cString, if_neg (h e List.mem_cons_self), ih fun e' he' => h e' (List.mem_cons_of_mem e he')]
    rfl

theorem steps_append {first : List Element} (h : ∀ e ∈ first, 0 ∉ e.1) (second : List Element) (slash : Bool) :
    steps (first ++ second) slash = first.map (fun e => stepOf e.1) ++ steps second slash := by
  rw [steps, steps, cString_append h]
  simp only
  split_ifs
  · rw [List.append_assoc]
  · rfl

/-- elements after a NUL byte are not seen -/
theorem cString_of_nul {first : List Element} (h : ∃ e ∈ first, 0 ∈ e.1) (second : List Element) (slash slash' : Bool) :
    cString (first ++ second) slash = cString first slash' := by
  induction first with
  | nil => exact absurd h (by simp)
  | cons e first ih =>
    rw [List.cons_append, cString, cString]
    split_ifs with hn
    · rfl
    · have hrest : ∃ e ∈ first, 0 ∈ e.1 := by
        obtain ⟨e', he', hz⟩ := h
        rcases List.mem_cons.1 he' with rfl | he'
        · exact absurd hz hn
        · exact ⟨e', he', hz⟩
      rw [ih hrest]

theorem cString_cons_nul {e : Element} (h : 0 ∈ e.1) (more : List Element) (slash : Bool) :
    cString (e :: more) slash =
      if e.1.takeWhile (· ≠ 0) = [] then ([], true) else ([stepOf (e.1.takeWhile (· ≠ 0))], false) := by
  rw [cString, if_pos h]

theorem steps_cons (e : Element) (more : List Element) (slash : Bool) :
    ∃ rest, steps (e :: more) slash = headStep e :: rest := by
  rw [steps, cString, headStep]
  by_cases hz : 0 ∈ e.1
  · rw [if_pos hz, if_pos hz]
    simp only
    by_cases hn : e.1.takeWhile (· ≠ 0) = []
    · rw [if_pos hn, if_pos hn]
      exact ⟨[], rfl⟩
    · rw [if_neg hn, if_neg hn]
      exact ⟨[], rfl⟩
  · rw [if_neg hz, if_neg hz]
    simp only
    split_ifs
    · exact ⟨_, rfl⟩
    · exact ⟨_, rfl⟩

/-- a component that is a name is seen whatever follows it -/
theorem cString_cons_into {e : Element} {a : FileName} (h : headStep e = .into a) (more : List Element) (slash : Bool) :
    ∃ rest, (cString (e :: more) slash).1 = .into a :: rest := by
  rw [headStep] at h
  by_cases hz : 0 ∈ e.1
  · rw [if_pos hz] at h
    rw [cString_cons_nul hz]
    split_ifs at h ⊢
    exact ⟨[], by rw [h]⟩
  · rw [if_neg hz] at h
    rw [cString, if_neg hz]
    exact ⟨_, by rw [h]⟩

/-- without two dots in an element, no component goes up -/
theorem up_not_mem_cString {elements : List Element} (h : ∀ e ∈ elements, ¬ dotDot.1 <:+: e.1) (slash : Bool) :
    Step.up ∉ (cString elements slash).1 := by
  induction elements with
  | nil => simp [cString]
  | cons e more ih =>
    have hstep : ∀ n, n <+: e.1 → stepOf n ≠ .up := by
      intro n hn hup
      apply h e List.mem_cons_self
      rw [← stepOf_eq_up hup]
      exact hn.isInfix
    have hmore := ih fun e' he' => h e' (List.mem_cons_of_mem e he')
    by_cases hz : 0 ∈ e.1
    · have hhead := hstep _ (List.takeWhile_prefix (fun c => decide (c ≠ 0)))
      rw [cString_cons_nul hz]
      split_ifs
      · exact List.not_mem_nil
      · exact fun hup => hhead (List.mem_singleton.1 hup).symm
    · have hhead := hstep e.1 (List.prefix_refl _)
      rw [cString, if_neg hz]
      simp only [List.mem_cons, not_or]
      exact ⟨hhead.symm, hmore⟩

theorem up_not_mem_steps {elements : List Element} (h : ∀ e ∈ elements, ¬ dotDot.1 <:+: e.1) (slash : Bool) :
    Step.up ∉ steps elements slash := by
  have hc := up_not_mem_cString h slash
  rw [steps]
  split_ifs
  · simpa using hc
  · exact hc

/-! ## Strings and normal forms -/

theorem mem_intersperse {α : Type*} (sep : α) {xs : List α} {x : α} (h : x ∈ xs) : x ∈ xs.intersperse sep := by
  induction xs with
  | nil => exact absurd h (by simp)
  | cons y xs ih =>
    rcases xs with _ | ⟨z, xs⟩
    · simpa using h
    · rw [List.intersperse_cons_cons]
      rcases List.mem_cons.1 h with rfl | h
      · exact List.mem_cons_self
      · exact List.mem_cons_of_mem y (List.mem_cons_of_mem sep (ih h))

/-- the text of a path has each of its elements in it -/
theorem element_infix_string {p : Path} {e : Element} (h : e ∈ p.elements) : e.1 <:+: p.string := by
  have hinter : e.1 <:+: List.intercalate [preferredSeparator] (p.elements.map Subtype.val) := by
    rw [List.intercalate]
    apply List.infix_of_mem_flatten
    apply mem_intersperse
    exact List.mem_map_of_mem h
  set middle := List.intercalate [preferredSeparator] (p.elements.map Subtype.val) with hmiddle
  rw [string, ← hmiddle]
  calc e.1 <:+: middle := hinter
    _ <:+: _ ++ middle := (List.suffix_append _ middle).isInfix
    _ <:+: _ ++ middle ++ _ := (List.prefix_append (_ ++ middle) _).isInfix

theorem normalStep_of_ne {root : Bool} {done : List Element × Bool} {e : Element} (h : e ≠ dotDot) :
    (normalStep root done e).1 = done.1 ++ [e].filter (· ≠ dot) := by
  rw [normalStep, if_neg h]
  split_ifs with hd
  · simp [hd]
  · simp [hd]

/-- without two dots, a normal form only loses the single ones -/
theorem normalParts_fst {p : Path} (h : dotDot ∉ p.elements) : p.normalParts.1 = p.elements.filter (· ≠ dot) := by
  have hfold : ∀ (es : List Element) (done : List Element × Bool), dotDot ∉ es →
      (es.foldl (normalStep p.root) done).1 = done.1 ++ es.filter (· ≠ dot) := by
    intro es
    induction es with
    | nil => intro done _; simp
    | cons e es ih =>
      intro done hes
      obtain ⟨hne, hrest⟩ : dotDot ≠ e ∧ dotDot ∉ es := by simpa using hes
      rw [List.foldl_cons, ih _ hrest, normalStep_of_ne hne.symm, List.append_assoc, ← List.filter_append]
      rfl
  have hall := hfold p.elements ([], false) h
  rw [normalParts]
  split_ifs
  · simpa using hall
  · simpa using hall

theorem lexicallyNormal_of_root {p : Path} (hr : p.root = true) (h : dotDot ∉ p.elements) :
    p.lexicallyNormal.root = true ∧ p.lexicallyNormal.elements = p.elements.filter (· ≠ dot) := by
  have hfst := normalParts_fst h
  have hlast : p.normalParts.1.getLast? ≠ some dotDot := by
    intro hl
    apply h
    have hmem := List.mem_of_getLast? hl
    rw [hfst] at hmem
    exact List.mem_of_mem_filter hmem
  have hemp : p.isEmpty = false := by simp [isEmpty, hr]
  rw [lexicallyNormal]
  simp only [hemp, Bool.false_eq_true, if_false, hlast, hr, Bool.not_true, Bool.and_false]
  exact ⟨rfl, hfst⟩

theorem lexicallyNormal_root (p : Path) : p.lexicallyNormal.root = p.root := by
  rw [lexicallyNormal]
  split_ifs with h1 h2 h3
  · rfl
  · rfl
  · simp only [Bool.and_eq_true, Bool.not_eq_true'] at h3
    exact h3.2.symm
  · rfl

/-- the rounds keep no single dot -/
theorem dot_not_mem_normalParts (p : Path) : dot ∉ p.normalParts.1 := by
  have hround : ∀ (done : List Element × Bool) (e : Element), dot ∉ done.1 → dot ∉ (normalStep p.root done e).1 := by
    intro done e hdone
    by_cases hup : e = dotDot
    · rw [normalStep, if_pos hup]
      rcases done.1.getLast? with _ | last
      · simp only
        split_ifs
        · exact hdone
        · simp [dot, dotDot]
      · simp only
        split_ifs
        · simpa [dot, dotDot] using hdone
        · exact fun hmem => hdone (List.mem_of_mem_dropLast hmem)
    · rw [normalStep_of_ne hup]
      simpa using hdone
  have hfold : ∀ (es : List Element) (done : List Element × Bool), dot ∉ done.1 →
      dot ∉ (es.foldl (normalStep p.root) done).1 := by
    intro es
    induction es with
    | nil => intro done hdone; exact hdone
    | cons e es ih => intro done hdone; exact ih _ (hround done e hdone)
  have hall := hfold p.elements ([], false) (by simp)
  rw [normalParts]
  split_ifs
  · exact hall
  · exact hall

/-- a normal form is a single dot, or has none -/
theorem dot_mem_lexicallyNormal {p : Path} (h : dot ∈ p.lexicallyNormal.elements) :
    p.lexicallyNormal.elements = [dot] := by
  have hparts := dot_not_mem_normalParts p
  rw [lexicallyNormal] at h ⊢
  split_ifs at h ⊢ with h1 h2 h3
  · rw [isEmpty] at h1
    simp only [Bool.and_eq_true, List.isEmpty_iff] at h1
    rw [h1.2] at h
    exact absurd h (by simp)
  · exact absurd h hparts
  · rfl
  · exact absurd h hparts

end Path

end Iotmp
