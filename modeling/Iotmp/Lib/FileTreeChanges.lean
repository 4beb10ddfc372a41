/-
What changes in a tree of files and what does not: contents, entries taken away, subtrees that move.

- `SameShape`: two trees that differ in the contents of files only; walks are the same in both.
- `node_write`, `node_remove`: what is at a location after a write or a removal.
- `walk_add`: the walk that ended at a missing component finds the entry that is added there.
- `rename`: the subtree at a location replaces what is at another one; `node_rename_below`, `node_rename_aside`.
-/
import Mathlib.Tactic
import Iotmp.Lib.FileTree

namespace FileTree

/-! ## Contents -/

/-- a node without the content of a file -/
def Node.shape {α β : Type*} : Node α β → Node α Unit
  | .directory => .directory
  | .file _ => .file ()
  | .link target => .link target
  | .special => .special

theorem Node.isDirectory_shape {α β : Type*} (n : Node α β) : n.shape.isDirectory = n.isDirectory := by cases n <;> rfl

/-- two nodes of one shape are one link, or no links -/
theorem Node.link_of_shape {α β : Type*} {n n' : Node α β} (h : n'.shape = n.shape) :
    (∃ target, n = .link target ∧ n' = .link target) ∨ n.isLink = false ∧ n'.isLink = false := by
  cases n <;> cases n' <;> simp_all [Node.shape, Node.isLink]

variable {α β : Type*} [DecidableEq α]

def SameShape (t t' : FileTree α β) : Prop := ∀ loc, (t'.node loc).map Node.shape = (t.node loc).map Node.shape

theorem SameShape.trans {t t' t'' : FileTree α β} (h : SameShape t t') (h' : SameShape t' t'') : SameShape t t'' :=
  fun loc => (h' loc).trans (h loc)

theorem SameShape.isDirectory {t t' : FileTree α β} (h : SameShape t t') (loc : List α) :
    t'.isDirectory loc = t.isDirectory loc := by
  have hany : ∀ o : Option (Node α β), o.any Node.isDirectory = (o.map Node.shape).any Node.isDirectory := by
    intro o
    rcases o with _ | n
    · rfl
    · simp [Node.isDirectory_shape]
  rw [FileTree.isDirectory, FileTree.isDirectory, hany, hany, h loc]

theorem SameShape.node_eq_none {t t' : FileTree α β} (h : SameShape t t') (loc : List α) :
    t'.node loc = none ↔ t.node loc = none := by
  rw [← Option.map_eq_none_iff (f := Node.shape), h loc, Option.map_eq_none_iff]

theorem advance_shape {t t' : FileTree α β} (h : SameShape t t') (cur : List α) (steps : List (Step α)) :
    t'.advance cur steps = t.advance cur steps := by
  induction steps generalizing cur with
  | nil => rfl
  | cons s rest ih =>
    rw [advance_cons, advance_cons, h.isDirectory]
    rcases t.isDirectory cur with _ | _
    · rfl
    · simp only [Bool.not_true, Bool.false_eq_true, if_false]
      cases s with
      | here => exact ih cur
      | up => exact ih cur.dropLast
      | into a =>
        have hnode := h (cur ++ [a])
        simp only
        rcases hn : t.node (cur ++ [a]) with _ | n
        · rw [(h.node_eq_none _).2 hn]
        · rw [hn] at hnode
          obtain ⟨n', hn', hshape⟩ := Option.map_eq_some_iff.1 hnode
          rw [hn']
          rcases Node.link_of_shape hshape with ⟨target, rfl, rfl⟩ | ⟨hlink, hlink'⟩
          · rfl
          · cases n with
            | link target => exact absurd hlink (by simp [Node.isLink])
            | _ =>
              cases n' with
              | link target => exact absurd hlink' (by simp [Node.isLink])
              | _ => exact ih (cur ++ [a])

/-- **Walks do not depend on contents.** -/
theorem walk_shape {t t' : FileTree α β} (h : SameShape t t') (links : ℕ) (cur : List α) (steps : List (Step α)) :
    t'.walk links cur steps = t.walk links cur steps := by
  induction links generalizing cur steps with
  | zero => rw [walk, walk, advance_shape h]
  | succ links ih =>
    rcases hf : t.advance cur steps with o | ⟨dir, target, rest⟩
    · rw [walk_of_stop hf, walk_of_stop ((advance_shape h cur steps).trans hf)]
    · rw [walk_of_follow hf, walk_of_follow ((advance_shape h cur steps).trans hf)]
      exact ih _ _

theorem node_write {t : FileTree α β} {loc : List α} (h : t.isFile loc = true) (content : β) (loc' : List α) :
    (t.write loc content).node loc' = if loc' = loc then some (.file content) else t.node loc' := by
  have hne : loc ≠ [] := by
    rintro rfl
    simp [isFile, Node.isFile] at h
  rw [write, dif_pos h]
  exact nodeIn_cons _ _ _ _ hne

theorem write_of_not_file {t : FileTree α β} {loc : List α} (h : t.isFile loc = false) (content : β) :
    t.write loc content = t := by
  rw [write, dif_neg (by simp [h])]

theorem sameShape_write (t : FileTree α β) (loc : List α) (content : β) : SameShape t (t.write loc content) := by
  intro loc'
  rcases hfile : t.isFile loc with _ | _
  · rw [write_of_not_file hfile]
  · rw [node_write hfile]
    split_ifs with hloc
    · obtain ⟨old, hold⟩ := (isFile_iff t loc).1 hfile
      rw [hloc, hold]
      rfl
    · rfl

/-! ## Entries -/

/-- only directories have something below them -/
theorem hasChildren_of_not_directory {t : FileTree α β} {loc : List α} (h : t.isDirectory loc = false) :
    t.hasChildren loc = false := by
  by_contra hchildren
  obtain ⟨a, ha⟩ := exists_child (eq_true_of_ne_false hchildren)
  rw [isDirectory_of_node ha] at h
  exact absurd h (by simp)

theorem node_remove {t : FileTree α β} {loc : List α} (h : t.hasChildren loc = false) {loc' : List α}
    (hne : loc' ≠ []) : (t.remove loc).node loc' = if loc' = loc then none else t.node loc' := by
  rw [remove, dif_pos h, node_restrict _ _ _ hne]
  by_cases hloc : loc' = loc
  · simp [hloc]
  · simp [hloc]

theorem advance_add {t : FileTree α β} {dir : List α} {name : α} (hd : t.isDirectory dir = true)
    (hn : t.node (dir ++ [name]) = none) {n : Node α β} (hlink : n.isLink = false) (cur : List α)
    (steps : List (Step α)) (h : t.advance cur steps = .stop (.missing dir name)) :
    (t.add dir name n).advance cur steps = .stop (.found (dir ++ [name])) := by
  have hextends := extends_add hn n
  induction steps generalizing cur with
  | nil => exact absurd h (by simp [advance])
  | cons s rest ih =>
    rw [advance_cons] at h ⊢
    rcases hcur : t.isDirectory cur with _ | _
    · simp [hcur] at h
    · simp only [hcur, Bool.not_true, Bool.false_eq_true, if_false, hextends.isDirectory hcur] at h ⊢
      cases s with
      | here => exact ih cur h
      | up => exact ih cur.dropLast h
      | into a =>
        simp only at h ⊢
        rcases hnode : t.node (cur ++ [a]) with _ | m
        · rw [hnode] at h
          simp only at h
          split_ifs at h with hempty
          obtain ⟨rfl, rfl⟩ : cur = dir ∧ a = name := by simpa using h
          obtain rfl := List.isEmpty_iff.1 hempty
          rw [node_add hd hn, if_pos rfl]
          cases n with
          | link target => exact absurd hlink (by simp [Node.isLink])
          | _ => rfl
          · simp at h
        · rw [hnode] at h
          rw [hextends _ _ hnode]
          cases m with
          | link target => simp at h
          | _ => exact ih (cur ++ [a]) h

/-- **What was missing is found once it is there.** -/
theorem walk_add {t : FileTree α β} {dir : List α} {name : α} (hd : t.isDirectory dir = true)
    (hn : t.node (dir ++ [name]) = none) {n : Node α β} (hlink : n.isLink = false) {links : ℕ} {cur : List α}
    {steps : List (Step α)} (h : (t.walk links cur steps).1 = .missing dir name) :
    ((t.add dir name n).walk links cur steps).1 = .found (dir ++ [name]) := by
  induction links generalizing cur steps with
  | zero =>
    rcases hf : t.advance cur steps with o | ⟨dir', target, rest⟩
    · rw [walk_of_stop hf] at h
      obtain rfl : o = .missing dir name := h
      rw [walk_of_stop (advance_add hd hn hlink cur steps hf)]
    · rw [walk_of_follow_zero hf] at h
      exact absurd h (by simp)
  | succ links ih =>
    rcases hf : t.advance cur steps with o | ⟨dir', target, rest⟩
    · rw [walk_of_stop hf] at h
      obtain rfl : o = .missing dir name := h
      rw [walk_of_stop (advance_add hd hn hlink cur steps hf)]
    · rw [walk_of_follow hf] at h
      rw [walk_of_follow ((advance_mono (extends_add hn n) cur steps).2 dir' target rest hf)]
      exact ih h

/-! ## Subtrees -/

/-- where an entry goes when the subtree at `src` moves to `dst` -/
def moved (src dst loc : List α) : List α := if src <+: loc then dst ++ loc.drop src.length else loc

/-- the entries after the move; what was at `dst` or below it is gone -/
def movedEntries (src dst : List α) (entries : List (List α × Node α β)) : List (List α × Node α β) :=
  (entries.filter fun e => decide (¬ dst <+: e.1)).map fun e => (moved src dst e.1, e.2)

theorem moved_append (src dst more : List α) : moved src dst (src ++ more) = dst ++ more := by
  rw [moved, if_pos (List.prefix_append src more), List.drop_left]

theorem moved_of_not_below {src dst loc : List α} (h : ¬ src <+: loc) : moved src dst loc = loc := if_neg h

/-- the entry at a location after the move is the one that was at another location before -/
theorem nodeIn_movedEntries {src dst loc old : List α} {entries : List (List α × Node α β)} (hloc : loc ≠ [])
    (hold : old ≠ []) (hkeep : ¬ dst <+: old)
    (h : ∀ e : List α, ¬ dst <+: e → (moved src dst e = loc ↔ e = old)) :
    nodeIn (movedEntries src dst entries) loc = nodeIn entries old := by
  have hfilter := nodeIn_filter (fun l => decide (¬ dst <+: l)) entries hold
  rw [if_pos (decide_eq_true hkeep), nodeIn, if_neg hold] at hfilter
  rw [nodeIn, if_neg hloc, movedEntries, List.find?_map, Option.map_map, ← hfilter]
  have hsame : ∀ e ∈ entries.filter fun e => decide (¬ dst <+: e.1),
      (decide (moved src dst e.1 = loc)) = decide (e.1 = old) := by
    intro e he
    have hnot := of_decide_eq_true (List.mem_filter.1 he).2
    exact decide_eq_decide.2 (h e.1 hnot)
  rw [show (Prod.snd ∘ fun e : List α × Node α β => (moved src dst e.1, e.2)) = Prod.snd from rfl]
  exact congrArg _ (List.find?_congr hsame)

theorem nodeIn_moved_below {src dst : List α} {entries : List (List α × Node α β)} (hsd : ¬ src <+: dst)
    (hds : ¬ dst <+: src) (more : List α) :
    nodeIn (movedEntries src dst entries) (dst ++ more) = nodeIn entries (src ++ more) := by
  have hsrc : src ≠ [] := by
    rintro rfl
    exact hsd (List.nil_prefix)
  have hdst : dst ≠ [] := by
    rintro rfl
    exact hds (List.nil_prefix)
  have hapart : ∀ rest, ¬ dst <+: src ++ rest := fun rest h =>
    (List.prefix_or_prefix_of_prefix h (List.prefix_append src rest)).elim hds hsd
  refine nodeIn_movedEntries (by simp [hdst]) (by simp [hsrc]) (hapart more) fun e he => ?_
  by_cases hpre : src <+: e
  · obtain ⟨rest, rfl⟩ := hpre
    rw [moved_append, List.append_cancel_left_eq, List.append_cancel_left_eq]
  · rw [moved_of_not_below hpre]
    refine ⟨fun h => absurd (h ▸ List.prefix_append dst more) he, fun h => ?_⟩
    exact absurd (h ▸ List.prefix_append src more) hpre

theorem nodeIn_moved_aside {src dst loc : List α} {entries : List (List α × Node α β)} (hs : ¬ src <+: loc)
    (hd : ¬ dst <+: loc) : nodeIn (movedEntries src dst entries) loc = nodeIn entries loc := by
  by_cases hloc : loc = []
  · subst hloc
    rfl
  · refine nodeIn_movedEntries hloc hloc hd fun e _ => ?_
    by_cases hpre : src <+: e
    · obtain ⟨rest, rfl⟩ := hpre
      rw [moved_append]
      exact ⟨fun h => absurd (h ▸ List.prefix_append dst rest) hd, fun h => absurd (h ▸ List.prefix_append src rest) hs⟩
    · rw [moved_of_not_below hpre]

/-- a subtree moves to another place, and replaces what is there -/
def rename (t : FileTree α β) (src dst : List α) : FileTree α β :=
  if h : ¬ src <+: dst ∧ ¬ dst <+: src ∧ t.isDirectory dst.dropLast = true then
    { entries := movedEntries src dst t.entries
      closed := by
        obtain ⟨hsd, hds, hdir⟩ := h
        intro e' he'
        obtain ⟨e, he, rfl⟩ := List.mem_map.1 he'
        have hkeep := of_decide_eq_true (List.mem_filter.1 he).2
        have hclosed := t.closed e (List.mem_filter.1 he).1
        by_cases hpre : src <+: e.1
        · obtain ⟨rest, hrest⟩ := hpre
          simp only [← hrest, moved_append] at hclosed ⊢
          rcases List.eq_nil_or_concat rest with rfl | ⟨init, a, rfl⟩
          · -- the top of the subtree
            have hlen : dst ≠ [] := by
              rintro rfl
              exact hds (List.nil_prefix)
            rw [List.append_nil, nodeIn_moved_aside]
            · exact hdir
            · exact fun hp => hsd (hp.trans (List.dropLast_prefix dst))
            · intro hp
              have := hp.length_le
              have := List.length_pos_of_ne_nil hlen
              rw [List.length_dropLast] at *
              omega
          · rw [List.concat_eq_append, ← List.append_assoc, List.dropLast_concat] at hclosed ⊢
            rw [nodeIn_moved_below hsd hds]
            exact hclosed
        · rw [moved_of_not_below hpre, nodeIn_moved_aside]
          · exact hclosed
          · exact fun hp => hpre (hp.trans (List.dropLast_prefix _))
          · exact fun hp => hkeep (hp.trans (List.dropLast_prefix _)) }
  else t

section

variable {t : FileTree α β} {src dst : List α}

/-- what was below `src` is below `dst` -/
theorem node_rename_below (hsd : ¬ src <+: dst) (hds : ¬ dst <+: src) (hdir : t.isDirectory dst.dropLast = true)
    (more : List α) : (t.rename src dst).node (dst ++ more) = t.node (src ++ more) := by
  rw [rename, dif_pos ⟨hsd, hds, hdir⟩]
  exact nodeIn_moved_below hsd hds more

/-- what is neither below `src` nor below `dst` stays -/
theorem node_rename_aside {loc : List α} (hs : ¬ src <+: loc) (hd : ¬ dst <+: loc) :
    (t.rename src dst).node loc = t.node loc := by
  rw [rename]
  split_ifs
  · exact nodeIn_moved_aside hs hd
  · rfl

end

end FileTree
