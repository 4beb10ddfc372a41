/-
Blocks that are written one after the other, by a loop that is there while it has something to write.

- `SerialWriter α`: the blocks that wait, the flag that a loop sets as long as it is there, the loops, and what reached
  the other side. `accepted` is every block that was ever pushed, `ended` every block that a loop is done with and how
  much of it was written: a write that fails is cut.
- `push`: a block comes in, and a loop with it if none is there. `begin`, `put`, `finish`, `fail`: what a loop and its
  pending write do; `go` is what the condition of the loop asks for besides a block that waits.
- `Sound`: there is one loop at most, the flag says whether there is one, the blocks are taken in order, and what was
  written is what the loops took of them, in order.
- `output_prefix`: as long as no block is cut, or nothing follows the one that is, the output is a prefix of what was
  accepted. `output_sublist`: in any case nothing is written twice or out of order.
-/
import Mathlib.Tactic

inductive WriteLoop (α : Type*) where
  | spawned
  | writing (block : List α) (written : ℕ)
deriving DecidableEq, Repr

structure SerialWriter (α : Type*) where
  queue : List (List α) := []
  inProgress : Bool := false
  loops : List (WriteLoop α) := []
  output : List α := []
  accepted : List (List α) := []
  ended : List (List α × ℕ) := []
deriving DecidableEq, Repr

namespace WriteLoop

variable {α : Type*}

/-- the block a loop has taken -/
def blocks : WriteLoop α → List (List α)
  | spawned => []
  | writing block _ => [block]

/-- how much of it is written -/
def part : WriteLoop α → List α
  | spawned => []
  | writing block written => block.take written

end WriteLoop

namespace SerialWriter

variable {α : Type*} {w w' : SerialWriter α} {block : List α} {i n : ℕ} {go : Bool}

/-! ## What a loop does -/

def push (w : SerialWriter α) (block : List α) : SerialWriter α :=
  let w := { w with queue := w.queue ++ [block], accepted := w.accepted ++ [block] }
  if w.inProgress then w else { w with inProgress := true, loops := w.loops ++ [.spawned] }

/-- a loop is done with its block, of which `n` elements were written -/
def give (w : SerialWriter α) (block : List α) (n : ℕ) : SerialWriter α := { w with ended := w.ended ++ [(block, n)] }

/-- loop `i` is over -/
def leave (w : SerialWriter α) (i : ℕ) : SerialWriter α := { w with inProgress := false, loops := w.loops.eraseIdx i }

/-- loop `i` at its condition -/
def turn (w : SerialWriter α) (i : ℕ) (go : Bool) : SerialWriter α :=
  match w.queue with
  | [] => w.leave i
  | block :: queue => if go then { w with queue := queue, loops := w.loops.set i (.writing block 0) } else w.leave i

theorem turn_nil (h : w.queue = []) (i : ℕ) (go : Bool) : w.turn i go = w.leave i := by
  rw [turn, h]

theorem turn_false (w : SerialWriter α) (i : ℕ) : w.turn i false = w.leave i := by
  rw [turn]
  split <;> simp

theorem turn_cons {queue : List (List α)} (h : w.queue = block :: queue) (i : ℕ) :
    w.turn i true = { w with queue := queue, loops := w.loops.set i (.writing block 0) } := by
  rw [turn, h]
  exact if_pos rfl

def begin (w : SerialWriter α) (i : ℕ) (go : Bool) : Option (SerialWriter α) :=
  match w.loops[i]? with
  | some .spawned => some (w.turn i go)
  | _ => none

/-- at most `n` more elements of the block reach the other side -/
def put (w : SerialWriter α) (i n : ℕ) : Option (SerialWriter α) :=
  match w.loops[i]? with
  | some (.writing block written) =>
    some { w with
      output := w.output ++ (block.drop written).take n
      loops := w.loops.set i (.writing block (min (written + n) block.length)) }
  | _ => none

/-- the block is written, and the loop goes on -/
def finish (w : SerialWriter α) (i : ℕ) (go : Bool) : Option (SerialWriter α) :=
  match w.loops[i]? with
  | some (.writing block written) =>
    if written = block.length then some ((w.give block written).turn i go) else none
  | _ => none

/-- the write fails, and the loop with it -/
def fail (w : SerialWriter α) (i : ℕ) : Option (SerialWriter α) :=
  match w.loops[i]? with
  | some (.writing block written) => some ((w.give block written).leave i)
  | _ => none

/-! ## The invariant -/

structure Sound (w : SerialWriter α) : Prop where
  one : w.loops.length ≤ 1
  flag : w.inProgress = true ↔ w.loops ≠ []
  order : w.ended.map Prod.fst ++ w.loops.flatMap WriteLoop.blocks ++ w.queue = w.accepted
  bytes : (w.ended.flatMap fun e => e.1.take e.2) ++ w.loops.flatMap WriteLoop.part = w.output

theorem sound_init : ({} : SerialWriter α).Sound where
  one := by simp
  flag := by simp
  order := rfl
  bytes := rfl

/-- a loop that is there is the only one -/
theorem Sound.loop (h : w.Sound) {l : WriteLoop α} (hl : w.loops[i]? = some l) : i = 0 ∧ w.loops = [l] := by
  have hone := h.one
  rcases hloops : w.loops with _ | ⟨l', _ | ⟨l'', rest⟩⟩
  · simp [hloops] at hl
  · rw [hloops] at hl
    rcases i with _ | i
    · simpa using hl
    · simp at hl
  · simp [hloops] at hone

theorem Sound.push (h : w.Sound) (block : List α) : (w.push block).Sound := by
  have horder : w.ended.map Prod.fst ++ w.loops.flatMap WriteLoop.blocks ++ (w.queue ++ [block]) =
      w.accepted ++ [block] := by
    rw [← List.append_assoc, h.order]
  rw [SerialWriter.push]
  simp only
  split_ifs with hflag
  · exact ⟨h.one, h.flag, horder, h.bytes⟩
  · have hnone : w.loops = [] := by
      by_contra hne
      exact hflag (h.flag.2 hne)
    refine ⟨by simp [hnone], by simp, ?_, ?_⟩
    · simpa [hnone, WriteLoop.blocks] using horder
    · simpa [hnone, WriteLoop.part] using h.bytes

/-- the only loop, done with its block, leaves -/
theorem sound_leave {l : WriteLoop α} (hl : w.loops = [l])
    (horder : w.ended.map Prod.fst ++ w.queue = w.accepted)
    (hbytes : (w.ended.flatMap fun e => e.1.take e.2) = w.output) : (w.leave 0).Sound where
  one := by simp [leave, hl]
  flag := by simp [leave, hl]
  order := by simpa [leave, hl] using horder
  bytes := by simpa [leave, hl] using hbytes

/-- the only loop, done with its block, leaves or takes the next one -/
theorem sound_turn {l : WriteLoop α} (hl : w.loops = [l]) (hflag : w.inProgress = true)
    (horder : w.ended.map Prod.fst ++ w.queue = w.accepted)
    (hbytes : (w.ended.flatMap fun e => e.1.take e.2) = w.output) (go : Bool) : (w.turn 0 go).Sound := by
  have hleave := sound_leave hl horder hbytes
  rw [turn]
  rcases hq : w.queue with _ | ⟨block, queue⟩
  · exact hleave
  · rcases go with _ | _
    · exact hleave
    · refine ⟨by simp [hl], by simp [hl, hflag], ?_, ?_⟩
      · simpa [hl, WriteLoop.blocks, hq] using horder
      · simpa [hl, WriteLoop.part] using hbytes

theorem Sound.begin (h : w.Sound) (hbegin : w.begin i go = some w') : w'.Sound := by
  rw [SerialWriter.begin] at hbegin
  split at hbegin
  · rename_i hl
    obtain ⟨rfl, hloops⟩ := h.loop hl
    obtain rfl := Option.some.inj hbegin
    refine sound_turn hloops (h.flag.2 (by simp [hloops])) ?_ ?_ go
    · simpa [hloops, WriteLoop.blocks] using h.order
    · simpa [hloops, WriteLoop.part] using h.bytes
  · simp at hbegin

theorem take_append_take (block : List α) (written n : ℕ) :
    block.take written ++ (block.drop written).take n = block.take (min (written + n) block.length) := by
  rw [← List.take_add, List.take_eq_take_min]

theorem Sound.put (h : w.Sound) (hput : w.put i n = some w') : w'.Sound := by
  rw [SerialWriter.put] at hput
  split at hput
  · rename_i block written hl
    obtain ⟨rfl, hloops⟩ := h.loop hl
    obtain rfl := Option.some.inj hput
    refine ⟨by simp [hloops], by simp [hloops, h.flag], ?_, ?_⟩
    · simpa [hloops, WriteLoop.blocks] using h.order
    · have hbytes := h.bytes
      simp only [hloops, List.set_cons_zero, List.flatMap_cons, List.flatMap_nil, List.append_nil, WriteLoop.part]
        at hbytes ⊢
      rw [← hbytes, List.append_assoc, take_append_take]
  · simp at hput

/-- what the only loop had is among what loops are done with -/
theorem Sound.give (h : w.Sound) (hl : w.loops = [.writing block n]) :
    (w.give block n).loops = [.writing block n] ∧
      (w.give block n).ended.map Prod.fst ++ (w.give block n).queue = (w.give block n).accepted ∧
      ((w.give block n).ended.flatMap fun e => e.1.take e.2) = (w.give block n).output := by
  refine ⟨hl, ?_, ?_⟩
  · simpa [SerialWriter.give, hl, WriteLoop.blocks] using h.order
  · simpa [SerialWriter.give, hl, WriteLoop.part] using h.bytes

theorem Sound.finish (h : w.Sound) (hfinish : w.finish i go = some w') : w'.Sound := by
  rw [SerialWriter.finish] at hfinish
  split at hfinish
  · rename_i block written hl
    obtain ⟨rfl, hloops⟩ := h.loop hl
    split_ifs at hfinish
    obtain rfl := Option.some.inj hfinish
    obtain ⟨hgiven, horder, hbytes⟩ := h.give hloops
    exact sound_turn hgiven (h.flag.2 (by simp [hloops])) horder hbytes go
  · simp at hfinish

theorem Sound.fail (h : w.Sound) (hfail : w.fail i = some w') : w'.Sound := by
  rw [SerialWriter.fail] at hfail
  split at hfail
  · rename_i block written hl
    obtain ⟨rfl, hloops⟩ := h.loop hl
    obtain rfl := Option.some.inj hfail
    obtain ⟨hgiven, horder, hbytes⟩ := h.give hloops
    exact sound_leave hgiven horder hbytes
  · simp at hfail

/-! ## Waking up -/

/-- a block that waits has a loop -/
def Awake (w : SerialWriter α) : Prop := w.queue ≠ [] → w.loops ≠ []

theorem Sound.push_awake (h : w.Sound) (block : List α) : (w.push block).loops ≠ [] := by
  rw [SerialWriter.push]
  simp only
  split_ifs with hflag
  · exact h.flag.1 hflag
  · simp

/-- a loop that may go on leaves only an empty queue behind -/
theorem turn_awake {l : WriteLoop α} (hl : w.loops = [l]) : (w.turn 0 true).Awake := by
  rw [turn, Awake]
  rcases hq : w.queue with _ | ⟨block, queue⟩
  · simp [leave, hq]
  · simp [hl]

theorem Sound.begin_awake (h : w.Sound) (hbegin : w.begin i true = some w') : w'.Awake := by
  rw [SerialWriter.begin] at hbegin
  split at hbegin
  · rename_i hl
    obtain ⟨rfl, hloops⟩ := h.loop hl
    obtain rfl := Option.some.inj hbegin
    exact turn_awake hloops
  · simp at hbegin

theorem put_awake (h : w.Awake) (hput : w.put i n = some w') : w'.Awake := by
  rw [SerialWriter.put] at hput
  split at hput
  · obtain rfl := Option.some.inj hput
    intro hq
    simpa using h hq
  · simp at hput

theorem Sound.finish_awake (h : w.Sound) (hfinish : w.finish i true = some w') : w'.Awake := by
  rw [SerialWriter.finish] at hfinish
  split at hfinish
  · rename_i block written hl
    obtain ⟨rfl, hloops⟩ := h.loop hl
    split_ifs at hfinish
    obtain rfl := Option.some.inj hfinish
    exact turn_awake (h.give hloops).1
  · simp at hfinish

/-! ## What is accepted and written -/

theorem push_queue (w : SerialWriter α) (block : List α) : (w.push block).queue = w.queue ++ [block] := by
  rw [push]
  simp only
  split_ifs <;> rfl

theorem push_accepted (w : SerialWriter α) (block : List α) :
    (w.push block).accepted = w.accepted ++ [block] ∧ (w.push block).output = w.output := by
  rw [push]
  simp only
  split_ifs <;> exact ⟨rfl, rfl⟩

theorem turn_accepted (w : SerialWriter α) (i : ℕ) (go : Bool) :
    (w.turn i go).accepted = w.accepted ∧ (w.turn i go).output = w.output := by
  rw [turn]
  split
  · exact ⟨rfl, rfl⟩
  · split_ifs <;> exact ⟨rfl, rfl⟩

theorem begin_accepted (hbegin : w.begin i go = some w') : w'.accepted = w.accepted ∧ w'.output = w.output := by
  rw [begin] at hbegin
  split at hbegin
  · obtain rfl := Option.some.inj hbegin
    exact turn_accepted w i go
  · simp at hbegin

theorem put_accepted (hput : w.put i n = some w') : w'.accepted = w.accepted := by
  rw [put] at hput
  split at hput
  · obtain rfl := Option.some.inj hput
    rfl
  · simp at hput

theorem finish_accepted (hfinish : w.finish i go = some w') : w'.accepted = w.accepted ∧ w'.output = w.output := by
  rw [finish] at hfinish
  split at hfinish
  · split_ifs at hfinish
    obtain rfl := Option.some.inj hfinish
    exact turn_accepted _ i go
  · simp at hfinish

theorem fail_accepted (hfail : w.fail i = some w') : w'.accepted = w.accepted ∧ w'.output = w.output := by
  rw [fail] at hfail
  split at hfail
  · obtain rfl := Option.some.inj hfail
    exact ⟨rfl, rfl⟩
  · simp at hfail

/-! ## What reaches the other side -/

/-- the blocks that loops are done with were written whole -/
def Whole (w : SerialWriter α) : Prop := ∀ e ∈ w.ended, e.2 = e.1.length

/-- all but the last of them were, and no loop is left behind that one -/
def CutLast (w : SerialWriter α) : Prop :=
  w.Whole ∨ w.loops = [] ∧ ∃ whole cut, w.ended = whole ++ [cut] ∧ ∀ e ∈ whole, e.2 = e.1.length

theorem Whole.push (h : w.Whole) (block : List α) : (w.push block).Whole := by
  rw [SerialWriter.push]
  simp only
  split_ifs <;> exact h

theorem ended_turn (w : SerialWriter α) (i : ℕ) (go : Bool) : (w.turn i go).ended = w.ended := by
  rw [turn]
  split
  · rfl
  · split_ifs <;> rfl

theorem Whole.begin (h : w.Whole) (hbegin : w.begin i go = some w') : w'.Whole := by
  rw [SerialWriter.begin] at hbegin
  split at hbegin
  · obtain rfl := Option.some.inj hbegin
    rw [Whole, ended_turn]
    exact h
  · simp at hbegin

theorem Whole.put (h : w.Whole) (hput : w.put i n = some w') : w'.Whole := by
  rw [SerialWriter.put] at hput
  split at hput
  · obtain rfl := Option.some.inj hput
    exact h
  · simp at hput

theorem Whole.finish (h : w.Whole) (hfinish : w.finish i go = some w') : w'.Whole := by
  rw [SerialWriter.finish] at hfinish
  split at hfinish
  · split_ifs at hfinish with hwritten
    obtain rfl := Option.some.inj hfinish
    rw [Whole, ended_turn]
    intro e he
    rcases List.mem_append.1 he with he | he
    · exact h e he
    · obtain rfl := List.mem_singleton.1 he
      exact hwritten
  · simp at hfinish

theorem begin_some (hbegin : w.begin i go = some w') : w.loops ≠ [] := by
  intro hnone
  simp [SerialWriter.begin, hnone] at hbegin

theorem put_some (hput : w.put i n = some w') : w.loops ≠ [] := by
  intro hnone
  simp [SerialWriter.put, hnone] at hput

theorem finish_some (hfinish : w.finish i go = some w') : w.loops ≠ [] := by
  intro hnone
  simp [SerialWriter.finish, hnone] at hfinish

theorem fail_some (hfail : w.fail i = some w') : w.loops ≠ [] := by
  intro hnone
  simp [SerialWriter.fail, hnone] at hfail

/-- as long as there is a loop, no block was cut -/
theorem CutLast.whole (h : w.CutLast) (hloops : w.loops ≠ []) : w.Whole :=
  h.resolve_right fun hcut => hloops hcut.1

theorem CutLast.begin (h : w.CutLast) (hbegin : w.begin i go = some w') : w'.CutLast :=
  .inl ((h.whole (begin_some hbegin)).begin hbegin)

theorem CutLast.put (h : w.CutLast) (hput : w.put i n = some w') : w'.CutLast :=
  .inl ((h.whole (put_some hput)).put hput)

theorem CutLast.finish (h : w.CutLast) (hfinish : w.finish i go = some w') : w'.CutLast :=
  .inl ((h.whole (finish_some hfinish)).finish hfinish)

/-- a write that fails is the last for the time being -/
theorem Sound.fail_cutLast (h : w.Sound) (hcut : w.CutLast) (hfail : w.fail i = some w') : w'.CutLast := by
  have hwhole := hcut.whole (fail_some hfail)
  rw [SerialWriter.fail] at hfail
  split at hfail
  · rename_i block written hl
    obtain ⟨rfl, hloops⟩ := h.loop hl
    obtain rfl := Option.some.inj hfail
    exact .inr ⟨by simp [leave, (h.give hloops).1], w.ended, (block, written), rfl, hwhole⟩
  · simp at hfail

theorem flatMap_whole {ended : List (List α × ℕ)} (h : ∀ e ∈ ended, e.2 = e.1.length) :
    (ended.flatMap fun e => e.1.take e.2) = (ended.map Prod.fst).flatten := by
  rw [List.flatten_eq_flatMap, List.flatMap_map]
  refine List.flatMap_congr fun e he => ?_
  simp [h e he]

/-- **The output is a prefix of what was accepted**, as long as nothing follows a block that is cut. -/
theorem Sound.output_prefix (h : w.Sound) (hcut : w.CutLast) : w.output <+: w.accepted.flatten := by
  rw [← h.order, ← h.bytes]
  rcases hcut with hwhole | ⟨hnone, whole, ⟨block, n⟩, hended, hwhole⟩
  · have hpart : w.loops.flatMap WriteLoop.part <+: (w.loops.flatMap WriteLoop.blocks).flatten := by
      have hone := h.one
      rcases hloops : w.loops with _ | ⟨l, _ | ⟨l', rest⟩⟩
      · simp
      · cases l with
        | spawned => simp [WriteLoop.part]
        | writing block written => simpa [WriteLoop.part, WriteLoop.blocks] using List.take_prefix written block
      · simp [hloops] at hone
    rw [flatMap_whole hwhole, List.flatten_append, List.flatten_append, List.append_assoc]
    exact List.prefix_append_right_inj _ |>.2 (hpart.trans (List.prefix_append _ _))
  · rw [hnone, hended]
    simp only [List.flatMap_append, flatMap_whole hwhole, List.flatMap_cons, List.flatMap_nil, List.append_nil,
      List.map_append, List.map_cons, List.map_nil, List.flatten_append, List.flatten_cons, List.flatten_nil,
      List.append_assoc]
    exact List.prefix_append_right_inj _ |>.2 ((List.take_prefix n block).trans (List.prefix_append _ _))

/-- all that was accepted is written when nothing waits and no loop is there -/
theorem Sound.output_eq (h : w.Sound) (hwhole : w.Whole) (hloops : w.loops = []) (hqueue : w.queue = []) :
    w.output = w.accepted.flatten := by
  rw [← h.order, ← h.bytes, flatMap_whole hwhole]
  simp [hloops, hqueue]

/-- **Nothing is written twice or out of order**, whichever writes fail. -/
theorem Sound.output_sublist (h : w.Sound) : w.output.Sublist w.accepted.flatten := by
  have hended : (w.ended.flatMap fun e => e.1.take e.2).Sublist (w.ended.map Prod.fst).flatten := by
    induction w.ended with
    | nil => simp
    | cons e ended ih => simpa using (List.take_sublist e.2 e.1).append ih
  have hloops : (w.loops.flatMap WriteLoop.part).Sublist (w.loops.flatMap WriteLoop.blocks).flatten := by
    induction w.loops with
    | nil => simp
    | cons l loops ih =>
      cases l with
      | spawned => simpa [WriteLoop.part, WriteLoop.blocks] using ih
      | writing block written =>
        simpa [WriteLoop.part, WriteLoop.blocks] using (List.take_sublist written block).append ih
  rw [← h.order, ← h.bytes, List.flatten_append, List.flatten_append]
  exact (hended.append hloops).trans (List.sublist_append_left _ _)

end SerialWriter
