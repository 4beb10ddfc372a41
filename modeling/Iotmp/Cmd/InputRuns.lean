/-
The input of a streamed command (`cmd_stream_session.cpp`: `handle_input`, `stdin_write_loop`).

- `taken`: the inputs that arrive while the process runs and its input is open.
- `Refines`: the queue and the loop of the session are those of a serial writer, in which a completion is a block that is
  put and then finished, or put in part and then failed. `Refines.step`: every event of the session is one of the writer,
  or none.
- `stdin_relayed`: in every run the process gets what was taken in order and nothing twice; as long as no write fails it
  gets a prefix of it, and all of it when no loop is there.
-/
import Mathlib.Tactic
import Iotmp.Lib.SerialWriter
import Iotmp.Cmd.StreamSession

namespace Iotmp

namespace CmdStream

variable {s s' : CmdStream} {w : SerialWriter UInt8}

/-! ## What comes in -/

def takes (s : CmdStream) : StreamEvent → List Bytes
  | .input payload => if s.finished ∨ ¬ s.stdinOpen ∨ inputData payload = [] then [] else [inputData payload]
  | _ => []

def taken : CmdStream → List StreamEvent → List Bytes
  | _, [] => []
  | s, e :: events => s.takes e ++ taken (Guarded.step step s e) events

/-- no write fails -/
def Unfailed : StreamEvent → Prop
  | .resumeInput true _ => False
  | _ => True

/-! ## The writer -/

def writeLoops : InputLoop → List (WriteLoop UInt8)
  | .idle => []
  | .spawned => [.spawned]
  | .writing data => [.writing data 0]

structure Refines (s : CmdStream) (w : SerialWriter UInt8) : Prop where
  sound : w.Sound
  queue : w.queue = s.stdinQueue
  loops : w.loops = writeLoops s.inputLoop
  output : w.output = s.stdin

/-- no write was cut, and input that waits has a loop -/
structure Steady (s : CmdStream) (w : SerialWriter UInt8) : Prop where
  whole : w.Whole
  awake : s.stdinOpen = true → w.Awake

theorem refines_start (timeoutSeconds : ℤ) : Refines (start timeoutSeconds) {} :=
  ⟨SerialWriter.sound_init, rfl, rfl, rfl⟩

theorem nextInput_cases (s : CmdStream) :
    s.nextInput.stdin = s.stdin ∧ s.nextInput.stdinOpen = s.stdinOpen ∧
      ((s.stdinQueue = [] ∨ s.stdinOpen = false) ∧ s.nextInput.stdinQueue = s.stdinQueue ∧ s.nextInput.inputLoop = .idle ∨
        ∃ data queue, s.stdinQueue = data :: queue ∧ s.stdinOpen = true ∧ s.nextInput.stdinQueue = queue ∧
          s.nextInput.inputLoop = .writing data) := by
  rw [nextInput]
  split
  · rename_i hq
    exact ⟨rfl, rfl, .inl ⟨.inl hq, rfl, rfl⟩⟩
  · rename_i data queue hq
    split_ifs with hopen
    · exact ⟨rfl, rfl, .inr ⟨data, queue, hq, hopen, rfl, rfl⟩⟩
    · exact ⟨rfl, rfl, .inl ⟨.inr (by simpa using hopen), rfl, rfl⟩⟩

/-- the loop at its condition is the loop of the writer at its own -/
theorem Refines.turn {l : WriteLoop UInt8} (hsound : (w.turn 0 s.stdinOpen).Sound) (hloops : w.loops = [l])
    (hqueue : w.queue = s.stdinQueue) (houtput : w.output = s.stdin) : Refines s.nextInput (w.turn 0 s.stdinOpen) := by
  obtain ⟨hstdin, -, ⟨hover, hq, hloop⟩ | ⟨data, queue, hdata, hopen, hq, hloop⟩⟩ := nextInput_cases s
  · have hturn : w.turn 0 s.stdinOpen = w.leave 0 := by
      rcases hover with hnil | hopen
      · exact SerialWriter.turn_nil (hqueue.trans hnil) 0 _
      · rw [hopen, SerialWriter.turn_false]
    rw [hturn] at hsound ⊢
    exact ⟨hsound, hqueue.trans hq.symm, by simp [SerialWriter.leave, hloops, hloop, writeLoops], houtput.trans hstdin.symm⟩
  · rw [hopen, SerialWriter.turn_cons (hqueue.trans hdata)] at hsound ⊢
    exact ⟨hsound, hq.symm, by simp [hloops, hloop, writeLoops], houtput.trans hstdin.symm⟩

/-- what the writer does when the session does something -/
def Follows (s s' : CmdStream) (w w' : SerialWriter UInt8) (more : List Bytes) (unfailed : Prop) : Prop :=
  Refines s' w' ∧ w'.accepted = w.accepted ++ more ∧ (unfailed → Steady s w → Steady s' w')

theorem Refines.resumeInput (h : Refines s w) {failed : Bool} {n : ℕ} (hstep : s.resumeInput failed n = some s') :
    ∃ w', Follows s s' w w' [] (failed = false) := by
  rw [CmdStream.resumeInput] at hstep
  split at hstep
  · cases hstep
  · rename_i hloop
    obtain rfl := Option.some.inj hstep
    have hl : w.loops = [.spawned] := by rw [h.loops, hloop]; rfl
    have hbegin : w.begin 0 s.stdinOpen = some (w.turn 0 s.stdinOpen) := by simp [SerialWriter.begin, hl]
    refine ⟨_, .turn (h.sound.begin hbegin) hl h.queue h.output, ?_, fun _ hs => ⟨hs.whole.begin hbegin, fun hopen => ?_⟩⟩
    · simpa using (SerialWriter.begin_accepted hbegin).1
    · rw [(nextInput_cases s).2.1] at hopen
      rw [hopen] at hbegin ⊢
      exact h.sound.begin_awake hbegin
  · rename_i data hloop
    have hl : w.loops = [.writing data 0] := by rw [h.loops, hloop]; rfl
    split_ifs at hstep with hfailed
    · -- a part of the block is put, and the write fails
      obtain rfl := Option.some.inj hstep
      let w₁ := { w with output := w.output ++ data.take n, loops := [.writing data (min n data.length)] }
      have hput : w.put 0 n = some w₁ := by simp [SerialWriter.put, hl, w₁]
      have hfail : w₁.fail 0 = some ((w₁.give data (min n data.length)).leave 0) := by simp [SerialWriter.fail, w₁]
      refine ⟨_, ⟨(h.sound.put hput).fail hfail, h.queue, rfl, ?_⟩, ?_, fun hnot => by simp [hfailed] at hnot⟩
      · exact congrArg (· ++ data.take n) h.output
      · exact (List.append_nil _).symm
    · -- the block is put as a whole, and finished
      obtain rfl := Option.some.inj hstep
      let w₁ := { w with output := w.output ++ data, loops := [.writing data data.length] }
      have hput : w.put 0 data.length = some w₁ := by simp [SerialWriter.put, hl, w₁]
      have hfinish : w₁.finish 0 s.stdinOpen = some ((w₁.give data data.length).turn 0 s.stdinOpen) := by
        simp [SerialWriter.finish, w₁]
      have hsound := h.sound.put hput
      refine ⟨_, .turn (hsound.finish hfinish) rfl h.queue ?_, ?_, fun _ hs =>
        ⟨(hs.whole.put hput).finish hfinish, fun hopen => ?_⟩⟩
      · exact congrArg (· ++ data) h.output
      · rw [List.append_nil]
        exact (SerialWriter.finish_accepted hfinish).1
      · rw [(nextInput_cases _).2.1] at hopen
        change s.stdinOpen = true at hopen
        rw [hopen] at hfinish
        exact hopen ▸ hsound.finish_awake hfinish

theorem Refines.handleInput (h : Refines s w) (payload : Json) :
    ∃ w', Follows s (s.handleInput payload) w w' (s.takes (.input payload)) True := by
  rw [CmdStream.handleInput, takes]
  by_cases hignored : s.finished ∨ ¬ s.stdinOpen ∨ inputData payload = []
  · rw [if_pos hignored, if_pos hignored]
    exact ⟨w, h, (List.append_nil _).symm, fun _ hs => hs⟩
  · rw [if_neg hignored, if_neg hignored]
    have hloops : (w.push (inputData payload)).loops =
        writeLoops (if s.inputLoop = .idle then .spawned else s.inputLoop) := by
      have hflag := h.sound.flag
      rw [h.loops] at hflag
      rw [SerialWriter.push]
      cases hloop : s.inputLoop with
      | idle =>
        simp only [hloop, writeLoops] at hflag
        simp [hflag, h.loops, hloop, writeLoops]
      | _ =>
        simp only [hloop, writeLoops] at hflag
        simp [hflag, h.loops, hloop, writeLoops]
    refine ⟨w.push (inputData payload), ⟨h.sound.push _, ?_, hloops, ?_⟩, (SerialWriter.push_accepted w _).1, fun _ hs =>
      ⟨hs.whole.push _, fun _ _ => h.sound.push_awake _⟩⟩
    · rw [SerialWriter.push_queue, h.queue]
    · rw [(SerialWriter.push_accepted w _).2, h.output]

/-- what neither `handle_input` nor the loop touches -/
structure Untouched (s s' : CmdStream) : Prop where
  queue : s'.stdinQueue = s.stdinQueue
  loop : s'.inputLoop = s.inputLoop
  stdin : s'.stdin = s.stdin
  stdinOpen : s'.stdinOpen = true → s.stdinOpen = true

theorem Refines.untouched (h : Refines s w) (hu : Untouched s s') : Follows s s' w w [] True :=
  ⟨⟨h.sound, h.queue.trans hu.queue.symm, by rw [h.loops, hu.loop], h.output.trans hu.stdin.symm⟩,
    (List.append_nil _).symm, fun _ hs => ⟨hs.whole, fun hopen => hs.awake (hu.stdinOpen hopen)⟩⟩

theorem resumeWatch_untouched (hstep : s.resumeWatch = some s') : Untouched s s' := by
  unfold CmdStream.resumeWatch at hstep
  split at hstep
  · split_ifs at hstep <;> obtain rfl := Option.some.inj hstep <;> exact ⟨rfl, rfl, rfl, id⟩
  · obtain rfl := Option.some.inj hstep
    exact ⟨rfl, rfl, rfl, id⟩
  · cases hstep

theorem resumeRead_untouched {channel : Channel} (hstep : s.resumeRead channel = some s') : Untouched s s' := by
  unfold CmdStream.resumeRead at hstep
  by_cases hjoining : s.coordinator = .joining
  · rw [if_pos hjoining] at hstep
    split at hstep
    · obtain rfl := Option.some.inj hstep
      exact ⟨rfl, rfl, rfl, id⟩
    · obtain rfl := Option.some.inj hstep
      exact ⟨rfl, rfl, rfl, id⟩
    · cases hstep
  · rw [if_neg hjoining] at hstep
    cases hstep

theorem resumeWait_untouched (hstep : s.resumeWait = some s') : Untouched s s' := by
  unfold CmdStream.resumeWait at hstep
  split_ifs at hstep
  split at hstep
  · obtain rfl := Option.some.inj hstep
    exact ⟨rfl, rfl, rfl, id⟩
  · cases hstep

/-- **One event** of the session. -/
theorem Refines.step (h : Refines s w) (e : StreamEvent) (hstep : step s e = some s') :
    ∃ w', Follows s s' w w' (s.takes e) (Unfailed e) := by
  have untouched (hu : Untouched s s') : Follows s s' w w [] True := h.untouched hu
  cases e with
  | resumeInput failed n =>
    obtain ⟨w', hr, hacc, hsteady⟩ := h.resumeInput hstep
    refine ⟨w', hr, hacc, fun hunfailed => hsteady ?_⟩
    cases failed with
    | true => exact hunfailed.elim
    | false => rfl
  | input payload =>
    obtain rfl := Option.some.inj hstep
    exact h.handleInput payload
  | resumeRead channel => exact ⟨w, untouched (resumeRead_untouched hstep)⟩
  | resumeWait => exact ⟨w, untouched (resumeWait_untouched hstep)⟩
  | resumeWatch => exact ⟨w, untouched (resumeWatch_untouched hstep)⟩
  | hangUp channel =>
    obtain rfl := Option.some.inj hstep
    exact ⟨w, untouched ⟨rfl, rfl, rfl, id⟩⟩
  | stop =>
    obtain rfl := Option.some.inj hstep
    exact ⟨w, untouched ⟨rfl, rfl, rfl, fun hopen => absurd hopen Bool.false_ne_true⟩⟩
  | readReady channel n =>
    simp only [CmdStream.step, CmdStream.readReady] at hstep
    split_ifs at hstep <;> obtain rfl := Option.some.inj hstep <;> exact ⟨w, untouched ⟨rfl, rfl, rfl, id⟩⟩
  | _ =>
    simp only [CmdStream.step, produce, exits, begin, waitReady, join, beginWatch, expire] at hstep
    split_ifs at hstep <;> obtain rfl := Option.some.inj hstep <;> exact ⟨w, untouched ⟨rfl, rfl, rfl, id⟩⟩

/-- **Every run** of the session. -/
theorem Refines.run (h : Refines s w) (events : List StreamEvent) :
    ∃ w', Follows s (run s events) w w' (taken s events) (∀ e ∈ events, Unfailed e) := by
  induction events generalizing s w with
  | nil => exact ⟨w, h, (List.append_nil _).symm, fun _ hs => hs⟩
  | cons e events ih =>
    have hone : ∃ w₁, Follows s (Guarded.step CmdStream.step s e) w w₁ (s.takes e) (Unfailed e) := by
      rcases hstep : CmdStream.step s e with _ | s₁
      · have htakes : s.takes e = [] := by
          cases e with
          | input payload => simp [CmdStream.step] at hstep
          | _ => rfl
        rw [Guarded.step_of_none hstep, htakes]
        exact ⟨w, h, (List.append_nil _).symm, fun _ hs => hs⟩
      · rw [Guarded.step_of_some hstep]
        exact h.step e hstep
    obtain ⟨w₁, hr₁, hacc₁, hsteady₁⟩ := hone
    obtain ⟨w₂, hr₂, hacc₂, hsteady₂⟩ := ih hr₁
    refine ⟨w₂, hr₂, ?_, fun hall hs => ?_⟩
    · rw [hacc₂, hacc₁, taken, List.append_assoc]
    · obtain ⟨he, hevents⟩ := List.forall_mem_cons.1 hall
      exact hsteady₂ hevents (hsteady₁ he hs)

/-- **The input of the process, in every run.** -/
theorem stdin_relayed (timeoutSeconds : ℤ) (events : List StreamEvent) :
    let s := run (start timeoutSeconds) events
    let input := (taken (start timeoutSeconds) events).flatten
    s.stdin.Sublist input ∧
      ((∀ e ∈ events, Unfailed e) →
        s.stdin <+: input ∧ (s.stdinOpen = true → s.inputLoop = .idle → s.stdin = input)) := by
  intro s input
  obtain ⟨w, hr, hacc, hsteady⟩ := (refines_start timeoutSeconds).run events
  have hinput : w.accepted.flatten = input := congrArg List.flatten hacc
  have hsub := hr.sound.output_sublist
  rw [hinput, hr.output] at hsub
  refine ⟨hsub, fun hall => ?_⟩
  obtain ⟨hwhole, hawake⟩ := hsteady hall ⟨by simp [SerialWriter.Whole], fun _ => by simp [SerialWriter.Awake]⟩
  refine ⟨?_, fun hopen hidle => ?_⟩
  · rw [← hinput, ← hr.output]
    exact hr.sound.output_prefix (.inl hwhole)
  · have hloops : w.loops = [] := by
      rw [hr.loops]
      exact congrArg writeLoops hidle
    have hqueue : w.queue = [] := by
      by_contra hne
      exact hawake hopen hne hloops
    rw [← hinput, ← hr.output]
    exact hr.sound.output_eq hwhole hloops hqueue

end CmdStream

end Iotmp
