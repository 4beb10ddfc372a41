/-
Running a command and collecting its output (`cmd.cpp`: `cmd::exec`), together with the command's process.

`exec` first writes all of `stdin_data` with a blocking call and closes the pipe. Then it starts the two reads, the
timer and the wait for the process, and lets `io_context::run` call their handlers until nothing is left.

- `ChildOp`: what the process does, in order, before it exits. A read takes what is there, up to a number of bytes, and
  waits for the first one while the pipe is empty and open; a write puts as many bytes as fit, and waits while the pipe
  is full.
- `AsyncRead`, `AsyncWait`, `Deadline`: an operation of the io_context waits, has its handler queued, or is over. A
  timer that is cancelled after it expired still calls its handler with success.
- `Exec`: both sides and the three pipes. `step`: one event, if it is possible.
- `Deadlocked`: `exec` has not returned, and no event is possible. `Waiting`: `exec` itself cannot go on.
-/
import Mathlib.Tactic
import Iotmp.Lib.Guarded
import Iotmp.Core.Json

namespace Iotmp

/-- the two pipes the process writes to -/
inductive Channel where
  | out
  | err
deriving DecidableEq, Repr

inductive ChildOp where
  | read (n : ℕ)
  | write (channel : Channel) (data : Bytes)
deriving DecidableEq, Repr

/-- `async_read` on a pipe: its handler gets bytes, or an error -/
inductive AsyncRead where
  | waiting
  | queued (bytes : Option Bytes)
  | done
deriving DecidableEq, Repr

inductive AsyncWait where
  | waiting
  | queued
  | done
deriving DecidableEq, Repr

inductive Deadline where
  | unset
  | waiting
  | expired
  | cancelled
  | done
deriving DecidableEq, Repr

inductive ExecPhase where
  | writing
  | running
  | returned
deriving DecidableEq, Repr

structure Exec where
  /-- of every pipe -/
  capacity : ℕ
  timeoutSeconds : ℤ
  /-- what the process has still to do -/
  program : List ChildOp
  /-- with which it will exit -/
  code : ℤ
  exited : Option ℤ := none
  phase : ExecPhase := .writing
  /-- the part of `stdin_data` that is not written yet -/
  rest : Bytes
  stdin : Bytes := []
  stdinOpen : Bool := true
  pipe : Channel → Bytes := fun _ => []
  pipesOpen : Bool := true
  reads : Channel → AsyncRead := fun _ => .waiting
  wait : AsyncWait := .waiting
  timer : Deadline := .unset
  pending : ℕ := 3
  /-- `pout` and `perr` -/
  captured : Channel → Bytes := fun _ => []
  exitCode : ℤ := -1
  timedOut : Bool := false

namespace Exec

/-- when the process has been created -/
def start (capacity : ℕ) (timeoutSeconds : ℤ) (stdinData : Bytes) (program : List ChildOp) (code : ℤ) : Exec where
  capacity := capacity
  timeoutSeconds := timeoutSeconds
  program := program
  code := code
  rest := stdinData

/-! ## The process -/

/-- up to `n + 1` bytes of a write go into the pipe at once -/
def childStep (s : Exec) (n : ℕ) : Option Exec :=
  if s.exited.isSome then none
  else
    match s.program with
    | [] => some { s with exited := some s.code }
    | .read k :: program =>
      if k ≠ 0 ∧ s.stdin = [] ∧ s.stdinOpen then none
      else some { s with stdin := s.stdin.drop k, program := program }
    | .write channel data :: program =>
      let room := s.capacity - (s.pipe channel).length
      if data = [] then some { s with program := program }
      else if room = 0 then none
      else
        some { s with
          pipe := Function.update s.pipe channel (s.pipe channel ++ data.take (min (n + 1) room))
          program := .write channel (data.drop (min (n + 1) room)) :: program }

/-- `SIGKILL`, as an exit code -/
def killed : ℤ := 9

/-! ## `exec` -/

/-- `stdin_pipe` is closed, and the asynchronous operations start -/
def startLoop (s : Exec) : Exec :=
  { s with
    stdinOpen := false
    phase := .running
    timer := if 0 < s.timeoutSeconds then .waiting else .unset }

/-- the blocking write; it fails once the process has exited -/
def writeStdin (s : Exec) (n : ℕ) : Option Exec :=
  if s.phase ≠ .writing then none
  else if s.rest = [] ∨ s.exited.isSome then some s.startLoop
  else
    let room := s.capacity - s.stdin.length
    if room = 0 then none
    else
      some { s with
        stdin := s.stdin ++ s.rest.take (min (n + 1) room)
        rest := s.rest.drop (min (n + 1) room) }

/-- the most that `stdout_buffer` and `stderr_buffer` take -/
def bufferSize : ℕ := 1024

/-- a read ends with up to `n + 1` bytes, or at the end of the pipe -/
def readReady (s : Exec) (channel : Channel) (n : ℕ) : Option Exec :=
  if s.phase = .running ∧ s.reads channel = .waiting then
    let size := min (n + 1) bufferSize
    if s.pipe channel ≠ [] then
      some { s with
        pipe := Function.update s.pipe channel ((s.pipe channel).drop size)
        reads := Function.update s.reads channel (.queued (some ((s.pipe channel).take size))) }
    else if s.exited.isSome then some { s with reads := Function.update s.reads channel (.queued none) }
    else none
  else none

def waitReady (s : Exec) : Option Exec :=
  if s.phase = .running ∧ s.wait = .waiting ∧ s.exited.isSome then some { s with wait := .queued } else none

def expire (s : Exec) : Option Exec :=
  if s.phase = .running ∧ s.timer = .waiting then some { s with timer := .expired } else none

/-- `on_pending_done` -/
def pendingDone (s : Exec) : Exec :=
  { s with
    pending := s.pending - 1
    timer := if s.pending - 1 = 0 ∧ s.timer = .waiting then .cancelled else s.timer }

/-- `on_stdout` and `on_stderr`; a read on a closed pipe fails at once -/
def handleRead (s : Exec) (channel : Channel) : Option Exec :=
  if s.phase = .running then
    match s.reads channel with
    | .queued (some bytes) =>
      some { s with
        captured := Function.update s.captured channel (s.captured channel ++ bytes)
        reads := Function.update s.reads channel (if s.pipesOpen then .waiting else .queued none) }
    | .queued none => some { s with reads := Function.update s.reads channel .done }.pendingDone
    | _ => none
  else none

def handleWait (s : Exec) : Option Exec :=
  if s.phase = .running ∧ s.wait = .queued then
    some { s with exitCode := s.exited.getD (-1), wait := .done }.pendingDone
  else none

/-- on expiry the process is terminated and the pipes are closed, which ends their reads -/
def handleTimer (s : Exec) : Option Exec :=
  if s.phase = .running then
    match s.timer with
    | .expired =>
      some { s with
        timer := .done
        timedOut := true
        exited := some (s.exited.getD killed)
        pipesOpen := false
        reads := fun channel => if s.reads channel = .waiting then .queued none else s.reads channel }
    | .cancelled => some { s with timer := .done }
    | _ => none
  else none

/-- the io_context has no work left -/
def finish (s : Exec) : Option Exec :=
  if s.phase = .running ∧ s.reads .out = .done ∧ s.reads .err = .done ∧ s.wait = .done ∧
      (s.timer = .unset ∨ s.timer = .done) then
    some { s with phase := .returned }
  else none

/-! ## Events -/

inductive ExecEvent where
  | child (n : ℕ)
  | write (n : ℕ)
  | readReady (channel : Channel) (n : ℕ)
  | waitReady
  | expire
  | handleRead (channel : Channel)
  | handleWait
  | handleTimer
  | finish

def step (s : Exec) : ExecEvent → Option Exec
  | .child n => s.childStep n
  | .write n => s.writeStdin n
  | .readReady channel n => s.readReady channel n
  | .waitReady => s.waitReady
  | .expire => s.expire
  | .handleRead channel => s.handleRead channel
  | .handleWait => s.handleWait
  | .handleTimer => s.handleTimer
  | .finish => s.finish

abbrev run (s : Exec) (events : List ExecEvent) : Exec := Guarded.run step s events

/-- the events of `exec` itself: neither the process nor the clock has to move -/
def ExecEvent.own : ExecEvent → Bool
  | .child _ => false
  | .expire => false
  | _ => true

def Deadlocked (s : Exec) : Prop := s.phase ≠ .returned ∧ Guarded.Stuck step s

def Waiting (s : Exec) : Prop := s.phase ≠ .returned ∧ ∀ e, e.own = true → step s e = none

/-- `exec` can go on or wait for something that will happen, and a timeout ends every wait -/
def Live (s : Exec) : Prop :=
  ¬ s.Deadlocked ∧ (0 < s.timeoutSeconds → s.Waiting → (step s .expire).isSome)

end Exec

end Iotmp
