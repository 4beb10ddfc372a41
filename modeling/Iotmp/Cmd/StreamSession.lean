/-
A command whose output is streamed (`cmd_stream_session.cpp`), together with the command's process.

Five coroutines share the session: `run`, which reads both outputs, waits for the process and sends the last frame;
`read_stdout`, `read_stderr` and `wait_process`, which it joins; `watch_timeout`; and the loop that writes the input.
They move by completions that are queued before they are handled, so that `stop` can come in between. The connection is
up throughout.

- `CmdFrame`: what is sent on the stream. `CmdStream`: the session and the process.
- `StreamEvent`, `step`: one completion, one coroutine that is resumed, one call from outside, or something the process
  does. The process and those it started hold the other ends of the outputs; what a pipe holds at once is left open.
-/
import Mathlib.Tactic
import Iotmp.Core.Resource
import Iotmp.Cmd.Exec

namespace Iotmp

inductive CmdFrame where
  | data (channel : Channel) (bytes : Bytes)
  | exit (code : Int32) (timeout : Bool)
deriving DecidableEq, Repr

/-- the payload of the STREAM_DATA -/
def CmdFrame.payload : CmdFrame → Json
  | .data .out bytes => .object [(text "out", .binary bytes none)]
  | .data .err bytes => .object [(text "err", .binary bytes none)]
  | .exit code false => .object [(text "exit", .numberInteger code.toInt64)]
  | .exit code true => .object [(text "exit", .numberInteger code.toInt64), (text "timeout", .boolean true)]

/-- where `run` is: not begun, joining the other three, or at its end -/
inductive Coordinator where
  | spawned
  | joining
  | ended
deriving DecidableEq, Repr

/-- the wait for the process; its handler gets an exit code, or an error -/
inductive ProcessWait where
  | waiting
  | queued (code : Option Int32)
  | done
deriving DecidableEq, Repr

/-- `stdin_write_loop`; `idle` is `!stdin_writing_` -/
inductive InputLoop where
  | idle
  | spawned
  | writing (data : Bytes)
deriving DecidableEq, Repr

structure CmdStream where
  timeoutSeconds : ℤ
  /-- all that was written to an output, and the part of it that was not read -/
  written : Channel → Bytes := fun _ => []
  pipe : Channel → Bytes := fun _ => []
  /-- nobody holds the other end of an output any more -/
  hungUp : Channel → Bool := fun _ => false
  exited : Option Int32 := none
  /-- what the process was given -/
  stdin : Bytes := []
  timedOut : Bool := false
  finished : Bool := false
  stoppedExternally : Bool := false
  exitCode : Int32 := -1
  stdinOpen : Bool := true
  /-- `stdout_pipe_` and `stderr_pipe_` -/
  outputsOpen : Bool := true
  coordinator : Coordinator := .spawned
  reads : Channel → AsyncRead := fun _ => .waiting
  wait : ProcessWait := .waiting
  /-- `timeout_timer_` -/
  watch : Deadline := .unset
  stdinQueue : List Bytes := []
  inputLoop : InputLoop := .idle
  sent : List CmdFrame := []

namespace CmdStream

def CMD_STREAM_BUFFER_SIZE : ℕ := 4096

/-- when `start` has launched the process -/
def start (timeoutSeconds : ℤ) : CmdStream where
  timeoutSeconds := timeoutSeconds

/-! ## The process -/

def produce (s : CmdStream) (channel : Channel) (bytes : Bytes) : Option CmdStream :=
  if s.hungUp channel = false ∧ s.outputsOpen then
    some { s with
      written := Function.update s.written channel (s.written channel ++ bytes)
      pipe := Function.update s.pipe channel (s.pipe channel ++ bytes) }
  else none

def hangUp (s : CmdStream) (channel : Channel) : CmdStream :=
  { s with hungUp := Function.update s.hungUp channel true }

def exits (s : CmdStream) (code : Int32) : Option CmdStream :=
  if s.exited = none then some { s with exited := some code } else none

/-- `SIGKILL`, as an exit code -/
def killed : Int32 := 9

def terminate (s : CmdStream) : CmdStream := { s with exited := some (s.exited.getD killed) }

/-! ## The coroutines -/

/-- `run` begins; a read on a closed pipe fails at once -/
def begin (s : CmdStream) : Option CmdStream :=
  if s.coordinator = .spawned then
    some { s with
      coordinator := .joining
      reads := fun _ => if s.outputsOpen then .waiting else .queued none
      wait := .waiting }
  else none

/-- a read ends with up to `n + 1` bytes, or at the end of the pipe -/
def readReady (s : CmdStream) (channel : Channel) (n : ℕ) : Option CmdStream :=
  if s.coordinator = .joining ∧ s.reads channel = .waiting then
    let size := min (n + 1) CMD_STREAM_BUFFER_SIZE
    if s.pipe channel ≠ [] then
      some { s with
        pipe := Function.update s.pipe channel ((s.pipe channel).drop size)
        reads := Function.update s.reads channel (.queued (some ((s.pipe channel).take size))) }
    else if s.hungUp channel then some { s with reads := Function.update s.reads channel (.queued none) }
    else none
  else none

/-- `read_stdout` and `read_stderr` -/
def resumeRead (s : CmdStream) (channel : Channel) : Option CmdStream :=
  if s.coordinator = .joining then
    match s.reads channel with
    | .queued (some bytes) =>
      some { s with
        sent := if bytes = [] then s.sent else s.sent ++ [.data channel bytes]
        reads := Function.update s.reads channel (if s.outputsOpen then .waiting else .queued none) }
    | .queued none => some { s with reads := Function.update s.reads channel .done }
    | _ => none
  else none

def waitReady (s : CmdStream) (failed : Bool) : Option CmdStream :=
  if s.coordinator = .joining ∧ s.wait = .waiting ∧ (failed ∨ s.exited.isSome) then
    some { s with wait := .queued (if failed then none else s.exited) }
  else none

/-- `wait_process` -/
def resumeWait (s : CmdStream) : Option CmdStream :=
  if s.coordinator = .joining then
    match s.wait with
    | .queued code => some { s with exitCode := code.getD (-1), finished := true, wait := .done }
    | _ => none
  else none

def cancelWatch (s : CmdStream) : CmdStream :=
  { s with watch := if s.watch = .waiting then .cancelled else s.watch }

/-- `run` goes on when the three it joins have ended -/
def join (s : CmdStream) : Option CmdStream :=
  if s.coordinator = .joining ∧ s.reads .out = .done ∧ s.reads .err = .done ∧ s.wait = .done then
    some { s.cancelWatch with coordinator := .ended, sent := s.sent ++ [.exit s.exitCode s.timedOut] }
  else none

/-- `watch_timeout` begins -/
def beginWatch (s : CmdStream) : Option CmdStream :=
  if 0 < s.timeoutSeconds ∧ s.watch = .unset then some { s with watch := .waiting } else none

def expire (s : CmdStream) : Option CmdStream :=
  if s.watch = .waiting then some { s with watch := .expired } else none

/-- `watch_timeout` -/
def resumeWatch (s : CmdStream) : Option CmdStream :=
  match s.watch with
  | .expired =>
    if s.finished then some { s with watch := .done }
    else some { s.terminate with watch := .done, timedOut := true }
  | .cancelled => some { s with watch := .done }
  | _ => none

/-- the loop of `stdin_write_loop`, at its condition -/
def nextInput (s : CmdStream) : CmdStream :=
  match s.stdinQueue with
  | [] => { s with inputLoop := .idle }
  | data :: queue =>
    if s.stdinOpen then { s with stdinQueue := queue, inputLoop := .writing data } else { s with inputLoop := .idle }

/-- `stdin_write_loop` begins, or goes on after a write; one that fails has written `n` bytes -/
def resumeInput (s : CmdStream) (failed : Bool) (n : ℕ) : Option CmdStream :=
  match s.inputLoop with
  | .idle => none
  | .spawned => some s.nextInput
  | .writing data =>
    if failed then some { s with stdin := s.stdin ++ data.take n, inputLoop := .idle }
    else some { s with stdin := s.stdin ++ data }.nextInput

/-! ## Calls from outside -/

/-- the process is terminated and the pipes are closed, which ends their reads -/
def stop (s : CmdStream) : CmdStream :=
  { s with
    stoppedExternally := true
    exited := if s.finished then s.exited else s.terminate.exited
    stdinOpen := false
    outputsOpen := false
    reads := fun channel => if s.reads channel = .waiting then .queued none else s.reads channel
    watch := s.cancelWatch.watch }

/-- binary data and strings are taken as they are, anything else is ignored -/
def inputData : Json → Bytes
  | .binary data _ => data
  | .string data => data
  | _ => []

def handleInput (s : CmdStream) (payload : Json) : CmdStream :=
  if s.finished ∨ ¬ s.stdinOpen ∨ inputData payload = [] then s
  else
    { s with
      stdinQueue := s.stdinQueue ++ [inputData payload]
      inputLoop := if s.inputLoop = .idle then .spawned else s.inputLoop }

/-! ## Events -/

inductive StreamEvent where
  | produce (channel : Channel) (bytes : Bytes)
  | hangUp (channel : Channel)
  | exits (code : Int32)
  | begin
  | readReady (channel : Channel) (n : ℕ)
  | resumeRead (channel : Channel)
  | waitReady (failed : Bool)
  | resumeWait
  | join
  | beginWatch
  | expire
  | resumeWatch
  | resumeInput (failed : Bool) (n : ℕ)
  | stop
  | input (payload : Json)

def step (s : CmdStream) : StreamEvent → Option CmdStream
  | .produce channel bytes => s.produce channel bytes
  | .hangUp channel => some (s.hangUp channel)
  | .exits code => s.exits code
  | .begin => s.begin
  | .readReady channel n => s.readReady channel n
  | .resumeRead channel => s.resumeRead channel
  | .waitReady failed => s.waitReady failed
  | .resumeWait => s.resumeWait
  | .join => s.join
  | .beginWatch => s.beginWatch
  | .expire => s.expire
  | .resumeWatch => s.resumeWatch
  | .resumeInput failed n => s.resumeInput failed n
  | .stop => some s.stop
  | .input payload => some (s.handleInput payload)

abbrev run (s : CmdStream) (events : List StreamEvent) : CmdStream := Guarded.run step s events

/-- the bytes of an output that the frames carry -/
def carried (channel : Channel) : List CmdFrame → Bytes
  | [] => []
  | .data channel' bytes :: frames => (if channel' = channel then bytes else []) ++ carried channel frames
  | .exit _ _ :: frames => carried channel frames

end CmdStream

end Iotmp
