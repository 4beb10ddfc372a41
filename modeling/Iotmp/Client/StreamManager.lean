/-
Stream managers (`iotmp_stream_manager.cpp`): a table of weak session pointers per manager.

- `ExecResult`: what a session start reports, an OK or an ERROR message.
- `managerStart`, `finishStart`: `stream_manager::start` up to its `co_spawn`, and the rest of it once
  `session->start()` has returned or thrown. Anything may happen in between.
- `managerStop`: `stream_manager::stop`, up to the call of its handler.
- `endSession`: the destructor of a session, with the listener the manager installed.
What `create_session`, `session->start()` and `session->stop()` do is an argument.
-/
import Mathlib.Tactic
import Iotmp.Client.State

namespace Iotmp

structure ExecResult where
  message : IotmpMessage
  answers : message.messageType = .ok ∨ message.messageType = .error

namespace ExecResult

/-- `exec_result(bool)` -/
def ofBool (success : Bool) : ExecResult where
  message := { messageType := if success then .ok else .error }
  answers := by cases success <;> simp

def isOk (result : ExecResult) : Bool := result.message.messageType = .ok

end ExecResult

namespace Client

def setSession (c : Client) (manager : ManagerId) (streamId : UInt16) (entry : Option ℕ) : Client :=
  { c with sessions := Function.update c.sessions manager (Function.update (c.sessions manager) streamId entry) }

def modifySession (c : Client) (i : ℕ) (f : Session → Session) : Client := { c with objects := c.objects.modify i f }

/-! ## start -/

/-- the handler START_STREAM gives the manager: the answer, and the echo after an OK -/
def answerStart (c : Client) (streamId : UInt16) (ref : ResourceRef) (result : ExecResult) : Client × Bool :=
  match c.sendMessage (result.message.setStreamId streamId) with
  | (c, false) => (c, false)
  | (c, true) =>
    match c.deref ref with
    -- a dangling pointer, which only an OK makes it follow
    | none => (c, !result.isOk)
    | some resource =>
      if result.isOk && resource.streamEcho then c.streamResource resource streamId else (c, true)

/-- `create`: true for a session, false for a null pointer -/
def managerStart (c : Client) (manager : ManagerId) (streamId : UInt16) (ref : ResourceRef) (create : Call Bool) :
    Client × Bool :=
  match c.sessions manager streamId with
  | some _ => c.answerStart streamId ref (.ofBool false)
  | none =>
    match create with
    | .throws => (c, false)
    | .returns false => c.answerStart streamId ref (.ofBool false)
    | .returns true =>
      ({ c with objects := c.objects ++ [{ streamId := streamId, manager := manager, resource := ref }] }, true)

/-- `sessions_.emplace`, which keeps an entry that is there, and the listener -/
def registerSession (c : Client) (i : ℕ) (o : Session) : Client :=
  let c := if (c.sessions o.manager o.streamId).isSome then c else c.setSession o.manager o.streamId (some i)
  c.modifySession i fun o => { o with phase := .started, onEnd := true }

/-- a registration touches the table of the manager and the session itself only -/
theorem registerSession_eq (c : Client) (i : ℕ) (o : Session) :
    ∃ sessions, c.registerSession i o =
      { c with
        sessions := sessions
        objects := c.objects.modify i fun o => { o with phase := .started, onEnd := true } } := by
  simp only [registerSession, modifySession]
  split_ifs with hentry
  · exact ⟨c.sessions, rfl⟩
  · exact ⟨_, rfl⟩

/-- a session after session `i` has changed -/
theorem modify_cases {objects : List Session} {i j : ℕ} {f : Session → Session} {o : Session}
    (h : (objects.modify i f)[j]? = some o) :
    (j ≠ i ∧ objects[j]? = some o) ∨ (j = i ∧ ∃ o', objects[i]? = some o' ∧ o = f o') := by
  rw [List.getElem?_modify] at h
  obtain ⟨o', ho', hf⟩ := Option.map_eq_some_iff.1 h
  split_ifs at hf with hij
  · exact .inr ⟨hij.symm, o', hij ▸ ho', hf.symm⟩
  · obtain rfl : o' = o := hf
    exact .inl ⟨Ne.symm hij, ho'⟩

/-- the coroutine after `co_await session->start()` -/
def finishStart (c : Client) (i : ℕ) (outcome : Call ExecResult) : Client × Bool :=
  match c.objects[i]? with
  | none => (c, true)
  | some o =>
    match outcome with
    | .throws => (c.modifySession i fun o => { o with phase := .failed }, false)
    | .returns result =>
      let c := if result.isOk then c.registerSession i o else c.modifySession i fun o => { o with phase := .failed }
      c.answerStart o.streamId o.resource result

/-! ## stop -/

/-- whether a weak pointer to the session can be locked -/
def isAlive (c : Client) (i : ℕ) : Bool := (c.objects[i]?).any Session.alive

/-- `stream_manager::stop` until it calls its handler: with what, unless `session->stop()` throws -/
def managerStop (c : Client) (manager : ManagerId) (streamId : UInt16) (stop : Call Unit) : Client × Call Bool :=
  match c.sessions manager streamId with
  | none => (c, .returns false)
  | some i =>
    let c := c.setSession manager streamId none
    if c.isAlive i then
      match stop with
      | .throws => (c, .throws)
      | .returns () => (c.modifySession i fun o => { o with stopped := true }, .returns true)
    else
      match c.stopStream streamId with
      | (c, false) => (c, .throws)
      | (c, true) => (c, .returns true)

/-! ## The end of a session -/

/-- `~stream_session`: the weak pointers have expired when the listener runs -/
def endSession (c : Client) (i : ℕ) : Client :=
  match c.objects[i]? with
  | none => c
  | some o =>
    let c := c.modifySession i fun o => { o with alive := false }
    if o.onEnd then (c.managerStop o.manager o.streamId (.returns ())).1 else c

end Client

end Iotmp
