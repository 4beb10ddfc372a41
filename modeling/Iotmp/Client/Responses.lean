/-
The readers of one connection (`client.hpp`: `read_loop` and every pending `wait_response`), which all take the next
frame from the same socket. A `read_message` call takes a whole frame at once.

- `Readers`, `step`: frames arrive, coroutines begin to wait, one of the coroutines that read is given the next frame.
  What it does with the frame is `consume`.
- `delivered_iff_alone`: in every state of a run, whichever coroutine reads next, a response reaches the request it
  answers, if and only if in every state of the run no other coroutine reads while a response to a pending request is
  the next frame.
- `dropped_response`: a response handed to `handle_message` is lost.
Counterexample: `read_loop_takes_response`.
-/
import Mathlib.Tactic
import Iotmp.Client.ReadMessage
import Iotmp.Client.Requests
import Iotmp.Lib.Run

namespace Iotmp

/-! ## The readers and their frames -/

inductive Reader where
  | readLoop
  | waiter (i : ℕ)
deriving DecidableEq

/-- a coroutine in `wait_response` -/
structure Waiter where
  request : IotmpMessage
  wantsPayload : Bool
  /-- it waits for `handle_message`, else for `read_message` -/
  handling : Bool := false

structure Readers where
  /-- whether `read_loop` runs; it never waits for `handle_message` -/
  readLoop : Bool := true
  waiters : ℕ → Option Waiter := fun _ => none
  /-- the frames the server has sent and nobody has read -/
  inbox : List IotmpMessage := []
  /-- the frames that ended a `wait_response` -/
  answered : List (Reader × IotmpMessage) := []
  /-- the frames that were handed to `handle_message` -/
  handled : List (Reader × IotmpMessage) := []

namespace Readers

/-- what a coroutine that waits for `read_message` will do with the frame -/
def consumer (s : Readers) : Reader → Option Consumer
  | .readLoop => if s.readLoop then some .readLoop else none
  | .waiter i =>
    match s.waiters i with
    | some w => if w.handling then none else some (.waitResponse w.request w.wantsPayload)
    | none => none

def leave (s : Readers) : Reader → Readers
  | .readLoop => { s with readLoop := false }
  | .waiter i => { s with waiters := Function.update s.waiters i none }

/-- `co_await handle_message`, where `read_loop` spawns it -/
def setHandling (s : Readers) (handling : Bool) : Reader → Readers
  | .readLoop => s
  | .waiter i =>
    { s with waiters := Function.update s.waiters i ((s.waiters i).map fun w => { w with handling := handling }) }

/-- the reader goes on with the frame it took -/
def take (s : Readers) (r : Reader) (m : IotmpMessage) : Effect → Readers
  | .handle _ => { s with handled := s.handled ++ [(r, m)] }.setHandling true r
  | .answer _ _ => { s with answered := s.answered ++ [(r, m)] }.leave r
  | .disconnected => s.leave r
  | .throws => s.leave r

/-- `read_message` returns the next frame to `r`, if there is one and `r` waits for it -/
def read (s : Readers) (r : Reader) : Readers :=
  match s.inbox, s.consumer r with
  | m :: inbox, some c => { s with inbox := inbox }.take r m (consume c (.message m))
  | _, _ => s

inductive ReadEvent where
  /-- a frame of the server arrives -/
  | arrive (m : IotmpMessage)
  /-- coroutine `i` enters `wait_response` -/
  | wait (i : ℕ) (request : IotmpMessage) (wantsPayload : Bool)
  | read (r : Reader)
  /-- the `handle_message` that coroutine `i` waits for returns -/
  | resume (i : ℕ)
  /-- the connection is lost for `r`, or an exception ends it -/
  | leave (r : Reader)

def step (s : Readers) : ReadEvent → Readers
  | .arrive m => { s with inbox := s.inbox ++ [m] }
  | .wait i request wantsPayload =>
    if (s.waiters i).isSome then s
    else { s with waiters := Function.update s.waiters i (some { request := request, wantsPayload := wantsPayload }) }
  | .read r => s.read r
  | .resume i => s.setHandling false (.waiter i)
  | .leave r => s.leave r

abbrev run (s : Readers) (events : List ReadEvent) : Readers := Run.run step s events

/-! ## Responses -/

def IsResponse (m : IotmpMessage) : Prop := m.messageType = .ok ∨ m.messageType = .error

/-- the next frame answers the request coroutine `i` waits for -/
def NextAnswers (s : Readers) (i : ℕ) (m : IotmpMessage) : Prop :=
  s.inbox.head? = some m ∧ IsResponse m ∧ ∃ w, s.waiters i = some w ∧ w.request.getStreamId = m.getStreamId

/-- if `r` is the one that reads next, a response goes to the request it answers, and nowhere else -/
def Delivers (s : Readers) (r : Reader) : Prop :=
  ∀ i m, s.NextAnswers i m → (s.consumer r).isSome →
    (step s (.read r)).answered = s.answered ++ [(.waiter i, m)] ∧ (step s (.read r)).handled = s.handled

/-- while a response to a pending request is the next frame, nobody else reads -/
def Alone (s : Readers) : Prop := ∀ i m, s.NextAnswers i m → ∀ r, (s.consumer r).isSome → r = .waiter i

/-- `handle_message` drops a response -/
theorem dropped_response (c : Client) {m : IotmpMessage} (hm : IsResponse m) (code : SessionCode) :
    c.handleMessage m code = (c, true) := by
  unfold Client.handleMessage
  rcases hm with hm | hm
  · rw [hm]
  · rw [hm]

/-! ## One read -/

theorem read_eq {s : Readers} {r : Reader} {m : IotmpMessage} {c : Consumer} (hm : s.inbox.head? = some m)
    (hc : s.consumer r = some c) :
    s.read r = { s with inbox := s.inbox.tail }.take r m (consume c (.message m)) := by
  unfold read
  rcases hbox : s.inbox with _ | ⟨m', inbox⟩
  · rw [hbox] at hm
    exact absurd hm (by simp)
  · rw [hbox] at hm
    obtain rfl : m' = m := by simpa using hm
    rw [hc]
    rfl

/-- a frame a reader hands on counts as handled -/
theorem read_handled {s : Readers} {r : Reader} {m m' : IotmpMessage} {c : Consumer} (hm : s.inbox.head? = some m)
    (hc : s.consumer r = some c) (heffect : consume c (.message m) = .handle m') :
    (s.read r).handled = s.handled ++ [(r, m)] := by
  rw [read_eq hm hc, heffect]
  cases r <;> rfl

theorem read_answered {s : Readers} {r : Reader} {m : IotmpMessage} {c : Consumer} {success : Bool}
    {payload : Option Json} (hm : s.inbox.head? = some m) (hc : s.consumer r = some c)
    (heffect : consume c (.message m) = .answer success payload) :
    (s.read r).answered = s.answered ++ [(r, m)] ∧ (s.read r).handled = s.handled := by
  rw [read_eq hm hc, heffect]
  cases r <;> exact ⟨rfl, rfl⟩

/-- every reader hands a frame on or ends its wait with it -/
theorem consume_message {s : Readers} {r : Reader} {c : Consumer} (hc : s.consumer r = some c) (m : IotmpMessage) :
    consume c (.message m) = .handle m ∨ ∃ success payload, consume c (.message m) = .answer success payload := by
  cases c with
  | readLoop => exact .inl rfl
  | waitResponse request wantsPayload =>
    by_cases hmine : request.getStreamId = m.getStreamId ∧ m.messageType.code ≤ MessageType.error.code
    · exact .inr ⟨_, _, if_pos hmine⟩
    · exact .inl (if_neg hmine)
  | authenticate => exact .inr ⟨_, _, rfl⟩

/-- the waiter a response is for takes it as its answer -/
theorem consume_own {request m : IotmpMessage} (hm : IsResponse m) (hid : request.getStreamId = m.getStreamId)
    (wantsPayload : Bool) :
    ∃ success payload, consume (.waitResponse request wantsPayload) (.message m) = .answer success payload := by
  have hcode : m.messageType.code ≤ MessageType.error.code := by
    rcases hm with hm | hm
    · rw [hm]
      decide
    · rw [hm]
  exact ⟨_, _, if_pos ⟨hid, hcode⟩⟩

theorem consumer_waiter {s : Readers} {i : ℕ} {w : Waiter} {c : Consumer} (hw : s.waiters i = some w)
    (hc : s.consumer (.waiter i) = some c) : c = .waitResponse w.request w.wantsPayload := by
  simp only [consumer, hw] at hc
  split_ifs at hc
  exact (Option.some.inj hc).symm

/-- **Whoever reads next.** -/
theorem delivers_iff_alone (s : Readers) : (∀ r, s.Delivers r) ↔ s.Alone := by
  constructor
  · intro h i m hnext r hr
    obtain ⟨c, hc⟩ := Option.isSome_iff_exists.1 hr
    obtain ⟨hanswered, hhandled⟩ := h r i m hnext hr
    rw [step] at hanswered hhandled
    rcases consume_message hc m with heffect | ⟨success, payload, heffect⟩
    · have hmore := read_handled hnext.1 hc heffect
      rw [hhandled] at hmore
      exact absurd hmore (by simp)
    · have hmine := (read_answered hnext.1 hc heffect).1
      rw [hanswered] at hmine
      simpa using hmine.symm
  · intro h r i m hnext hr
    have hown := h i m hnext r hr
    obtain ⟨hm, hresponse, w, hw, hid⟩ := hnext
    obtain ⟨c, hc⟩ := Option.isSome_iff_exists.1 hr
    rw [hown] at hc ⊢
    obtain rfl := consumer_waiter hw hc
    obtain ⟨success, payload, heffect⟩ := consume_own hresponse hid w.wantsPayload
    exact read_answered hm hc heffect

/-- so nothing is sure while `read_loop` runs -/
theorem not_alone_of_readLoop {s : Readers} {i : ℕ} {m : IotmpMessage} (hloop : s.readLoop = true)
    (hnext : s.NextAnswers i m) : ¬ s.Alone := by
  intro h
  have hr : (s.consumer .readLoop).isSome := by simp [consumer, hloop]
  exact absurd (h i m hnext .readLoop hr) (by simp)

/-! ## Runs -/

/-- **Responses reach their requests.** In every state of a run, whoever reads next, if and only if in every state of
the run a response to a pending request finds no reader but that request's own. -/
theorem delivered_iff_alone (s : Readers) (events : List ReadEvent) :
    (∀ before, before <+: events → ∀ r, (run s before).Delivers r) ↔
      ∀ before, before <+: events → (run s before).Alone := by
  constructor
  · intro h before hbefore
    exact (delivers_iff_alone _).1 (h before hbefore)
  · intro h before hbefore
    exact (delivers_iff_alone _).2 (h before hbefore)

/-- **`read_loop` takes the answer of a pending request.** -/
theorem read_loop_takes_response :
    ¬ ∀ before, before <+: [.wait 0 (.withStreamId 7 .run) false, .arrive (.withStreamId 7 .ok)] →
      ∀ r, (run {} before).Delivers r := by
  intro h
  have hdelivers := h _ List.prefix_rfl .readLoop
  have hnext : (run {} [.wait 0 (.withStreamId 7 .run) false, .arrive (.withStreamId 7 .ok)]).NextAnswers 0
      (.withStreamId 7 .ok) := by
    refine ⟨rfl, .inl (by simp), { request := .withStreamId 7 .run, wantsPayload := false }, rfl, ?_⟩
    simp
  obtain ⟨hanswered, -⟩ := hdelivers 0 _ hnext rfl
  exact absurd (congrArg List.length hanswered) (by decide)

end Readers

end Iotmp
