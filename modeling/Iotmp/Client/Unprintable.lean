/-
Messages the logger cannot print (`client.hpp`: `read_message`, `send_message`; `iotmp_logger.hpp`).

Both functions dump a message before they hand it on, and `nlohmann::json::dump()` throws on text that is not UTF-8,
which the codec carries like any other.

- `Outgoing.Framed`: a frame of a message, one that the decoder makes it of or the client's own.
- `own_frame_texts`: the client's own frame carries the text of the message, cut at NULs and nothing else.
- `survives_iff`: `read_message` and `send_message` both get past the logger iff all logged text is UTF-8.
Witness: `survives_nested`. Counterexample: `unprintable_breaks_both`, the byte 0xFF two levels deep.
-/
import Mathlib.Tactic
import Iotmp.Core.LoggedText
import Iotmp.Client.FrameStream

namespace Iotmp

open IotmpMessage (loggedText)

/-! ## The client's own frames -/

/-- what the logger serialises of a value that was cut -/
theorem loggedText_cut {v' v : Json} (h : Pson.Cut v' v) (field : UInt8) :
    ∀ t ∈ loggedText field v', ∃ s ∈ loggedText field v, t = Pson.cStr s := by
  unfold loggedText
  split_ifs
  · cases v' with
    | array es' =>
      obtain ⟨es, rfl⟩ := h.array es' rfl
      exact h.texts
    | _ => exact fun t ht => absurd ht List.not_mem_nil
  · exact h.texts
  · exact fun t ht => absurd ht List.not_mem_nil

/-- every text of `m` that is logged is one of `sent`, cut -/
def IotmpMessage.LoggedFrom (m : IotmpMessage) (sent : List Bytes) : Prop :=
  ∀ field, ∀ t ∈ loggedText field (m.get field), ∃ s ∈ sent, t = Pson.cStr s

theorem loggedText_null (field : UInt8) : loggedText field .null = [] := by
  unfold loggedText
  split_ifs <;> rfl

theorem loggedFrom_empty (type : MessageType) (sent : List Bytes) :
    ({ messageType := type } : IotmpMessage).LoggedFrom sent := by
  intro field t ht
  have hnull : ({ messageType := type } : IotmpMessage).get field = .null := rfl
  rw [hnull, loggedText_null] at ht
  exact absurd ht List.not_mem_nil

theorem IotmpMessage.LoggedFrom.setField {m : IotmpMessage} {sent : List Bytes} (h : m.LoggedFrom sent)
    (field : UInt8) {v : Json} (hv : ∀ t ∈ loggedText field v, ∃ s ∈ sent, t = Pson.cStr s) :
    (m.setField field v).LoggedFrom sent := by
  intro field' t ht
  rw [IotmpMessage.get_setField] at ht
  split_ifs at ht with heq
  · exact hv t (heq ▸ ht)
  · exact h field' t ht

namespace Codec

open Json

/-- one round of the decoder on one field: the field arrives cut, or the decoder stops there -/
theorem decodeLoop_entry_cut (size startRead fuel : ℕ) (message : IotmpMessage) (entry : UInt8 × Json)
    (hf : entry.1.toNat < 16) (hp : Pson.Present entry.2) (hmax : (entryBytes entry).length ≤ UINT32_MAX) (tl : Bytes)
    (n : ℕ) (hn : size ≠ n - startRead) :
    (∃ v', Pson.Cut v' entry.2 ∧
      decodeLoop size startRead (fuel + 1) message ⟨entryBytes entry ++ tl, n⟩ =
        decodeLoop size startRead fuel (message.setField entry.1 v') ⟨tl, n + (entryBytes entry).length⟩) ∨
      (decodeLoop size startRead (fuel + 1) message ⟨entryBytes entry ++ tl, n⟩).2.1 = message := by
  obtain ⟨field, value⟩ := entry
  simp only [entryBytes] at hmax ⊢
  simp only [decodeLoop, if_neg hn]
  cases hv : fieldVarint value with
  | none =>
    rw [hv, List.length_cons] at hmax
    obtain ⟨v', hd, hcut⟩ := Pson.decodeFuel_cut value hp ((Pson.bytes value ++ tl).length + 1)
      (by simp only [List.length_append]; omega) (by omega) tl (n + 1) (message.get field)
    refine Or.inl ⟨v', hcut, ?_⟩
    simp only [List.cons_append, decodeField_tag_of_lt field hf .psonV2 (Or.inr rfl), UInt8.ofNat_toNat, Pson.decode,
      hd, if_true, List.length_cons]
    congr 2
    omega
  | some v =>
    simp only [List.cons_append, decodeField_tag_of_lt field hf .varint (Or.inl rfl), UInt8.ofNat_toNat,
      List.length_cons]
    by_cases hlt : v.toNat < 2 ^ 35
    · have hread := Pson.pbDecodeVarint_encode 32 4 v.toNat tl (n + 1) (by norm_num) (by norm_num; omega)
      refine Or.inl ⟨.numberUnsigned (UInt64.ofNat (v.toNat % 2 ^ 32)), .of_textless rfl fun _ => by simp, ?_⟩
      simp only [pbDecodeVarint, hread]
      congr 2
      omega
    · have hread := Pson.pbDecodeVarint_encode_overlong 32 4 v.toNat tl (n + 1) (by norm_num) (by norm_num; omega)
      exact Or.inr (by simp only [pbDecodeVarint, hread])

/-- the decoder on a body, wherever it stops -/
theorem decodeLoop_loggedFrom (order : List (UInt8 × Json)) (sent : List Bytes)
    (hf : ∀ e ∈ order, e.1.toNat < 16 ∧ Pson.Present e.2) (hsent : ∀ e ∈ order, ∀ t ∈ loggedText e.1 e.2, t ∈ sent)
    (size startRead fuel n : ℕ) (message : IotmpMessage) (hmessage : message.LoggedFrom sent) (hstart : startRead ≤ n)
    (hsize : size = n - startRead + (order.flatMap entryBytes).length)
    (hmax : (order.flatMap entryBytes).length ≤ UINT32_MAX) :
    (decodeLoop size startRead fuel message ⟨order.flatMap entryBytes, n⟩).2.1.LoggedFrom sent := by
  induction order generalizing fuel n message with
  | nil =>
    have hdone : size = n - startRead := by simpa using hsize
    cases fuel with
    | zero => exact hmessage
    | succ fuel =>
      rw [decodeLoop, if_pos hdone]
      exact hmessage
  | cons e order ih =>
    cases fuel with
    | zero => exact hmessage
    | succ fuel =>
      obtain ⟨hf1, hf2⟩ := List.forall_mem_cons.1 hf
      obtain ⟨hsent1, hsent2⟩ := List.forall_mem_cons.1 hsent
      have hpos : 0 < (entryBytes e).length := by unfold entryBytes; split <;> simp
      rw [List.flatMap_cons, List.length_append] at hsize hmax
      rw [List.flatMap_cons]
      rcases decodeLoop_entry_cut size startRead fuel message e hf1.1 hf1.2 (by omega) (order.flatMap entryBytes) n
        (by omega) with ⟨v', hcut, hround⟩ | hstop
      · rw [hround]
        refine ih hf2 hsent2 fuel _ _ (hmessage.setField e.1 fun t ht => ?_) (by omega) (by omega) (by omega)
        obtain ⟨s, hs, rfl⟩ := loggedText_cut hcut e.1 t ht
        exact ⟨s, hsent1 s hs, rfl⟩
      · rw [hstop]
        exact hmessage

end Codec

/-- **The client's own frame** carries no logged text but that of the message, cut at its NULs. -/
theorem own_frame_texts (m : Outgoing) (hf : ∀ e ∈ m.fields, e.1.toNat < 16 ∧ Pson.Present e.2)
    (hbody : m.frame.body.length ≤ MAX_MESSAGE_SIZE) : m.frame.message.LoggedFrom m.message.loggedTexts := by
  have hmax : MAX_MESSAGE_SIZE ≤ Json.UINT32_MAX := by decide
  have hbytes : m.frame.body = m.fields.flatMap Codec.entryBytes := Codec.body_eq_of_present _ fun e he => (hf e he).2
  have hsent : ∀ e ∈ m.fields, ∀ t ∈ loggedText e.1 e.2, t ∈ m.message.loggedTexts := by
    intro e he t ht
    have hget : m.message.fields.get e.1 = some e.2 := (SortedMap.get_eq_some_iff _ _ _).2 (m.perm.mem_iff.1 he)
    refine IotmpMessage.mem_loggedTexts.2 ⟨e.1, ?_⟩
    rwa [IotmpMessage.get, hget]
  unfold Frame.message
  split_ifs
  · rw [hbytes] at hbody ⊢
    exact Codec.decodeLoop_loggedFrom m.fields _ hf hsent _ 0 _ 0 _ (loggedFrom_empty _ _) le_rfl (Nat.zero_add _).symm
      (hbody.trans hmax)
  · exact loggedFrom_empty _ _

/-! ## The message loop -/

/-- a frame of the message: one that the decoder makes it of, or the one that `encode_message` makes of it, its tags of
one byte and every value one that the encoder encodes -/
inductive Outgoing.Framed (m : Outgoing) (frame : Frame) : Prop
  | decoded (h : frame.message = m.message)
  | own (h : frame = m.frame) (fields : ∀ e ∈ m.fields, e.1.toNat < 16 ∧ Pson.Present e.2)

/-- the logger does not throw on it -/
def IotmpMessage.TextsLog (m : IotmpMessage) (logging : Bool) : Prop :=
  logging = true → m.messageType ≠ .streamData → ∀ t ∈ m.loggedTexts, Utf8.valid t = true

theorem textsLog_iff (m : IotmpMessage) (logging : Bool) : m.TextsLog logging ↔ m.Logs logging := by
  rw [IotmpMessage.TextsLog, IotmpMessage.Logs, IotmpMessage.dumpable_iff]

theorem readFrame_body_le {input rest : Bytes} {frame : Frame} (h : readFrame input = some (frame, rest)) :
    frame.body.length ≤ MAX_MESSAGE_SIZE := by
  unfold readFrame at h
  rcases input with _ | ⟨typeByte, input⟩
  · exact absurd h (by simp)
  · rcases hv : readVarint input with _ | ⟨size, input'⟩
    · simp [hv] at h
    · simp only [hv, socketRead] at h
      split_ifs at h with hbig hsize
      simp only [Option.some.injEq, Prod.mk.injEq] at h
      rw [← h.1, List.length_take]
      omega

/-- what `send_message` lets through is read back without an exception -/
theorem Outgoing.Framed.logs {m : Outgoing} {frame : Frame} (h : m.Framed frame)
    (hbody : frame.body.length ≤ MAX_MESSAGE_SIZE) {logging : Bool} (hlogs : m.message.TextsLog logging) :
    frame.message.Logs logging := by
  cases h with
  | decoded h => rwa [h, ← textsLog_iff]
  | own h fields =>
    subst h
    intro hon htype
    rw [Frame.messageType_message] at htype
    have hsent : m.message.messageType ≠ .streamData := by
      intro heq
      rw [Frame.type, Outgoing.frame, heq] at htype
      exact htype rfl
    refine (IotmpMessage.dumpable_iff _).2 fun t ht => ?_
    obtain ⟨field, ht⟩ := IotmpMessage.mem_loggedTexts.1 ht
    obtain ⟨s, hs, rfl⟩ := own_frame_texts m fields hbody field t ht
    exact Utf8.valid_cStr (hlogs hon hsent s hs)

/-- exactly one frame is queued, unless the logger throws -/
theorem sendMessage_queue_iff (s : WritePath) (m : Outgoing) :
    (s.sendMessage m).writeQueue = s.writeQueue ++ [m.encoded] ↔ m.message.Logs s.logging := by
  unfold WritePath.sendMessage
  by_cases h : m.message.Logs s.logging
  · rw [if_pos h]
    refine iff_of_true ?_ h
    dsimp only
    split_ifs <;> rfl
  · rw [if_neg h]
    exact iff_of_false (fun heq => by simpa using congrArg List.length heq) h

/-- **The message loop survives a message** exactly when it is stream data, nothing is logged, or every string and key
of PARAMETERS, of PAYLOAD and of an array RESOURCE, at any depth, is UTF-8: then `read_message` on a frame of it does
not throw, and `send_message` queues one frame. -/
theorem survives_iff (s : WritePath) (m : Outgoing) (frame : Frame) (input rest : Bytes) (hframe : m.Framed frame)
    (hread : readFrame input = some (frame, rest)) :
    ((readMessage s.logging input).1 ≠ .throws ∧ (s.sendMessage m).writeQueue = s.writeQueue ++ [m.encoded]) ↔
      m.message.TextsLog s.logging := by
  rw [sendMessage_queue_iff, ← textsLog_iff]
  refine and_iff_right_of_imp fun hlogs => ?_
  rw [readMessage_frame s.logging hread, if_pos (hframe.logs (readFrame_body_le hread) hlogs)]
  simp

/-- the type and the parameters, with a string two levels deep -/
def runWith (text : Bytes) : Outgoing where
  message :=
    ({ messageType := .run } : IotmpMessage).setField Field.PARAMETERS (.object [([0x6B], .array [.string text])])
  fields := [(Field.PARAMETERS, .object [([0x6B], .array [.string text])])]
  perm := List.Perm.refl _

theorem survives_nested :
    (readMessage true (runWith [0xC3, 0xB1]).encoded).1 ≠ .throws ∧
      (({} : WritePath).sendMessage (runWith [0xC3, 0xB1])).writeQueue = [] ++ [(runWith [0xC3, 0xB1]).encoded] := by
  refine (survives_iff {} (runWith [0xC3, 0xB1]) (runWith [0xC3, 0xB1]).frame (runWith [0xC3, 0xB1]).encoded []
    (.own rfl fun e he => ?_) (by decide)).2 fun _ _ => by decide
  obtain rfl := List.mem_singleton.1 he
  exact ⟨by decide, rfl⟩

/-- **Bytes that are not UTF-8 break both**: `read_message` throws on the frame, and nothing is queued. -/
theorem unprintable_breaks_both :
    (runWith [0xFF]).frame.message = (runWith [0xFF]).message ∧
      readFrame (runWith [0xFF]).encoded = some ((runWith [0xFF]).frame, []) ∧
      (readMessage true (runWith [0xFF]).encoded).1 = .throws ∧
      (({} : WritePath).sendMessage (runWith [0xFF])).writeQueue = [] :=
  ⟨rfl, by decide, rfl, rfl⟩

end Iotmp
