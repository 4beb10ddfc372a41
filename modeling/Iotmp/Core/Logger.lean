/-
The message logger (`iotmp_logger.hpp`), as far as it can fail.

`dump` prints fields with `nlohmann::json::dump()`, which throws on a string or a key that is not valid UTF-8. A string
resource is printed raw, and a binary payload only by its size.
-/
import Mathlib.Tactic
import Iotmp.Core.Message

namespace Iotmp

/-! ## UTF-8 -/

namespace Utf8

/-- the ranges of the bytes that follow a first byte; `none` for a byte that starts nothing -/
def continuations (b : UInt8) : Option (List (UInt8 × UInt8)) :=
  if b < 0x80 then some []
  else if b < 0xC2 then none
  else if b < 0xE0 then some [(0x80, 0xBF)]
  else if b = 0xE0 then some [(0xA0, 0xBF), (0x80, 0xBF)]
  else if b = 0xED then some [(0x80, 0x9F), (0x80, 0xBF)]
  else if b < 0xF0 then some [(0x80, 0xBF), (0x80, 0xBF)]
  else if b = 0xF0 then some [(0x90, 0xBF), (0x80, 0xBF), (0x80, 0xBF)]
  else if b < 0xF4 then some [(0x80, 0xBF), (0x80, 0xBF), (0x80, 0xBF)]
  else if b = 0xF4 then some [(0x80, 0x8F), (0x80, 0xBF), (0x80, 0xBF)]
  else none

/-- the serializer's state is the list of ranges still expected -/
def step : List (UInt8 × UInt8) → UInt8 → Option (List (UInt8 × UInt8))
  | [], b => continuations b
  | (lo, hi) :: expected, b => if lo ≤ b ∧ b ≤ hi then some expected else none

def valid (s : Bytes) : Bool := s.foldlM step [] == some []

example : valid [0x61, 0xC3, 0xB1, 0xF0, 0x9F, 0x98, 0x80] = true ∧ valid [0xC3] = false ∧
    valid [0xED, 0xA0, 0x80] = false := by
  decide

end Utf8

/-! ## What dump() accepts -/

namespace Json

def printableNode : Json → Bool
  | .string s => Utf8.valid s
  | .object ms => ms.all fun m => Utf8.valid m.1
  | _ => true

/-- `dump()` returns -/
def Printable (v : Json) : Prop := v.every printableNode = true

instance (v : Json) : Decidable (Printable v) := inferInstanceAs (Decidable (_ = true))

end Json

namespace IotmpMessage

/-- what `dump` prints of the resource field -/
def dumpedResource : Json → Json
  | .array es => .array es
  | _ => .null

/-- what it prints of the payload -/
def dumpedPayload : Json → Json
  | .binary _ _ => .null
  | v => v

/-- `message_logger::dump` returns -/
def Dumpable (m : IotmpMessage) : Prop :=
  (dumpedResource (m.get Field.RESOURCE)).Printable ∧ (m.get Field.PARAMETERS).Printable ∧
    (dumpedPayload (m.get Field.PAYLOAD)).Printable

instance (m : IotmpMessage) : Decidable m.Dumpable := inferInstanceAs (Decidable (_ ∧ _ ∧ _))

/-- the logging statement of `read_message`, `send_message` and `write_message` returns: stream data is not logged -/
def Logs (logging : Bool) (m : IotmpMessage) : Prop :=
  logging = true → m.messageType ≠ .streamData → m.Dumpable

instance (logging : Bool) (m : IotmpMessage) : Decidable (m.Logs logging) :=
  inferInstanceAs (Decidable (_ → _ → _))

/-- the logger only looks at the resource, the parameters and the payload -/
theorem dumpable_congr {m m' : IotmpMessage} (hr : m'.get Field.RESOURCE = m.get Field.RESOURCE)
    (hp : m'.get Field.PARAMETERS = m.get Field.PARAMETERS) (hd : m'.get Field.PAYLOAD = m.get Field.PAYLOAD) :
    m'.Dumpable ↔ m.Dumpable := by
  simp only [Dumpable, hr, hp, hd]

theorem dumpable_setStreamId (m : IotmpMessage) (streamId : UInt16) : (m.setStreamId streamId).Dumpable ↔ m.Dumpable :=
  dumpable_congr (get_setField _ _ _ _) (get_setField _ _ _ _) (get_setField _ _ _ _)

theorem dumpable_withStreamId (streamId : UInt16) (type : MessageType) : (withStreamId streamId type).Dumpable :=
  (dumpable_setStreamId _ _).2 ⟨rfl, rfl, rfl⟩

/-- a message that is logged at all is logged iff it can be dumped -/
theorem logs_iff {m : IotmpMessage} (logging : Bool) (h : m.messageType ≠ .streamData) :
    m.Logs logging ↔ (logging = true → m.Dumpable) := ⟨fun hm hl => hm hl h, fun hm hl _ => hm hl⟩

end IotmpMessage

end Iotmp
