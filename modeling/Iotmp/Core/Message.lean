/-
Messages (`iotmp_message.hpp`): a type and a map from one-byte field numbers to JSON values.

The fields are an `unordered_map` in the source. Here they are a sorted map, and whatever iterates them takes the order
as an argument.
-/
import Mathlib.Tactic
import Iotmp.Core.Json

namespace Iotmp

instance linearOrderUInt16 : LinearOrder UInt16 where
  le_refl := UInt16.le_refl
  le_trans _ _ _ := UInt16.le_trans
  lt_iff_le_not_ge a b := by rw [UInt16.lt_iff_toNat_lt, UInt16.le_iff_toNat_le, UInt16.le_iff_toNat_le]; omega
  le_antisymm _ _ := UInt16.le_antisymm
  le_total := UInt16.le_total
  toDecidableLE := inferInstance
  toDecidableEq := inferInstance
  toDecidableLT := inferInstance
  compare_eq_compareOfLessAndEq _ _ := rfl

/-- `message::type`; a type byte outside the enumeration keeps its code -/
inductive MessageType where
  | reserved
  | ok
  | error
  | connect
  | disconnect
  | keepAlive
  | run
  | describe
  | startStream
  | stopStream
  | streamData
  | unknown (code : UInt8)
deriving DecidableEq, Repr

namespace MessageType

def code : MessageType → UInt8
  | reserved => 0x00
  | ok => 0x01
  | error => 0x02
  | connect => 0x03
  | disconnect => 0x04
  | keepAlive => 0x05
  | run => 0x06
  | describe => 0x07
  | startStream => 0x08
  | stopStream => 0x09
  | streamData => 0x0a
  | unknown code => code

/-- `static_cast<message::type>(byte)` -/
def ofCode : UInt8 → MessageType
  | 0x00 => reserved
  | 0x01 => ok
  | 0x02 => error
  | 0x03 => connect
  | 0x04 => disconnect
  | 0x05 => keepAlive
  | 0x06 => run
  | 0x07 => describe
  | 0x08 => startStream
  | 0x09 => stopStream
  | 0x0a => streamData
  | c => unknown c

end MessageType

/-! ## Fields -/

namespace Field

def STREAM_ID : UInt8 := 0x01

def PARAMETERS : UInt8 := 0x02

def PAYLOAD : UInt8 := 0x03

def RESOURCE : UInt8 := 0x04

/-- the field numbers the protocol gives a meaning -/
def protocol : List UInt8 := [STREAM_ID, PARAMETERS, PAYLOAD, RESOURCE]

end Field

structure IotmpMessage where
  messageType : MessageType
  fields : SortedMap UInt8 Json := SortedMap.empty

namespace IotmpMessage

def hasField (m : IotmpMessage) (field : UInt8) : Bool := (m.fields.get field).isSome

/-- the value under `m[field]`; reading a missing field creates it as null -/
def get (m : IotmpMessage) (field : UInt8) : Json := (m.fields.get field).getD .null

def setField (m : IotmpMessage) (field : UInt8) (value : Json) : IotmpMessage :=
  { m with fields := m.fields.set field value }

def setMessageType (m : IotmpMessage) (type : MessageType) : IotmpMessage := { m with messageType := type }

def getStreamId (m : IotmpMessage) : UInt16 := ((m.fields.get Field.STREAM_ID).bind Json.getUInt16).getD 0

def setStreamId (m : IotmpMessage) (streamId : UInt16) : IotmpMessage :=
  m.setField Field.STREAM_ID (.numberUnsigned streamId.toUInt64)

/-- `iotmp_message(stream_id, type)` -/
def withStreamId (streamId : UInt16) (type : MessageType) : IotmpMessage :=
  setStreamId { messageType := type } streamId

@[simp] theorem messageType_setField (m : IotmpMessage) (field : UInt8) (value : Json) :
    (m.setField field value).messageType = m.messageType := rfl

theorem get_setField (m : IotmpMessage) (field field' : UInt8) (value : Json) :
    (m.setField field value).get field' = if field' = field then value else m.get field' := by
  simp only [get, setField, SortedMap.get_set]
  split_ifs <;> rfl

@[simp] theorem get_setMessageType (m : IotmpMessage) (type : MessageType) (field : UInt8) :
    (m.setMessageType type).get field = m.get field := rfl

@[simp] theorem messageType_setMessageType (m : IotmpMessage) (type : MessageType) :
    (m.setMessageType type).messageType = type := rfl

/-- a message that has the type already is not changed -/
theorem setMessageType_of_messageType {m : IotmpMessage} {type : MessageType} (h : m.messageType = type) :
    m.setMessageType type = m := by
  rw [← h]
  rfl

@[simp] theorem fields_setMessageType (m : IotmpMessage) (type : MessageType) :
    (m.setMessageType type).fields = m.fields := rfl

theorem getStreamId_setField_ne (m : IotmpMessage) {field : UInt8} (value : Json) (h : field ≠ Field.STREAM_ID) :
    (m.setField field value).getStreamId = m.getStreamId := by
  simp only [getStreamId, setField, SortedMap.get_set_ne m.fields value h.symm]

@[simp] theorem getStreamId_setStreamId (m : IotmpMessage) (streamId : UInt16) :
    (m.setStreamId streamId).getStreamId = streamId := by
  simp [getStreamId, setStreamId, setField, Json.getUInt16]

@[simp] theorem messageType_setStreamId (m : IotmpMessage) (streamId : UInt16) :
    (m.setStreamId streamId).messageType = m.messageType := rfl

@[simp] theorem messageType_withStreamId (streamId : UInt16) (type : MessageType) :
    (withStreamId streamId type).messageType = type := rfl

@[simp] theorem getStreamId_withStreamId (streamId : UInt16) (type : MessageType) :
    (withStreamId streamId type).getStreamId = streamId := getStreamId_setStreamId _ _

@[simp] theorem getStreamId_setMessageType (m : IotmpMessage) (type : MessageType) :
    (m.setMessageType type).getStreamId = m.getStreamId := rfl

end IotmpMessage

end Iotmp
