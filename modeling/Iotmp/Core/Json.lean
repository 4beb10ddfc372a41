/-
JSON values as the client holds them (`json_t`, an `nlohmann::json`).

- `Json`: the nine value types and `discarded`. Integers keep the signed or unsigned 64-bit type they were stored with;
  a floating-point number is its IEEE 754 bits; strings, keys and binaries are byte strings; the members of an object
  are an ordered association list, as the `std::map` underneath keeps them.
- `Json.every p`: `p` holds at every node, at any depth. The predicates on whole values are `every` of a predicate on
  one node (`NulFree`, `Portable`, `WellFormed`).
- `Json.norm`: a non-negative signed integer as the unsigned integer of the same value. Two values are equal up to the
  type their integers are stored with iff their norms are equal (`Json.Same`).
- `asInt64`, `asFloat`, `widen`: the conversions the codec applies to a floating-point number. `getUInt16`, `getUInt32`:
  a number read as a stream id or an interval. An out-of-range cast gives the least signed integer of the register the
  conversion goes through, as on x86-64.
-/
import Mathlib.Tactic
import Iotmp.Lib.SortedMap

namespace Iotmp

abbrev Bytes := List UInt8

instance linearOrderUInt8 : LinearOrder UInt8 where
  le_refl := UInt8.le_refl
  le_trans _ _ _ := UInt8.le_trans
  lt_iff_le_not_ge a b := by rw [UInt8.lt_iff_toNat_lt, UInt8.le_iff_toNat_le, UInt8.le_iff_toNat_le]; omega
  le_antisymm _ _ := UInt8.le_antisymm
  le_total := UInt8.le_total
  toDecidableLE := inferInstance
  toDecidableEq := inferInstance
  toDecidableLT := inferInstance
  compare_eq_compareOfLessAndEq _ _ := rfl

/-- an `nlohmann::json` value -/
inductive Json where
  | null
  | boolean (b : Bool)
  | numberInteger (v : Int64)
  | numberUnsigned (v : UInt64)
  | numberFloat (bits : UInt64)
  | string (s : Bytes)
  | binary (data : Bytes) (subtype : Option UInt64)
  | array (elements : List Json)
  | object (members : List (Bytes × Json))
  | discarded

namespace Json

/-- structural induction, with the hypothesis for every element and every member value -/
@[elab_as_elim]
theorem ind {P : Json → Prop} (null : P .null) (boolean : ∀ b, P (.boolean b))
    (numberInteger : ∀ v, P (.numberInteger v)) (numberUnsigned : ∀ v, P (.numberUnsigned v))
    (numberFloat : ∀ bits, P (.numberFloat bits)) (string : ∀ s, P (.string s))
    (binary : ∀ data subtype, P (.binary data subtype)) (array : ∀ es, (∀ e ∈ es, P e) → P (.array es))
    (object : ∀ ms, (∀ m ∈ ms, P m.2) → P (.object ms)) (discarded : P .discarded) (v : Json) : P v :=
  @Json.rec P (fun es => ∀ e ∈ es, P e) (fun ms => ∀ m ∈ ms, P m.2) (fun m => P m.2) null boolean numberInteger
    numberUnsigned numberFloat string binary array object discarded (fun _ h => absurd h List.not_mem_nil)
    (fun _ _ he hes => List.forall_mem_cons.2 ⟨he, hes⟩) (fun _ h => absurd h List.not_mem_nil)
    (fun _ _ hm hms => List.forall_mem_cons.2 ⟨hm, hms⟩) (fun _ _ h => h) v

/-! ## Predicates at every node -/

mutual

/-- `p` holds at every node -/
def every (p : Json → Bool) : Json → Bool
  | .array es => p (.array es) && everyElement p es
  | .object ms => p (.object ms) && everyMember p ms
  | v => p v

def everyElement (p : Json → Bool) : List Json → Bool
  | [] => true
  | e :: es => every p e && everyElement p es

def everyMember (p : Json → Bool) : List (Bytes × Json) → Bool
  | [] => true
  | (_, v) :: ms => every p v && everyMember p ms

end

theorem everyElement_iff (p : Json → Bool) (es : List Json) :
    everyElement p es = true ↔ ∀ e ∈ es, every p e = true := by
  induction es with
  | nil => simp [everyElement]
  | cons e es ih => simp [everyElement, ih]

theorem everyMember_iff (p : Json → Bool) (ms : List (Bytes × Json)) :
    everyMember p ms = true ↔ ∀ m ∈ ms, every p m.2 = true := by
  induction ms with
  | nil => simp [everyMember]
  | cons m ms ih => obtain ⟨k, v⟩ := m; simp [everyMember, ih]

theorem every_array (p : Json → Bool) (es : List Json) :
    every p (.array es) = true ↔ p (.array es) = true ∧ ∀ e ∈ es, every p e = true := by
  rw [every, Bool.and_eq_true, everyElement_iff]

theorem every_object (p : Json → Bool) (ms : List (Bytes × Json)) :
    every p (.object ms) = true ↔ p (.object ms) = true ∧ ∀ m ∈ ms, every p m.2 = true := by
  rw [every, Bool.and_eq_true, everyMember_iff]

/-- the longest string, key or binary the decoder reads -/
def UINT32_MAX : ℕ := 2 ^ 32 - 1

def nulFreeString (s : Bytes) : Bool := s.all fun b => b ≠ 0

def nulFreeNode : Json → Bool
  | .string s => nulFreeString s
  | .object ms => ms.all fun m => nulFreeString m.1
  | _ => true

/-- no string and no key holds a NUL byte -/
def NulFree (v : Json) : Prop := v.every nulFreeNode = true

instance (v : Json) : Decidable (NulFree v) := inferInstanceAs (Decidable (_ = true))

def wellFormedNode : Json → Bool
  | .array es => es.length < 2 ^ 64
  | .object ms => ms.length < 2 ^ 64 && decide (SortedMap.Ordered ms)
  | _ => true

/-- what holds of every value in memory: sizes are `size_t`, and the keys of an object are distinct and in order -/
def WellFormed (v : Json) : Prop := v.every wellFormedNode = true

instance (v : Json) : Decidable (WellFormed v) := inferInstanceAs (Decidable (_ = true))

def portableNode : Json → Bool
  | .numberFloat _ => false
  | .discarded => false
  | .string s => s.length ≤ UINT32_MAX
  | .binary data subtype => subtype.isNone && data.length ≤ UINT32_MAX
  | .object ms => ms.all fun m => m.1.length ≤ UINT32_MAX
  | _ => true

/-- no floating-point leaf, no binary subtype, no string, key or binary longer than the decoder reads -/
def Portable (v : Json) : Prop := v.every portableNode = true

instance (v : Json) : Decidable (Portable v) := inferInstanceAs (Decidable (_ = true))

/-! ## Equality up to the stored integer type -/

mutual

def norm : Json → Json
  | .numberInteger v => if 0 ≤ v then .numberUnsigned v.toUInt64 else .numberInteger v
  | .array es => .array (normElements es)
  | .object ms => .object (normMembers ms)
  | v => v

def normElements : List Json → List Json
  | [] => []
  | e :: es => norm e :: normElements es

def normMembers : List (Bytes × Json) → List (Bytes × Json)
  | [] => []
  | (k, v) :: ms => (k, norm v) :: normMembers ms

end

theorem normElements_eq (es : List Json) : normElements es = es.map norm := by
  induction es with
  | nil => rfl
  | cons e es ih => rw [normElements, ih, List.map_cons]

theorem normMembers_eq (ms : List (Bytes × Json)) : normMembers ms = ms.map fun m => (m.1, norm m.2) := by
  induction ms with
  | nil => rfl
  | cons m ms ih => obtain ⟨k, v⟩ := m; rw [normMembers, ih, List.map_cons]

/-- equal, integers compared numerically -/
def Same (a b : Json) : Prop := norm a = norm b

/-- the integer a number denotes -/
def intValue : Json → Option ℤ
  | .numberInteger v => some v.toInt
  | .numberUnsigned v => some v.toNat
  | _ => none

/-! ## Floating-point numbers -/

/-- a finite double as (negative, m, e) with value ±m·2^e -/
def dyadic (bits : UInt64) : Option (Bool × ℕ × ℤ) :=
  let n := bits.toNat
  let exponent := (n >>> 52) % 2048
  let fraction := n % 2 ^ 52
  if exponent = 2047 then none
  else if exponent = 0 then some (decide (2 ^ 63 ≤ n), fraction, -1074)
  else some (decide (2 ^ 63 ≤ n), fraction + 2 ^ 52, (exponent : ℤ) - 1075)

/-- `m·2^e` when it is an integer -/
def integral (m : ℕ) (e : ℤ) : Option ℕ :=
  if 0 ≤ e then some (m * 2 ^ e.toNat) else if m % 2 ^ (-e).toNat = 0 then some (m / 2 ^ (-e).toNat) else none

/-- `static_cast<int64_t>(d)`, when converting it back gives `d` again -/
def asInt64 (bits : UInt64) : Option Int64 :=
  match dyadic bits with
  | none => none
  | some (negative, m, e) =>
    match integral m e with
    | none => none
    | some n =>
      if negative then if n ≤ 2 ^ 63 then some (Int64.ofInt (-n)) else none
      else if n < 2 ^ 63 then some (Int64.ofInt n) else none

/-- `static_cast<float>(d)`, when it compares equal to `d` -/
def asFloat (bits : UInt64) : Option UInt32 :=
  let n := bits.toNat
  let sign := (n >>> 63) <<< 31
  let exponent := (n >>> 52) % 2048
  let fraction := n % 2 ^ 52
  if exponent = 2047 then if fraction = 0 then some (UInt32.ofNat (sign + 255 <<< 23)) else none
  else if exponent = 0 then if fraction = 0 then some (UInt32.ofNat sign) else none
  else if 897 ≤ exponent ∧ exponent ≤ 1150 then
    if fraction % 2 ^ 29 = 0 then some (UInt32.ofNat (sign + (exponent - 896) <<< 23 + fraction >>> 29)) else none
  else if 874 ≤ exponent ∧ exponent ≤ 896 then
    let shift := 926 - exponent
    if (fraction + 2 ^ 52) % 2 ^ shift = 0 then some (UInt32.ofNat (sign + (fraction + 2 ^ 52) >>> shift)) else none
  else none

/-- a double converted to a signed integer of `width` bits, truncating towards zero -/
def truncate (width : ℕ) (bits : UInt64) : ℤ :=
  match dyadic bits with
  | none => -2 ^ (width - 1)
  | some (negative, m, e) =>
    let n : ℕ := if 0 ≤ e then m * 2 ^ e.toNat else m / 2 ^ (-e).toNat
    if negative then if n ≤ 2 ^ (width - 1) then -n else -2 ^ (width - 1)
    else if n < 2 ^ (width - 1) then n else -2 ^ (width - 1)

/-- `get<uint16_t>()` of a number -/
def getUInt16 : Json → Option UInt16
  | .numberInteger v => some v.toUInt64.toUInt16
  | .numberUnsigned v => some v.toUInt16
  | .numberFloat bits => some (UInt16.ofInt (truncate 32 bits))
  | _ => none

/-- `get<unsigned int>()` of a number -/
def getUInt32 : Json → Option UInt32
  | .numberInteger v => some v.toUInt64.toUInt32
  | .numberUnsigned v => some v.toUInt32
  | .numberFloat bits => some (UInt32.ofInt (truncate 64 bits))
  | _ => none

/-- `get<size_t>()` of a number -/
def getSize : Json → Option UInt64
  | .numberInteger v => some v.toUInt64
  | .numberUnsigned v => some v
  | .numberFloat bits => some (UInt64.ofInt (truncate 65 bits))
  | _ => none

/-- a float stored as a double -/
def widen (bits : UInt32) : UInt64 :=
  let n := bits.toNat
  let sign := (n >>> 31) <<< 63
  let exponent := (n >>> 23) % 256
  let fraction := n % 2 ^ 23
  if exponent = 255 then
    UInt64.ofNat (sign + 2047 <<< 52 + if fraction = 0 then 0 else (fraction <<< 29) ||| 2 ^ 51)
  else if exponent = 0 then
    if fraction = 0 then UInt64.ofNat sign
    else
      let k := fraction.log2
      UInt64.ofNat (sign + (k + 874) <<< 52 + (fraction - 2 ^ k) <<< (52 - k))
  else UInt64.ofNat (sign + (exponent + 896) <<< 52 + fraction <<< 29)

end Json

end Iotmp
