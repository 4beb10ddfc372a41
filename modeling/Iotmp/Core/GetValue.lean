/-
Parameters out of a JSON value (`iotmp_resource.hpp`: `get_value`).

`get_value(json, path, default)` cuts the path at its dots, looks up one member after the other, and reads what it finds
as the type of the default. Numbers go through `get<T>()`, a `static_cast` that nothing checks.

- `locate`: the descent, on raw offsets. `Descends`: what it is to lead to, segment by segment; `locate_iff`.
- `ArithmeticType`, `getAs`: the types, and what `get<T>()` makes of a number. What the language leaves undefined, a
  floating-point number out of the range of an integer type, is a parameter `outOfRange`.
- `ExactOrDefault`: the value found, unchanged, or the default.
- `Coincides`: the number that the type does not have is cast to the default. `getValue_iff`: when a lookup is exact or
  default.
- `readers_agree`: the readers that the model uses elsewhere.
Counterexample: `port_reduced`.
-/
import Mathlib.Tactic
import Iotmp.Core.Json
import Iotmp.Lib.BinaryFloat

namespace Iotmp

open BinaryFloat (Format Number magnitude)

/-! ## The descent -/

/-- '.' -/
def pathSeparator : UInt8 := 0x2E

namespace Json

/-- `current->find(segment)`; what is no object has no members -/
def find (segment : Bytes) : Json → Option Json
  | .object ms => SortedMap.find segment ms
  | _ => none

/-- `path.find('.', start)` -/
def findDot (path : Bytes) (start : ℕ) : Option ℕ :=
  ((path.drop start).findIdx? fun c => c == pathSeparator).map (start + ·)

/-- `std::string_view(path.data() + start, count)` -/
def slice (path : Bytes) (start count : ℕ) : Bytes := (path.drop start).take count

/-- the segments from `start` on; every round but the last passes a dot -/
def locateLoop (path : Bytes) : ℕ → ℕ → Json → Option Json
  | 0, _, _ => none
  | rounds + 1, start, current =>
    match findDot path start with
    | some finish =>
      match current.find (slice path start (finish - start)) with
      | none => none
      | some found => locateLoop path rounds (finish + 1) found
    | none => current.find (slice path start (path.length - start))

/-- the value at a path, an empty path being the value itself -/
def locate (json : Json) (path : Bytes) : Option Json :=
  if path = [] then some json else locateLoop path (path.length + 1) 0 json

/-- the segments between the dots -/
def segments (path : Bytes) : List Bytes := if path = [] then [] else path.splitOn pathSeparator

/-- the segments lead through objects, one member after the other -/
inductive Descends : Json → List Bytes → Json → Prop
  | here (v : Json) : Descends v [] v
  | member {ms : List (Bytes × Json)} {segment : Bytes} {v leaf : Json} {more : List Bytes}
      (found : SortedMap.find segment ms = some v) (below : Descends v more leaf) :
      Descends (.object ms) (segment :: more) leaf

theorem descends_nil_iff {v leaf : Json} : Descends v [] leaf ↔ v = leaf := by
  constructor
  · intro h
    cases h with
    | here => rfl
  · rintro rfl
    exact .here v

theorem descends_cons_iff {v leaf : Json} {segment : Bytes} {more : List Bytes} :
    Descends v (segment :: more) leaf ↔ ∃ found, v.find segment = some found ∧ Descends found more leaf := by
  constructor
  · intro h
    cases h with
    | member found below => exact ⟨_, found, below⟩
  · intro h
    obtain ⟨found, hfind, below⟩ := h
    cases v with
    | object ms => exact .member hfind below
    | _ => exact absurd hfind (by simp [find])

theorem findDot_none {path : Bytes} {start : ℕ} (h : findDot path start = none) :
    (path.drop start).splitOn pathSeparator = [path.drop start] := by
  rw [findDot, Option.map_eq_none_iff, List.findIdx?_eq_none_iff] at h
  exact List.splitOn_eq_singleton_of_beq_eq_false h

theorem splitOn_of_findIdx? {s : Bytes} {i : ℕ} (h : (s.findIdx? fun c => c == pathSeparator) = some i) :
    i < s.length ∧ s.splitOn pathSeparator = s.take i :: (s.drop (i + 1)).splitOn pathSeparator := by
  obtain ⟨hlt, hdot, hbefore⟩ := List.findIdx?_eq_some_iff_getElem.1 h
  have hclean : ∀ c ∈ s.take i, (c == pathSeparator) = false := by
    intro c hc
    obtain ⟨j, hj, rfl⟩ := List.mem_iff_getElem.1 hc
    rw [List.length_take] at hj
    rw [List.getElem_take]
    exact Bool.eq_false_iff.2 (hbefore j (by omega))
  have hsplit := List.splitOn_append_cons_of_forall_mem_beq_eq_false hclean s[i] hdot (s.drop (i + 1))
  rw [← List.drop_eq_getElem_cons hlt, List.take_append_drop] at hsplit
  exact ⟨hlt, hsplit⟩

theorem findDot_some {path : Bytes} {start finish : ℕ} (h : findDot path start = some finish) :
    start ≤ finish ∧ finish < path.length ∧
      (path.drop start).splitOn pathSeparator =
        slice path start (finish - start) :: (path.drop (finish + 1)).splitOn pathSeparator := by
  obtain ⟨i, hi, rfl⟩ := Option.map_eq_some_iff.1 h
  obtain ⟨hlt, hsplit⟩ := splitOn_of_findIdx? hi
  rw [List.length_drop] at hlt
  rw [List.drop_drop] at hsplit
  refine ⟨by omega, by omega, ?_⟩
  rw [hsplit, slice, Nat.add_sub_cancel_left]
  rfl

theorem locateLoop_iff {path : Bytes} {rounds start : ℕ} (hstart : start ≤ path.length)
    (hrounds : path.length - start < rounds) (v leaf : Json) :
    locateLoop path rounds start v = some leaf ↔ Descends v ((path.drop start).splitOn pathSeparator) leaf := by
  induction rounds generalizing start v with
  | zero => omega
  | succ rounds ih =>
    rw [locateLoop]
    rcases hdot : findDot path start with _ | finish
    · have hall : slice path start (path.length - start) = path.drop start := by
        rw [slice, List.take_of_length_le (by rw [List.length_drop])]
      simp only [findDot_none hdot, hall, descends_cons_iff, descends_nil_iff, exists_eq_right]
    · obtain ⟨hle, hlt, hsegments⟩ := findDot_some hdot
      rw [hsegments, descends_cons_iff]
      rcases hfind : v.find (slice path start (finish - start)) with _ | found
      · simp [hfind]
      · have hnext := ih (Nat.succ_le_of_lt hlt) (by omega) found
        simp [hfind, hnext]

/-- **The descent by offsets is the descent by segments.** -/
theorem locate_iff (json : Json) (path : Bytes) (leaf : Json) :
    json.locate path = some leaf ↔ Descends json (segments path) leaf := by
  rw [locate, segments]
  split_ifs with hpath
  · rw [descends_nil_iff, Option.some_inj]
  · rw [locateLoop_iff (Nat.zero_le _) (by omega), List.drop_zero]

end Json

/-! ## Arithmetic types -/

inductive ArithmeticType where
  | boolean
  /-- an integer type of so many bits -/
  | integral (signed : Bool) (width : ℕ)
  | floating (format : Format)

namespace ArithmeticType

def Value : ArithmeticType → Type
  | boolean => Bool
  | integral _ width => BitVec width
  | floating format => BinaryFloat.Value format

def uint16 : ArithmeticType := integral false 16

def uint32 : ArithmeticType := integral false 32

/-- `size_t` -/
def size : ArithmeticType := integral false 64

end ArithmeticType

/-- what a leaf or a value of an arithmetic type stands for -/
inductive Content where
  | truth (b : Bool)
  | number (n : Number)

theorem code_lt (bits : UInt64) :
    bits.toNat % 2 ^ 63 < 2 ^ (Format.binary64.exponentBits + Format.binary64.fractionBits) :=
  Nat.mod_lt _ (by norm_num)

/-- a `double` by its bits -/
def doubleValue (bits : UInt64) : BinaryFloat.Value .binary64 :=
  ⟨decide (2 ^ 63 ≤ bits.toNat), bits.toNat % 2 ^ 63, code_lt bits⟩

def Json.content? : Json → Option Content
  | .boolean b => some (.truth b)
  | .numberInteger v => some (.number (.finite v.toInt))
  | .numberUnsigned v => some (.number (.finite v.toNat))
  | .numberFloat bits => some (.number (doubleValue bits).number)
  | _ => none

namespace ArithmeticType

/-- the integer a value of an integer type is -/
def intValue (signed : Bool) {width : ℕ} (x : BitVec width) : ℤ := if signed then x.toInt else x.toNat

def content : (T : ArithmeticType) → T.Value → Content
  | boolean, b => .truth b
  | integral signed _, x => .number (.finite (intValue signed x))
  | floating _, v => .number (BinaryFloat.Value.number v)

/-- `T` has this value -/
def Represents (T : ArithmeticType) (c : Content) : Prop := ∃ t : T.Value, T.content t = c

/-- the range of an integer type -/
def InRange (signed : Bool) (width : ℕ) (n : ℤ) : Prop :=
  if signed then -2 ^ width ≤ 2 * n ∧ 2 * n < 2 ^ width else 0 ≤ n ∧ n < 2 ^ width

instance instDecidableInRange (signed : Bool) (width : ℕ) (n : ℤ) : Decidable (InRange signed width n) :=
  inferInstanceAs (Decidable (if signed then _ else _))

end ArithmeticType

/-! ## `get<T>()` -/

/-- a number without its fraction -/
def truncateNumber (q : ℚ) : ℤ := if q < 0 then -⌊-q⌋ else ⌊q⌋

section

-- what a `double` becomes as an integer of this type where the language does not say
variable (outOfRange : Bool → (width : ℕ) → UInt64 → BitVec width)

open ArithmeticType

/-- `static_cast` of a `double` to an integer type -/
def integerOfDouble (signed : Bool) (width : ℕ) (bits : UInt64) : BitVec width :=
  match (doubleValue bits).number with
  | .finite q =>
    if InRange signed width (truncateNumber q) then BitVec.ofInt width (truncateNumber q)
    else outOfRange signed width bits
  | _ => outOfRange signed width bits

/-- `get<T>()` of a leaf that the branch of `T` takes: a boolean for `bool`, a number for the others -/
def getAs : (T : ArithmeticType) → Json → Option T.Value
  | .boolean, .boolean b => some b
  | .integral _ width, .numberInteger v => some (BitVec.ofInt width v.toInt)
  | .integral _ width, .numberUnsigned v => some (BitVec.ofInt width v.toNat)
  | .integral signed width, .numberFloat bits => some (integerOfDouble outOfRange signed width bits)
  | .floating format, .numberInteger v => some (BinaryFloat.Value.ofInt format v.toInt)
  | .floating format, .numberUnsigned v => some (BinaryFloat.Value.ofInt format v.toNat)
  | .floating format, .numberFloat bits => some ((doubleValue bits).convert format)
  | _, _ => none

/-- `get_value` for an arithmetic type -/
def getValue (T : ArithmeticType) (json : Json) (path : Bytes) (default : T.Value) : T.Value :=
  match json.locate path with
  | none => default
  | some leaf => (getAs outOfRange T leaf).getD default

/-- the leaf is one that the branch of the type takes: `is_boolean()` for `bool`, `is_number()` for the others -/
def ArithmeticType.Takes : ArithmeticType → Json → Prop
  | .boolean, .boolean _ => True
  | .integral _ _, .numberInteger _ | .floating _, .numberInteger _ => True
  | .integral _ _, .numberUnsigned _ | .floating _, .numberUnsigned _ => True
  | .integral _ _, .numberFloat _ | .floating _, .numberFloat _ => True
  | _, _ => False

/-- the default differs from an integer by a multiple of `2 ^ width`, is the integer part of a floating-point number or
what the platform makes of one out of range, is the nearest value of a floating-point type -/
def Coincides : (T : ArithmeticType) → Json → T.Value → Prop
  | .integral signed width, .numberInteger v, default => (2 ^ width : ℤ) ∣ v.toInt - intValue signed default
  | .integral signed width, .numberUnsigned v, default => (2 ^ width : ℤ) ∣ v.toNat - intValue signed default
  | .integral signed width, .numberFloat bits, default =>
    match (doubleValue bits).number with
    | .finite q =>
      if InRange signed width (truncateNumber q) then intValue signed default = truncateNumber q
      else default = outOfRange signed width bits
    | _ => default = outOfRange signed width bits
  | .floating format, .numberInteger v, default => default = BinaryFloat.Value.ofInt format v.toInt
  | .floating format, .numberUnsigned v, default => default = BinaryFloat.Value.ofInt format v.toNat
  | .floating format, .numberFloat bits, default => default = (doubleValue bits).convert format
  | _, _, _ => False

/-! ## What a type has -/

namespace ArithmeticType

theorem intValue_inRange (signed : Bool) {width : ℕ} (x : BitVec width) : InRange signed width (intValue signed x) := by
  cases signed with
  | true => exact ⟨BitVec.le_two_mul_toInt, BitVec.two_mul_toInt_lt⟩
  | false =>
    have hlt : (x.toNat : ℤ) < 2 ^ width := by exact_mod_cast x.isLt
    exact ⟨Int.natCast_nonneg _, hlt⟩

theorem ofInt_intValue (signed : Bool) {width : ℕ} (x : BitVec width) : BitVec.ofInt width (intValue signed x) = x := by
  cases signed with
  | true => exact BitVec.ofInt_toInt
  | false =>
    change BitVec.ofInt width (x.toNat : ℤ) = x
    rw [BitVec.ofInt_natCast, BitVec.ofNat_toNat, BitVec.setWidth_eq]

theorem intValue_ofInt {signed : Bool} {width : ℕ} {n : ℤ} (h : InRange signed width n) :
    intValue signed (BitVec.ofInt width n) = n := by
  cases signed with
  | true =>
    obtain ⟨hlow, hhigh⟩ : -2 ^ width ≤ 2 * n ∧ 2 * n < 2 ^ width := h
    change (BitVec.ofInt width n).toInt = n
    rw [BitVec.toInt_ofInt, Int.bmod_eq_of_le_mul_two]
    · push_cast
      omega
    · push_cast
      omega
  | false =>
    obtain ⟨hlow, hhigh⟩ : 0 ≤ n ∧ n < 2 ^ width := h
    change ((BitVec.ofInt width n).toNat : ℤ) = n
    rw [BitVec.toNat_ofInt, Int.toNat_of_nonneg (Int.emod_nonneg _ (by positivity))]
    push_cast
    exact Int.emod_eq_of_lt hlow hhigh

/-- **An integer type has the integers of its range.** -/
theorem integral_represents_iff {signed : Bool} {width : ℕ} {q : ℚ} :
    (integral signed width).Represents (.number (.finite q)) ↔ ∃ n : ℤ, q = n ∧ InRange signed width n := by
  constructor
  · intro h
    obtain ⟨x, hx⟩ := h
    obtain hx := Number.finite.inj (Content.number.inj hx)
    exact ⟨intValue signed x, hx.symm, intValue_inRange signed x⟩
  · intro h
    obtain ⟨n, rfl, hn⟩ := h
    refine ⟨BitVec.ofInt width n, ?_⟩
    change Content.number (.finite (intValue signed (BitVec.ofInt width n))) = _
    rw [intValue_ofInt hn]

theorem integral_represents_finite {signed : Bool} {width : ℕ} {n : Number}
    (h : (integral signed width).Represents (.number n)) : ∃ q, n = .finite q := by
  obtain ⟨x, hx⟩ := h
  exact ⟨_, (Content.number.inj hx).symm⟩

end ArithmeticType

theorem truncateNumber_intCast (n : ℤ) : truncateNumber n = n := by
  rw [truncateNumber]
  split_ifs
  · rw [← Int.cast_neg, Int.floor_intCast, neg_neg]
  · exact Int.floor_intCast n

/-! ## Exact reads -/

/-- a `double` that is an integer of the type is cast to it -/
theorem integerOfDouble_exact {signed : Bool} {width : ℕ} {bits : UInt64}
    (h : (integral signed width).Represents (.number (doubleValue bits).number)) :
    (integral signed width).content (integerOfDouble outOfRange signed width bits) =
      .number (doubleValue bits).number := by
  obtain ⟨q, hq⟩ := integral_represents_finite h
  rw [hq] at h ⊢
  obtain ⟨n, rfl, hn⟩ := integral_represents_iff.1 h
  have hcast : integerOfDouble outOfRange signed width bits = BitVec.ofInt width n := by
    rw [integerOfDouble, hq]
    simp only [truncateNumber_intCast, if_pos hn]
  rw [hcast]
  change Content.number (.finite (intValue signed (BitVec.ofInt width n))) = _
  rw [intValue_ofInt hn]

theorem integral_exact {signed : Bool} {width : ℕ} {n : ℤ}
    (h : (integral signed width).Represents (.number (.finite n))) :
    (integral signed width).content (BitVec.ofInt width n) = .number (.finite n) := by
  obtain ⟨m, hm, hrange⟩ := integral_represents_iff.1 h
  obtain rfl : n = m := by exact_mod_cast hm
  change Content.number (.finite (intValue signed (BitVec.ofInt width n))) = _
  rw [intValue_ofInt hrange]

theorem floating_exact {format : Format} {n : ℤ} (h : (floating format).Represents (.number (.finite n))) :
    (floating format).content (BinaryFloat.Value.ofInt format n) = .number (.finite n) := by
  obtain ⟨w, hw⟩ := h
  have hnumber : BinaryFloat.Value.number w = .finite n := Content.number.inj hw
  exact congrArg Content.number (BinaryFloat.Value.ofInt_exact hnumber)

/-- **What the type has is read unchanged.** -/
theorem getAs_exact {T : ArithmeticType} {leaf : Json} {t : T.Value} {c : Content}
    (h : getAs outOfRange T leaf = some t) (hc : leaf.content? = some c) (hr : T.Represents c) : T.content t = c := by
  cases T with
  | boolean =>
    cases leaf with
    | boolean b =>
      obtain rfl := Option.some.inj h
      exact Option.some.inj hc
    | _ => exact absurd h (by simp [getAs])
  | integral signed width =>
    cases leaf with
    | numberInteger v =>
      obtain rfl := Option.some.inj h
      obtain rfl := Option.some.inj hc
      exact integral_exact hr
    | numberUnsigned v =>
      obtain rfl := Option.some.inj h
      obtain rfl := Option.some.inj hc
      exact integral_exact (n := v.toNat) hr
    | numberFloat bits =>
      obtain rfl := Option.some.inj h
      obtain rfl := Option.some.inj hc
      exact integerOfDouble_exact outOfRange hr
    | _ => exact absurd h (by simp [getAs])
  | floating format =>
    cases leaf with
    | numberInteger v =>
      obtain rfl := Option.some.inj h
      obtain rfl := Option.some.inj hc
      exact floating_exact hr
    | numberUnsigned v =>
      obtain rfl := Option.some.inj h
      obtain rfl := Option.some.inj hc
      exact floating_exact (n := v.toNat) hr
    | numberFloat bits =>
      obtain rfl := Option.some.inj h
      obtain rfl := Option.some.inj hc
      obtain ⟨w, hw⟩ := hr
      have hnumber : BinaryFloat.Value.number w = (doubleValue bits).number := Content.number.inj hw
      exact congrArg Content.number (BinaryFloat.Value.convert_exact hnumber)
    | _ => exact absurd h (by simp [getAs])

/-- what the type has is of a kind that its branch takes -/
theorem takes_of_represents {T : ArithmeticType} {leaf : Json} {c : Content} (hc : leaf.content? = some c)
    (hr : T.Represents c) : T.Takes leaf := by
  obtain ⟨t, rfl⟩ := hr
  cases T with
  | _ =>
    cases leaf with
    | _ => first | exact trivial | exact absurd hc (by simp [Json.content?, ArithmeticType.content])

theorem isSome_getAs (T : ArithmeticType) (leaf : Json) : (getAs outOfRange T leaf).isSome = true ↔ T.Takes leaf := by
  cases T with
  | _ =>
    cases leaf with
    | _ => first | exact iff_of_true rfl trivial | exact iff_of_false Bool.false_ne_true id

theorem content_of_takes {T : ArithmeticType} {leaf : Json} (h : T.Takes leaf) : ∃ c, leaf.content? = some c := by
  cases leaf with
  | boolean b => exact ⟨_, rfl⟩
  | numberInteger v => exact ⟨_, rfl⟩
  | numberUnsigned v => exact ⟨_, rfl⟩
  | numberFloat bits => exact ⟨_, rfl⟩
  | _ =>
    cases T with
    | _ => exact absurd h id

/-! ## Casts that give the default -/

theorem ofInt_eq_iff (signed : Bool) {width : ℕ} (n : ℤ) (d : BitVec width) :
    BitVec.ofInt width n = d ↔ (2 ^ width : ℤ) ∣ n - intValue signed d := by
  have hpos : ((2 ^ width : ℕ) : ℤ) ≠ 0 := by positivity
  have hn := Int.emod_nonneg n hpos
  have hd := Int.emod_nonneg (intValue signed d) hpos
  calc BitVec.ofInt width n = d
      ↔ BitVec.ofInt width (intValue signed d) = BitVec.ofInt width n := by rw [ofInt_intValue, eq_comm]
    _ ↔ intValue signed d ≡ n [ZMOD (2 ^ width : ℕ)] := by
      rw [← BitVec.toNat_inj, BitVec.toNat_ofInt, BitVec.toNat_ofInt, Int.ModEq]
      omega
    _ ↔ (2 ^ width : ℤ) ∣ n - intValue signed d := by
      rw [Int.modEq_iff_dvd]
      push_cast
      rfl

theorem integerOfDouble_eq_iff {signed : Bool} {width : ℕ} {bits : UInt64} {d : BitVec width} :
    integerOfDouble outOfRange signed width bits = d ↔
      Coincides outOfRange (.integral signed width) (.numberFloat bits) d := by
  simp only [integerOfDouble, Coincides]
  rcases (doubleValue bits).number with q | negative | _
  · simp only
    split_ifs with hrange
    · constructor
      · rintro rfl
        exact intValue_ofInt hrange
      · intro h
        rw [← h, ofInt_intValue]
    · exact eq_comm
  · exact eq_comm
  · exact eq_comm

theorem eq_default_iff {T : ArithmeticType} {leaf : Json} {c : Content} {t default : T.Value}
    (h : getAs outOfRange T leaf = some t) (hc : leaf.content? = some c) (hr : ¬ T.Represents c) :
    t = default ↔ Coincides outOfRange T leaf default := by
  cases T with
  | boolean =>
    cases leaf with
    | boolean b => exact absurd ⟨b, Option.some.inj hc⟩ hr
    | _ => exact absurd h (by simp [getAs])
  | integral signed width =>
    cases leaf with
    | numberInteger v =>
      obtain rfl := Option.some.inj h
      exact ofInt_eq_iff signed v.toInt default
    | numberUnsigned v =>
      obtain rfl := Option.some.inj h
      exact ofInt_eq_iff signed v.toNat default
    | numberFloat bits =>
      obtain rfl := Option.some.inj h
      exact integerOfDouble_eq_iff outOfRange
    | _ => exact absurd h (by simp [getAs])
  | floating format =>
    cases leaf with
    | numberInteger v =>
      obtain rfl := Option.some.inj h
      exact eq_comm
    | numberUnsigned v =>
      obtain rfl := Option.some.inj h
      exact eq_comm
    | numberFloat bits =>
      obtain rfl := Option.some.inj h
      exact eq_comm
    | _ => exact absurd h (by simp [getAs])

/-! ## Exact or default -/

/-- `result` is what the path leads to, if that is something `T` has, and the default otherwise -/
structure ExactOrDefault (T : ArithmeticType) (json : Json) (path : Bytes) (default result : T.Value) : Prop where
  exact : ∀ leaf c, json.Descends (Json.segments path) leaf → leaf.content? = some c → T.Represents c →
    T.content result = c
  otherwise : (∀ leaf c, json.Descends (Json.segments path) leaf → leaf.content? = some c → ¬ T.Represents c) →
    result = default

/-- **When a lookup is exact or default.** What the branch of the type takes is something the type has, or it coincides
with the default. -/
theorem getValue_iff (T : ArithmeticType) (json : Json) (path : Bytes) (default : T.Value) :
    ExactOrDefault T json path default (getValue outOfRange T json path default) ↔
      ∀ leaf c, json.Descends (Json.segments path) leaf → T.Takes leaf → leaf.content? = some c →
        T.Represents c ∨ Coincides outOfRange T leaf default := by
  rcases hlocate : json.locate path with _ | leaf
  · have hnone : ∀ leaf, ¬ json.Descends (Json.segments path) leaf := by
      intro leaf hleaf
      rw [← Json.locate_iff, hlocate] at hleaf
      exact absurd hleaf (by simp)
    have hvalue : getValue outOfRange T json path default = default := by rw [getValue, hlocate]
    rw [hvalue]
    constructor
    · intro _ leaf c hleaf
      exact absurd hleaf (hnone leaf)
    · intro _
      exact ⟨fun leaf c hleaf => absurd hleaf (hnone leaf), fun _ => rfl⟩
  · have hleaf := (Json.locate_iff json path leaf).1 hlocate
    have honly : ∀ leaf', json.Descends (Json.segments path) leaf' → leaf' = leaf := by
      intro leaf' hleaf'
      rw [← Json.locate_iff, hlocate] at hleaf'
      exact (Option.some.inj hleaf').symm
    have hvalue : getValue outOfRange T json path default = (getAs outOfRange T leaf).getD default := by
      rw [getValue, hlocate]
    rw [hvalue]
    rcases hget : getAs outOfRange T leaf with _ | t
    · constructor
      · intro _ leaf' c hleaf' htakes
        rw [honly leaf' hleaf', ← isSome_getAs outOfRange, hget] at htakes
        exact absurd htakes (by simp)
      · intro _
        refine ⟨?_, fun _ => rfl⟩
        intro leaf' c hleaf' hc hr
        rw [honly leaf' hleaf'] at hc
        have htakes := (isSome_getAs outOfRange T leaf).2 (takes_of_represents hc hr)
        rw [hget] at htakes
        exact absurd htakes (by simp)
    · have htakes : T.Takes leaf := (isSome_getAs outOfRange T leaf).1 (by rw [hget]; rfl)
      obtain ⟨c, hc⟩ := content_of_takes htakes
      constructor
      · intro h leaf' c' hleaf' _ hc'
        obtain rfl := honly leaf' hleaf'
        obtain rfl := Option.some.inj (hc.symm.trans hc')
        by_cases hr : T.Represents c
        · exact .inl hr
        · right
          apply (eq_default_iff outOfRange hget hc hr).1
          apply h.otherwise
          intro leaf'' c'' hleaf'' hc''
          rw [honly leaf'' hleaf'', hc] at hc''
          rwa [← Option.some.inj hc'']
      · intro h
        refine ⟨?_, ?_⟩
        · intro leaf' c' hleaf' hc' hr
          rw [honly leaf' hleaf'] at hc'
          exact getAs_exact outOfRange hget hc' hr
        · intro hnot
          have hr := hnot leaf c hleaf hc
          rcases h leaf c hleaf htakes hc with hr' | hcoincides
          · exact absurd hr' hr
          · exact (eq_default_iff outOfRange hget hc hr).2 hcoincides

end

/-! ## The other readers -/

open ArithmeticType

theorem mul_two_zpow_neg (m k : ℕ) : (m : ℚ) * 2 ^ (-(k : ℤ)) = m / (2 ^ k : ℕ) := by
  rw [zpow_neg, zpow_natCast, div_eq_mul_inv]
  push_cast
  rfl

theorem magnitude_binary64 (code : ℕ) : magnitude .binary64 code =
    if code < 2 ^ 52 then (code : ℚ) * 2 ^ (-1074 : ℤ)
    else (code % 2 ^ 52 + 2 ^ 52 : ℕ) * 2 ^ (-1074 + ((code / 2 ^ 52 - 1 : ℕ) : ℤ)) := by
  have hmin : Format.minExponent .binary64 = -1074 := by decide
  rw [magnitude, hmin]
  rfl

/-- the number of a finite `double`, by its fields -/
theorem number_of_dyadic {bits : UInt64} {negative : Bool} {m : ℕ} {e : ℤ}
    (h : Json.dyadic bits = some (negative, m, e)) :
    (doubleValue bits).number = .finite (if negative then -(m * 2 ^ e) else m * 2 ^ e) := by
  have hinf : Format.infinityCode .binary64 = 2047 * 2 ^ 52 := by decide
  have hlt := bits.toNat_lt
  simp only [Json.dyadic, Nat.shiftRight_eq_div_pow] at h
  split_ifs at h with hspecial hsub
  · obtain ⟨rfl, rfl, rfl⟩ : decide (2 ^ 63 ≤ bits.toNat) = negative ∧ bits.toNat % 2 ^ 52 = m ∧ -1074 = e := by
      simpa using h
    have hsame : bits.toNat % 2 ^ 63 = bits.toNat % 2 ^ 52 := by omega
    have hfinite : bits.toNat % 2 ^ 52 < 2047 * 2 ^ 52 := by omega
    have hsmall : bits.toNat % 2 ^ 52 < 2 ^ 52 := Nat.mod_lt _ (by norm_num)
    rw [BinaryFloat.Value.number, doubleValue, hinf]
    simp only [hsame]
    rw [if_pos hfinite, magnitude_binary64, if_pos hsmall]
  · obtain ⟨rfl, rfl, rfl⟩ : decide (2 ^ 63 ≤ bits.toNat) = negative ∧ bits.toNat % 2 ^ 52 + 2 ^ 52 = m ∧
        ((bits.toNat / 2 ^ 52 % 2048 : ℕ) : ℤ) - 1075 = e := by
      simpa using h
    have hfinite : bits.toNat % 2 ^ 63 < 2047 * 2 ^ 52 := by omega
    have hlarge : ¬ bits.toNat % 2 ^ 63 < 2 ^ 52 := by omega
    have hexponent : bits.toNat % 2 ^ 63 / 2 ^ 52 = bits.toNat / 2 ^ 52 % 2048 := by omega
    have hfraction : bits.toNat % 2 ^ 63 % 2 ^ 52 = bits.toNat % 2 ^ 52 := by omega
    have hplace : (-1074 : ℤ) + ((bits.toNat / 2 ^ 52 % 2048 - 1 : ℕ) : ℤ) =
        ((bits.toNat / 2 ^ 52 % 2048 : ℕ) : ℤ) - 1075 := by omega
    rw [BinaryFloat.Value.number, doubleValue, hinf]
    rw [if_pos hfinite, magnitude_binary64, if_neg hlarge, hfraction, hexponent, hplace]

theorem number_of_no_dyadic {bits : UInt64} (h : Json.dyadic bits = none) (q : ℚ) :
    (doubleValue bits).number ≠ .finite q := by
  have hinf : Format.infinityCode .binary64 = 2047 * 2 ^ 52 := by decide
  have hspecial : 2047 * 2 ^ 52 ≤ bits.toNat % 2 ^ 63 := by
    simp only [Json.dyadic, Nat.shiftRight_eq_div_pow] at h
    split_ifs at h with hspecial
    omega
  rw [BinaryFloat.Value.number, doubleValue, hinf, if_neg (not_lt.2 hspecial)]
  split_ifs
  · simp
  · simp

theorem floor_dyadic (m : ℕ) (e : ℤ) :
    ⌊(m : ℚ) * 2 ^ e⌋ = ((if 0 ≤ e then m * 2 ^ e.toNat else m / 2 ^ (-e).toNat : ℕ) : ℤ) := by
  split_ifs with he
  · obtain ⟨k, rfl⟩ := Int.eq_ofNat_of_zero_le he
    have hcast : (m : ℚ) * 2 ^ ((k : ℕ) : ℤ) = ((m * 2 ^ k : ℕ) : ℤ) := by
      push_cast
      rw [zpow_natCast]
    simp only [hcast, Int.floor_intCast, Int.toNat_natCast]
  · obtain ⟨k, hk⟩ : ∃ k : ℕ, e = -(k : ℤ) := ⟨(-e).toNat, by omega⟩
    rw [hk, mul_two_zpow_neg, Rat.floor_natCast_div_natCast, neg_neg, Int.toNat_natCast]
    rfl

theorem truncateNumber_dyadic (negative : Bool) (m : ℕ) (e : ℤ) :
    truncateNumber (if negative then -(m * 2 ^ e) else m * 2 ^ e) =
      if negative then -((if 0 ≤ e then m * 2 ^ e.toNat else m / 2 ^ (-e).toNat : ℕ) : ℤ)
      else ((if 0 ≤ e then m * 2 ^ e.toNat else m / 2 ^ (-e).toNat : ℕ) : ℤ) := by
  have hnonneg : (0 : ℚ) ≤ m * 2 ^ e := by positivity
  rw [← floor_dyadic]
  cases negative with
  | false =>
    simp only [Bool.false_eq_true, if_false]
    rw [truncateNumber, if_neg (not_lt.2 hnonneg)]
  | true =>
    simp only [if_true]
    rw [truncateNumber]
    split_ifs with hneg
    · rw [neg_neg]
    · have hzero : (m : ℚ) * 2 ^ e = 0 := le_antisymm (by linarith) hnonneg
      rw [hzero]
      simp

/-- where the register has room for it, the truncation of the processor is that of the language -/
theorem truncate_eq {width : ℕ} {bits : UInt64} {q : ℚ} (h : (doubleValue bits).number = .finite q)
    (hlow : -2 ^ (width - 1) ≤ truncateNumber q) (hhigh : truncateNumber q < 2 ^ (width - 1)) :
    Json.truncate width bits = truncateNumber q := by
  rcases hd : Json.dyadic bits with _ | ⟨negative, m, e⟩
  · exact absurd h (number_of_no_dyadic hd q)
  · rw [number_of_dyadic hd] at h
    obtain rfl := Number.finite.inj h
    rw [truncateNumber_dyadic] at hlow hhigh ⊢
    rw [Json.truncate, hd]
    cases negative with
    | false =>
      simp only [Bool.false_eq_true, if_false] at hlow hhigh ⊢
      rw [if_pos]
      exact_mod_cast hhigh
    | true =>
      simp only [if_true] at hlow hhigh ⊢
      rw [if_pos]
      have := neg_le_neg hlow
      rw [neg_neg, neg_neg] at this
      exact_mod_cast this

/-- the bits of the signed integer that a conversion goes through -/
def registerWidth (signed : Bool) (width : ℕ) : ℕ :=
  if width < 32 then 32 else if signed then width else if width < 64 then 64 else width + 1

theorem inRange_register {signed : Bool} {width : ℕ} {n : ℤ} (h : InRange signed width n) :
    -2 ^ (registerWidth signed width - 1) ≤ n ∧ n < 2 ^ (registerWidth signed width - 1) := by
  cases signed with
  | true =>
    obtain ⟨hlow, hhigh⟩ : -2 ^ width ≤ 2 * n ∧ 2 * n < 2 ^ width := h
    have hwide : width ≤ registerWidth true width - 1 + 1 := by
      rw [registerWidth]
      split_ifs <;> omega
    have hpow : (2 : ℤ) ^ width ≤ 2 ^ (registerWidth true width - 1) * 2 := by
      rw [← pow_succ]
      exact pow_le_pow_right₀ (by norm_num) hwide
    omega
  | false =>
    obtain ⟨hlow, hhigh⟩ : 0 ≤ n ∧ n < 2 ^ width := h
    have hwide : width ≤ registerWidth false width - 1 := by
      simp only [registerWidth, Bool.false_eq_true, if_false]
      split_ifs <;> omega
    have hpow : (2 : ℤ) ^ width ≤ 2 ^ (registerWidth false width - 1) := pow_le_pow_right₀ (by norm_num) hwide
    omega

/-- a `double` out of range by way of a signed integer of 32 bits or more that holds the whole type -/
def throughRegister (signed : Bool) (width : ℕ) (bits : UInt64) : BitVec width :=
  BitVec.ofInt width (Json.truncate (registerWidth signed width) bits)

theorem integerOfDouble_register (signed : Bool) (width : ℕ) (bits : UInt64) :
    integerOfDouble throughRegister signed width bits =
      BitVec.ofInt width (Json.truncate (registerWidth signed width) bits) := by
  rw [integerOfDouble]
  rcases hn : (doubleValue bits).number with q | negative | _
  · simp only
    split_ifs with hrange
    · obtain ⟨hlow, hhigh⟩ := inRange_register hrange
      rw [truncate_eq hn hlow hhigh]
    · rfl
  · rfl
  · rfl

theorem ofNat_emod (width : ℕ) (n : ℤ) : BitVec.ofNat width (n % 2 ^ width).toNat = BitVec.ofInt width n := by
  rw [← BitVec.ofInt_natCast, Int.toNat_of_nonneg (Int.emod_nonneg _ (by positivity))]
  apply BitVec.eq_of_toNat_eq
  simp

/-- **The readers that the model uses elsewhere are `get<T>()`.** -/
theorem readers_agree (leaf : Json) :
    leaf.getUInt16 = (getAs throughRegister .uint16 leaf).map UInt16.ofBitVec ∧
    leaf.getUInt32 = (getAs throughRegister .uint32 leaf).map UInt32.ofBitVec ∧
    leaf.getSize = (getAs throughRegister .size leaf).map UInt64.ofBitVec := by
  cases leaf with
  | numberInteger v =>
    have hinteger : ∀ width ≤ 64, BitVec.ofInt width v.toInt = v.toBitVec.setWidth width :=
      fun width h => BitVec.signExtend_eq_setWidth_of_le _ h
    refine ⟨congrArg some ?_, congrArg some ?_, congrArg some ?_⟩
    · exact congrArg UInt16.ofBitVec (hinteger 16 (by norm_num)).symm
    · exact congrArg UInt32.ofBitVec (hinteger 32 (by norm_num)).symm
    · exact congrArg UInt64.ofBitVec ((hinteger 64 (by norm_num)).trans (BitVec.setWidth_eq _)).symm
  | numberUnsigned v =>
    have hunsigned : ∀ width, BitVec.ofInt width v.toNat = v.toBitVec.setWidth width :=
      fun width => (BitVec.ofInt_natCast width v.toNat).trans (BitVec.ofNat_toNat width v.toBitVec)
    refine ⟨congrArg some ?_, congrArg some ?_, congrArg some ?_⟩
    · exact congrArg UInt16.ofBitVec (hunsigned 16).symm
    · exact congrArg UInt32.ofBitVec (hunsigned 32).symm
    · exact congrArg UInt64.ofBitVec ((hunsigned 64).trans (BitVec.setWidth_eq _)).symm
  | numberFloat bits =>
    have h16 := integerOfDouble_register false 16 bits
    have h32 := integerOfDouble_register false 32 bits
    have h64 := integerOfDouble_register false 64 bits
    refine ⟨congrArg some ?_, congrArg some ?_, congrArg some ?_⟩
    · rw [h16]
      exact congrArg UInt16.ofBitVec (ofNat_emod 16 (Json.truncate 32 bits))
    · rw [h32]
      exact congrArg UInt32.ofBitVec (ofNat_emod 32 (Json.truncate 64 bits))
    · rw [h64]
      exact congrArg UInt64.ofBitVec (ofNat_emod 64 (Json.truncate 65 bits))
  | _ => exact ⟨rfl, rfl, rfl⟩

/-! ## A port -/

/-- {"port": 65616} -/
def portParameters : Json := .object [([0x70, 0x6F, 0x72, 0x74], .numberUnsigned 65616)]

theorem port_not_represented : ¬ ArithmeticType.uint16.Represents (.number (.finite 65616)) := by
  intro h
  obtain ⟨n, hn, hrange⟩ := integral_represents_iff.1 h
  obtain rfl : 65616 = n := by exact_mod_cast hn
  exact absurd hrange (by decide)

/-- The lookup of the port of a proxy, 0 by default, gives port 80. -/
theorem port_reduced :
    getValue throughRegister .uint16 portParameters [0x70, 0x6F, 0x72, 0x74] (0 : BitVec 16) = (80 : BitVec 16) ∧
    ¬ ExactOrDefault .uint16 portParameters [0x70, 0x6F, 0x72, 0x74] (0 : BitVec 16)
      (getValue throughRegister .uint16 portParameters [0x70, 0x6F, 0x72, 0x74] (0 : BitVec 16)) := by
  have hvalue : getValue throughRegister .uint16 portParameters [0x70, 0x6F, 0x72, 0x74] (0 : BitVec 16) =
      (80 : BitVec 16) := rfl
  refine ⟨hvalue, fun h => ?_⟩
  rw [hvalue] at h
  have hport : portParameters.locate [0x70, 0x6F, 0x72, 0x74] = some (.numberUnsigned 65616) := rfl
  have hdefault : (80 : BitVec 16) = (0 : BitVec 16) := by
    apply h.otherwise
    intro leaf c hleaf hc
    rw [← Json.locate_iff, hport] at hleaf
    obtain rfl := Option.some.inj hleaf
    obtain rfl := Option.some.inj hc
    exact port_not_represented
  exact absurd hdefault (by decide)

end Iotmp
