/-
Base-128 variable-length numbers: seven bits a byte, lowest first, the high bit set on every byte but the last.

- `Code bs`: the byte string has that shape. `encode n` is the shortest one of value `n` (`encode_code`,
  `value_encode`).
- `of_small_first`: what begins with a byte below 128 is the code of that byte.
- `length_encode_le_iff`: `encode n` fits in `k` bytes exactly when `n < 128 ^ k`.
- `or_chunk`: OR-ing the next seven bits into a `w`-bit accumulator adds them modulo `2 ^ w`. This is the step a reader
  takes. `value_cons_step` rearranges the sum it accumulates.
-/
import Mathlib.Tactic

namespace Leb128

/-! ## Codes and their values -/

/-- the shortest code of a number -/
def encode (n : ℕ) : List UInt8 :=
  if n < 128 then [UInt8.ofNat n] else UInt8.ofNat (n % 128 + 128) :: encode (n / 128)
termination_by n
decreasing_by omega

/-- the number a code stands for: `Σ (bᵢ mod 128) · 128ⁱ` -/
def value : List UInt8 → ℕ
  | [] => 0
  | b :: bs => b.toNat % 128 + 128 * value bs

/-- every byte but the last has its high bit set -/
def Code : List UInt8 → Prop
  | [] => False
  | [b] => b.toNat < 128
  | b :: bs => 128 ≤ b.toNat ∧ Code bs

theorem toNat_ofNat {n : ℕ} (h : n < 256) : (UInt8.ofNat n).toNat = n := by
  simp [UInt8.toNat_ofNat', Nat.mod_eq_of_lt h]

theorem encode_of_lt {n : ℕ} (h : n < 128) : encode n = [UInt8.ofNat n] := by rw [encode, if_pos h]

theorem encode_of_ge {n : ℕ} (h : 128 ≤ n) : encode n = UInt8.ofNat (n % 128 + 128) :: encode (n / 128) := by
  rw [encode, if_neg (not_lt.2 h)]

theorem Code.cons {b : UInt8} {bs : List UInt8} (hb : 128 ≤ b.toNat) (h : Code bs) : Code (b :: bs) := by
  cases bs with
  | nil => exact absurd h id
  | cons c cs => exact ⟨hb, h⟩

theorem encode_code (n : ℕ) : Code (encode n) := by
  induction n using Nat.strongRecOn with
  | ind n ih =>
    rcases lt_or_ge n 128 with h | h
    · rw [encode_of_lt h]
      show (UInt8.ofNat n).toNat < 128
      rw [toNat_ofNat (by omega)]; exact h
    · rw [encode_of_ge h]
      exact Code.cons (by rw [toNat_ofNat (by omega)]; omega) (ih (n / 128) (by omega))

theorem value_encode (n : ℕ) : value (encode n) = n := by
  induction n using Nat.strongRecOn with
  | ind n ih =>
    rcases lt_or_ge n 128 with h | h
    · rw [encode_of_lt h, value, value, toNat_ofNat (by omega)]; omega
    · rw [encode_of_ge h, value, ih _ (by omega), toNat_ofNat (by omega)]; omega

/-- a small first byte is the whole code -/
theorem of_small_first {b : UInt8} {bs tl : List UInt8} {n : ℕ} (hb : b.toNat < 128) (h : b :: bs <+: encode n ++ tl) :
    n = b.toNat ∧ bs <+: tl := by
  rcases lt_or_ge n 128 with hn | hn
  · rw [encode_of_lt hn, List.singleton_append] at h
    obtain ⟨rfl, htl⟩ := List.cons_prefix_cons.1 h
    exact ⟨(toNat_ofNat (by omega)).symm, htl⟩
  · rw [encode_of_ge hn, List.cons_append] at h
    obtain ⟨rfl, -⟩ := List.cons_prefix_cons.1 h
    rw [toNat_ofNat (by omega)] at hb
    omega

theorem value_lt (bs : List UInt8) : value bs < 128 ^ bs.length := by
  induction bs with
  | nil => simp [value]
  | cons b bs ih =>
    rw [value, List.length_cons, pow_succ]
    have : b.toNat % 128 < 128 := Nat.mod_lt _ (by norm_num)
    omega

theorem length_encode_le {n k : ℕ} (hk : 0 < k) (h : n < 128 ^ k) : (encode n).length ≤ k := by
  induction k generalizing n with
  | zero => exact absurd hk (lt_irrefl 0)
  | succ k ih =>
    rcases lt_or_ge n 128 with hn | hn
    · rw [encode_of_lt hn]; simp
    · rw [encode_of_ge hn, List.length_cons]
      have hk' : 0 < k := by
        rcases Nat.eq_zero_or_pos k with rfl | hk'
        · simp only [zero_add, pow_one] at h; omega
        · exact hk'
      have : n / 128 < 128 ^ k := Nat.div_lt_of_lt_mul (by rw [← pow_succ']; exact h)
      exact Nat.succ_le_succ (ih hk' this)

theorem length_encode_le_iff {n k : ℕ} (hk : 0 < k) : (encode n).length ≤ k ↔ n < 128 ^ k := by
  refine ⟨fun h => ?_, length_encode_le hk⟩
  calc n = value (encode n) := (value_encode n).symm
    _ < 128 ^ (encode n).length := value_lt _
    _ ≤ 128 ^ k := Nat.pow_le_pow_right (by norm_num) h

/-! ## Accumulating a code, seven bits at a time -/

/-- OR-ing the next chunk in, truncated to `w` bits, adds it modulo `2 ^ w` -/
theorem or_chunk {w bit temp : ℕ} (x : ℕ) (hbit : bit ≤ w) (ht : temp < 2 ^ bit) :
    temp ||| (x <<< bit) % 2 ^ w = (temp + 2 ^ bit * x) % 2 ^ w := by
  obtain ⟨d, rfl⟩ := Nat.exists_eq_add_of_le hbit
  have hx : (x <<< bit) % 2 ^ (bit + d) = 2 ^ bit * (x % 2 ^ d) := by
    rw [Nat.shiftLeft_eq, pow_add, mul_comm x, Nat.mul_mod_mul_left]
  have hsum : 2 ^ bit * (x % 2 ^ d) + temp < 2 ^ (bit + d) := by
    have h1 : x % 2 ^ d + 1 ≤ 2 ^ d := Nat.mod_lt _ (by positivity)
    calc 2 ^ bit * (x % 2 ^ d) + temp < 2 ^ bit * (x % 2 ^ d) + 2 ^ bit := by omega
      _ = 2 ^ bit * (x % 2 ^ d + 1) := by ring
      _ ≤ 2 ^ bit * 2 ^ d := Nat.mul_le_mul_left _ h1
      _ = 2 ^ (bit + d) := (pow_add 2 bit d).symm
  have hmod : 2 ^ bit * (x % 2 ^ d) = (2 ^ bit * x) % 2 ^ (bit + d) := by rw [pow_add, Nat.mul_mod_mul_left]
  calc temp ||| (x <<< bit) % 2 ^ (bit + d)
      = 2 ^ bit * (x % 2 ^ d) + temp := by rw [hx, Nat.or_comm, Nat.two_pow_add_eq_or_of_lt ht]
    _ = (2 ^ bit * (x % 2 ^ d) + temp) % 2 ^ (bit + d) := (Nat.mod_eq_of_lt hsum).symm
    _ = (temp + 2 ^ bit * x) % 2 ^ (bit + d) := by rw [hmod, Nat.mod_add_mod, add_comm]

/-- the sum after one more chunk -/
theorem value_cons_step (bit temp : ℕ) (b : UInt8) (bs : List UInt8) :
    temp + 2 ^ bit * value (b :: bs) = temp + 2 ^ bit * (b.toNat % 128) + 2 ^ (bit + 7) * value bs := by
  rw [value, pow_add]; ring

end Leb128
