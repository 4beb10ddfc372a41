/-
Binary floating-point formats (IEEE 754): values, the numbers they stand for, and rounding to the nearest.

- `Format`, `Value`: a sign and a code, the exponent field above the fraction field. Codes are ordered as their
  magnitudes are; those from `infinityCode` on are infinity and the NaNs.
- `Number`: what a value stands for. The two zeros are one number.
- `nearestCode`: the code nearest to a magnitude, ties to the even one, infinity above the largest.
- `nearestCode_magnitude`: a magnitude of the format is its own nearest. `ofInt_exact`, `convert_exact`: so integers and
  values of another format that the format has are converted without change.
-/
import Mathlib.Tactic
import Mathlib.Data.Int.Log

namespace BinaryFloat

structure Format where
  fractionBits : ℕ
  exponentBits : ℕ
  fractionBits_pos : 0 < fractionBits
deriving DecidableEq

namespace Format

/-- the exponent of the last place of the smallest magnitudes -/
def minExponent (f : Format) : ℤ := 2 - 2 ^ (f.exponentBits - 1) - f.fractionBits

def infinityCode (f : Format) : ℕ := (2 ^ f.exponentBits - 1) * 2 ^ f.fractionBits

def binary64 : Format := ⟨52, 11, by decide⟩

end Format

/-- what a floating-point value stands for -/
inductive Number where
  | finite (q : ℚ)
  | infinity (negative : Bool)
  | nan
deriving DecidableEq

structure Value (f : Format) where
  negative : Bool
  code : ℕ
  code_lt : code < 2 ^ (f.exponentBits + f.fractionBits)
deriving DecidableEq

/-- the magnitude of a code below `infinityCode` -/
def magnitude (f : Format) (code : ℕ) : ℚ :=
  if code < 2 ^ f.fractionBits then code * 2 ^ f.minExponent
  else (code % 2 ^ f.fractionBits + 2 ^ f.fractionBits : ℕ) * 2 ^ (f.minExponent + (code / 2 ^ f.fractionBits - 1 : ℕ))

def Value.number {f : Format} (v : Value f) : Number :=
  if v.code < f.infinityCode then .finite (if v.negative then -magnitude f v.code else magnitude f v.code)
  else if v.code = f.infinityCode then .infinity v.negative
  else .nan

/-! ## Rounding -/

/-- the nearest integer, ties to the even one -/
def roundEven (q : ℚ) : ℤ :=
  if q - ⌊q⌋ < 1 / 2 then ⌊q⌋
  else if 1 / 2 < q - ⌊q⌋ then ⌊q⌋ + 1
  else if ⌊q⌋ % 2 = 0 then ⌊q⌋
  else ⌊q⌋ + 1

/-- the exponent of the last place at a magnitude -/
def lastPlace (f : Format) (q : ℚ) : ℤ := max (Int.log 2 q - f.fractionBits) f.minExponent

def nearestCode (f : Format) (q : ℚ) : ℕ :=
  if q = 0 then 0
  else
    min ((lastPlace f q - f.minExponent).toNat * 2 ^ f.fractionBits + (roundEven (q / 2 ^ lastPlace f q)).toNat)
      f.infinityCode

theorem infinityCode_lt (f : Format) : f.infinityCode < 2 ^ (f.exponentBits + f.fractionBits) := by
  have he : 0 < 2 ^ f.exponentBits := Nat.two_pow_pos _
  have hf : 0 < 2 ^ f.fractionBits := Nat.two_pow_pos _
  rw [Format.infinityCode, pow_add]
  exact Nat.mul_lt_mul_of_pos_right (by omega) hf

theorem nearestCode_lt (f : Format) (q : ℚ) : nearestCode f q < 2 ^ (f.exponentBits + f.fractionBits) := by
  rw [nearestCode]
  split_ifs
  · exact Nat.two_pow_pos _
  · exact lt_of_le_of_lt (min_le_right _ _) (infinityCode_lt f)

theorem roundEven_natCast (n : ℕ) : roundEven (n : ℚ) = n := by
  simp [roundEven]

/-! ## Magnitudes of the format -/

/-- the first place of a magnitude is that of its digits -/
theorem log_scaled_lt {n k : ℕ} (hpos : 0 < n) (hlt : n < 2 ^ k) (e : ℤ) : Int.log 2 ((n : ℚ) * 2 ^ e) < k + e := by
  have hq : (0 : ℚ) < n * 2 ^ e := by positivity
  have hcast : (n : ℚ) < 2 ^ k := by exact_mod_cast hlt
  rw [← Int.lt_zpow_iff_log_lt (by norm_num) hq, Nat.cast_ofNat, zpow_add₀ (by norm_num), zpow_natCast]
  exact mul_lt_mul_of_pos_right hcast (by positivity)

theorem le_log_scaled {n k : ℕ} (hle : 2 ^ k ≤ n) (e : ℤ) : k + e ≤ Int.log 2 ((n : ℚ) * 2 ^ e) := by
  have hpos : 0 < n := lt_of_lt_of_le (Nat.two_pow_pos k) hle
  have hq : (0 : ℚ) < n * 2 ^ e := by positivity
  have hcast : (2 : ℚ) ^ k ≤ n := by exact_mod_cast hle
  rw [← Int.zpow_le_iff_le_log (by norm_num) hq, Nat.cast_ofNat, zpow_add₀ (by norm_num), zpow_natCast]
  exact mul_le_mul_of_nonneg_right hcast (by positivity)

/-- digits that fit the fraction have their last place where they are written -/
theorem lastPlace_scaled {f : Format} {n e : ℕ} (hpos : 0 < n) (hlt : n < 2 ^ (f.fractionBits + 1))
    (hlow : 2 ^ f.fractionBits ≤ n ∨ e = 0) :
    lastPlace f (n * 2 ^ (f.minExponent + e)) = f.minExponent + e := by
  have hupper := log_scaled_lt hpos hlt (f.minExponent + e)
  rw [lastPlace]
  rcases hlow with hlow | rfl
  · have hlower := le_log_scaled hlow (f.minExponent + e)
    push_cast at hupper
    omega
  · push_cast at hupper ⊢
    omega

theorem nearestCode_scaled {f : Format} {n e : ℕ} (hpos : 0 < n) (hlt : n < 2 ^ (f.fractionBits + 1))
    (hlow : 2 ^ f.fractionBits ≤ n ∨ e = 0) :
    nearestCode f (n * 2 ^ (f.minExponent + e)) = min (e * 2 ^ f.fractionBits + n) f.infinityCode := by
  have hne : (n : ℚ) * 2 ^ (f.minExponent + e) ≠ 0 := by positivity
  have hscale : (n : ℚ) * 2 ^ (f.minExponent + e) / 2 ^ (f.minExponent + e) = n :=
    mul_div_cancel_right₀ _ (by positivity)
  rw [nearestCode, if_neg hne, lastPlace_scaled hpos hlt hlow, hscale, roundEven_natCast]
  simp

/-- **A magnitude of the format is its own nearest.** -/
theorem nearestCode_magnitude {f : Format} {code : ℕ} (h : code < f.infinityCode) :
    nearestCode f (magnitude f code) = code := by
  have hP : 0 < 2 ^ f.fractionBits := Nat.two_pow_pos _
  rw [magnitude]
  split_ifs with hsmall
  · rcases Nat.eq_zero_or_pos code with rfl | hpos
    · simp [nearestCode]
    · have hcode := nearestCode_scaled (f := f) (e := 0) hpos (lt_trans hsmall (by rw [pow_succ]; omega)) (.inr rfl)
      rw [Nat.cast_zero, add_zero] at hcode
      rw [hcode]
      omega
  · have hmod : code % 2 ^ f.fractionBits < 2 ^ f.fractionBits := Nat.mod_lt _ hP
    have hdiv : 0 < code / 2 ^ f.fractionBits := Nat.div_pos (not_lt.1 hsmall) hP
    have hparts := Nat.div_add_mod' code (2 ^ f.fractionBits)
    have hfield : code / 2 ^ f.fractionBits * 2 ^ f.fractionBits =
        (code / 2 ^ f.fractionBits - 1) * 2 ^ f.fractionBits + 2 ^ f.fractionBits := by
      calc code / 2 ^ f.fractionBits * 2 ^ f.fractionBits
          = (code / 2 ^ f.fractionBits - 1 + 1) * 2 ^ f.fractionBits := by rw [Nat.sub_add_cancel hdiv]
        _ = _ := by ring
    rw [nearestCode_scaled (by omega) (by rw [pow_succ]; omega) (.inl (by omega))]
    omega

theorem magnitude_nonneg (f : Format) (code : ℕ) : 0 ≤ magnitude f code := by
  rw [magnitude]
  split_ifs
  · positivity
  · positivity

/-- a value that stands for a finite number has the code nearest to it -/
theorem Value.of_number_finite {f : Format} {v : Value f} {q : ℚ} (h : v.number = .finite q) :
    v.code < f.infinityCode ∧ magnitude f v.code = |q| ∧ nearestCode f |q| = v.code := by
  have hmag := magnitude_nonneg f v.code
  rw [number] at h
  split_ifs at h with hlt hneg
  · obtain rfl := Number.finite.inj h
    rw [abs_neg, abs_of_nonneg hmag]
    exact ⟨hlt, rfl, nearestCode_magnitude hlt⟩
  · obtain rfl := Number.finite.inj h
    rw [abs_of_nonneg hmag]
    exact ⟨hlt, rfl, nearestCode_magnitude hlt⟩

/-! ## Conversions -/

/-- the code of a quiet NaN -/
def nanCode (f : Format) : ℕ := f.infinityCode + 2 ^ (f.fractionBits - 1)

theorem nanCode_lt (f : Format) : nanCode f < 2 ^ (f.exponentBits + f.fractionBits) := by
  have he : 0 < 2 ^ f.exponentBits := Nat.two_pow_pos _
  have hhalf : 2 ^ (f.fractionBits - 1) < 2 ^ f.fractionBits :=
    Nat.pow_lt_pow_right (by norm_num) (Nat.sub_lt f.fractionBits_pos one_pos)
  calc nanCode f < (2 ^ f.exponentBits - 1) * 2 ^ f.fractionBits + 2 ^ f.fractionBits := Nat.add_lt_add_left hhalf _
    _ = (2 ^ f.exponentBits - 1 + 1) * 2 ^ f.fractionBits := by ring
    _ = 2 ^ (f.exponentBits + f.fractionBits) := by rw [Nat.sub_add_cancel he, pow_add]

namespace Value

variable {f g : Format}

/-- an integer in a format -/
def ofInt (f : Format) (n : ℤ) : Value f := ⟨decide (n < 0), nearestCode f |(n : ℚ)|, nearestCode_lt f _⟩

/-- a value in another format -/
def convert (g : Format) (v : Value f) : Value g :=
  if h : f = g then ⟨v.negative, v.code, h ▸ v.code_lt⟩
  else if v.code < f.infinityCode then ⟨v.negative, nearestCode g (magnitude f v.code), nearestCode_lt g _⟩
  else if v.code = f.infinityCode then ⟨v.negative, g.infinityCode, infinityCode_lt g⟩
  else ⟨v.negative, nanCode g, nanCode_lt g⟩

/-- **An integer of the format arrives unchanged.** -/
theorem ofInt_exact {n : ℤ} {w : Value f} (h : w.number = .finite n) : (ofInt f n).number = .finite n := by
  obtain ⟨hlt, hmag, hcode⟩ := of_number_finite h
  rw [number, ofInt]
  simp only [hcode, if_pos hlt, hmag]
  by_cases hn : n < 0
  · have hneg : (n : ℚ) < 0 := by exact_mod_cast hn
    simp [hn, abs_of_neg hneg]
  · have hnonneg : (0 : ℚ) ≤ n := by exact_mod_cast not_lt.1 hn
    simp [hn, abs_of_nonneg hnonneg]

/-- **A value the other format has arrives unchanged.** -/
theorem convert_exact {v : Value f} {w : Value g} (h : w.number = v.number) : (convert g v).number = v.number := by
  by_cases hfg : f = g
  · subst hfg
    rw [convert, dif_pos rfl]
  · rw [convert, dif_neg hfg]
    by_cases hlt : v.code < f.infinityCode
    · have hv : v.number = .finite (if v.negative then -magnitude f v.code else magnitude f v.code) := by
        rw [number, if_pos hlt]
      obtain ⟨hwlt, hwmag, hwcode⟩ := of_number_finite (h.trans hv)
      obtain ⟨-, hvmag, -⟩ := of_number_finite hv
      rw [← hvmag] at hwmag hwcode
      rw [hv, if_pos hlt, number]
      simp only [hwcode, if_pos hwlt, hwmag]
    · rw [if_neg hlt]
      by_cases hinf : v.code = f.infinityCode
      · rw [if_pos hinf, number, number]
        simp [hinf]
      · have hhalf : 0 < 2 ^ (g.fractionBits - 1) := Nat.two_pow_pos _
        rw [if_neg hinf, number, number, if_neg hlt, if_neg hinf]
        simp [nanCode]

end Value

end BinaryFloat
