import LayeredShading.Numeric.Binary
import Mathlib.Algebra.Order.Ring.Nat
import Mathlib.Tactic.Ring

/-!
# Wider formats

A code is that of a significand and a shift (`Format.exists_normal`), and the magnitude of a code is
rounded to the code itself (`Format.code_of_units_of_code`), so a conversion gives the number of the
other format that has the same magnitude if there is one (`Binary.convert_eq`). A wider format has
every finite magnitude of a narrower one: a finite number converted to the wider format and back is
the number again (`Binary.convert_convert`).
-/

namespace LayeredShading

namespace Numeric

namespace Format

variable {format : Format} {significand shift : Nat}

theorem binade_pos : 0 < format.binade := Nat.two_pow_pos _

theorem two_mul_binade (h : 0 < format.precision) :
    2 * format.binade = 2 ^ format.precision := by
  show 2 * 2 ^ (format.precision - 1) = _
  rw [← Nat.pow_succ', Nat.succ_eq_add_one, Nat.sub_add_cancel h]

/-- A significand and a shift as codes have them: the significand has at most `precision` bits, and
if there is a shift it has no fewer. -/
structure Normal (format : Format) (significand shift : Nat) : Prop where
  short : significand < 2 * format.binade
  long : shift ≠ 0 → format.binade ≤ significand

/-- Every code is that of a significand and a shift. -/
theorem exists_normal (format : Format) (code : Nat) : ∃ significand shift,
    format.Normal significand shift ∧ significand + shift * format.binade = code := by
  have hbinade := format.binade_pos
  by_cases hsmall : code < format.binade
  · exact ⟨code, 0, ⟨by omega, fun h => absurd rfl h⟩, by omega⟩
  · have hmod := Nat.mod_lt code hbinade
    have hquotient : 1 ≤ code / format.binade :=
      (Nat.one_le_div_iff hbinade).mpr (Nat.le_of_not_lt hsmall)
    refine ⟨code % format.binade + format.binade, code / format.binade - 1,
      ⟨by omega, fun _ => by omega⟩, ?_⟩
    have hcode := Nat.mod_add_div' code format.binade
    have hshift : code / format.binade * format.binade =
        (code / format.binade - 1) * format.binade + format.binade := by
      rw [← Nat.succ_mul, Nat.succ_eq_add_one, Nat.sub_add_cancel hquotient]
    omega

/-- A significand that is too short for its shift can be made longer. -/
theorem exists_normal_of_short (h : significand < 2 * format.binade) (shift : Nat) :
    ∃ longer less, format.Normal longer less ∧ less ≤ shift ∧
      longer * 2 ^ less = significand * 2 ^ shift := by
  induction shift generalizing significand with
  | zero => exact ⟨significand, 0, ⟨h, fun h => absurd rfl h⟩, Nat.le_refl 0, rfl⟩
  | succ shift ih =>
      by_cases hlong : format.binade ≤ significand
      · exact ⟨significand, shift + 1, ⟨h, fun _ => hlong⟩, Nat.le_refl _, rfl⟩
      · obtain ⟨longer, less, hnormal, hless, hunits⟩ :=
          ih (show significand * 2 < 2 * format.binade by omega)
        exact ⟨longer, less, hnormal, by omega, by rw [hunits, Nat.pow_succ']; ring⟩

namespace Normal

/-- The magnitude of the code of a significand and a shift. -/
theorem units_of_code (h : format.Normal significand shift) :
    format.unitsOfCode (significand + shift * format.binade) = significand * 2 ^ shift := by
  have hbinade := format.binade_pos
  unfold unitsOfCode
  by_cases hsmall : significand < format.binade
  · obtain rfl : shift = 0 := by
      by_contra hshift
      exact absurd (h.long hshift) (Nat.not_le.mpr hsmall)
    simp [hsmall]
  · have hlarge : ¬ significand + shift * format.binade < format.binade := by omega
    have hquotient : significand / format.binade = 1 :=
      Nat.div_eq_of_lt_le (by omega) (by have hshort := h.short; omega)
    have hmod : significand % format.binade + format.binade = significand := by
      have hsplit := Nat.mod_add_div significand format.binade
      rwa [hquotient, Nat.mul_one] at hsplit
    rw [if_neg hlarge, Nat.add_mul_mod_self_right, Nat.add_mul_div_right _ _ hbinade, hquotient,
      hmod, Nat.add_sub_cancel_left]
    rfl

/-- The length of a magnitude shows its shift. -/
theorem log2_sub_precision (h : format.Normal significand shift)
    (hprecision : 0 < format.precision) :
    (significand * 2 ^ shift).log2 + 1 - format.precision = shift := by
  have hshort := h.short
  rw [two_mul_binade hprecision] at hshort
  by_cases hshift : shift = 0
  · subst hshift
    rw [Nat.pow_zero, Nat.mul_one]
    by_cases hzero : significand = 0
    · rw [hzero, Nat.log2_zero]
      omega
    · have hlog := (Nat.log2_lt hzero).mpr hshort
      omega
  · have hlong : 2 ^ (format.precision - 1) ≤ significand := h.long hshift
    have hpos : 0 < 2 ^ (format.precision - 1) := Nat.two_pow_pos _
    have hlower : 2 ^ (format.precision - 1 + shift) ≤ significand * 2 ^ shift := by
      rw [Nat.pow_add]
      exact Nat.mul_le_mul_right _ hlong
    have hupper : significand * 2 ^ shift < 2 ^ (format.precision - 1 + shift + 1) := by
      have hsucc : format.precision - 1 + shift + 1 = format.precision + shift := by omega
      rw [hsucc, Nat.pow_add]
      exact Nat.mul_lt_mul_of_pos_right hshort (Nat.two_pow_pos _)
    have hne : significand * 2 ^ shift ≠ 0 := by
      have hle := Nat.two_pow_pos (format.precision - 1 + shift)
      omega
    rw [(Nat.log2_eq_iff hne).mpr ⟨hlower, hupper⟩]
    omega

/-- The magnitude of a significand and a shift is rounded to their code. -/
theorem code_of_units (h : format.Normal significand shift) (hprecision : 0 < format.precision)
    {scale : Nat} (hscale : 0 < scale) :
    format.codeOfUnits (significand * 2 ^ shift * scale) scale =
      min format.infinityCode (significand + shift * format.binade) := by
  have hwhole : significand * 2 ^ shift * scale / scale = significand * 2 ^ shift :=
    Nat.mul_div_cancel _ hscale
  have hround : roundQuotient (significand * 2 ^ shift * scale) (scale * Nat.pow 2 shift) =
      significand := by
    have hunit : 0 < scale * 2 ^ shift := Nat.mul_pos hscale (Nat.two_pow_pos _)
    have hexact : significand * 2 ^ shift * scale = significand * (scale * 2 ^ shift) := by ring
    show roundQuotient _ (scale * 2 ^ shift) = significand
    rw [hexact, roundQuotient]
    simp [Nat.mul_div_cancel _ hunit, hunit]
  unfold codeOfUnits
  simp only [hwhole, h.log2_sub_precision hprecision, hround]

end Normal

/-- The magnitude of a code is rounded to the code. -/
theorem code_of_units_of_code (hprecision : 0 < format.precision) {code : Nat}
    (hcode : code ≤ format.infinityCode) {scale : Nat} (hscale : 0 < scale) :
    format.codeOfUnits (format.unitsOfCode code * scale) scale = code := by
  obtain ⟨significand, shift, hnormal, rfl⟩ := format.exists_normal code
  rw [hnormal.units_of_code, hnormal.code_of_units hprecision hscale, Nat.min_eq_right hcode]

/-- A format is wider than another one: it has no fewer bits of significand, no larger smallest
magnitude and exponents enough for the largest finite magnitude. -/
structure Widens (wide narrow : Format) : Prop where
  precision_pos : 0 < narrow.precision
  precision_le : narrow.precision ≤ wide.precision
  exponent_bits_pos : 0 < narrow.exponentBits
  unit_exponent_le : narrow.unitExponent ≤ wide.unitExponent
  exponents_lt : Nat.pow 2 narrow.exponentBits + (wide.unitExponent - narrow.unitExponent) <
    Nat.pow 2 wide.exponentBits

theorem double_widens_single : double.Widens single := by
  constructor <;> decide

/-- A wider format has every finite magnitude. -/
theorem Widens.exists_code {wide narrow : Format} (h : wide.Widens narrow) {code : Nat}
    (hcode : code < narrow.infinityCode) :
    ∃ other < wide.infinityCode, wide.unitsOfCode other =
      narrow.unitsOfCode code * 2 ^ (wide.unitExponent - narrow.unitExponent) := by
  obtain ⟨significand, shift, hnormal, rfl⟩ := narrow.exists_normal code
  have hbinade : narrow.binade ≤ wide.binade :=
    Nat.pow_le_pow_right (by omega) (Nat.sub_le_sub_right h.precision_le 1)
  have hshort := hnormal.short
  obtain ⟨longer, less, hlonger, hless, hunits⟩ := exists_normal_of_short
    (show significand < 2 * wide.binade by omega)
    (shift + (wide.unitExponent - narrow.unitExponent))
  have hshift : shift + 2 ≤ 2 ^ narrow.exponentBits := by
    by_cases hzero : shift = 0
    · have hle := Nat.pow_le_pow_right (show 0 < 2 by omega) h.exponent_bits_pos
      omega
    · have hlong := hnormal.long hzero
      have hlt : (shift + 1) * narrow.binade < (2 ^ narrow.exponentBits - 1) * narrow.binade := by
        rw [Nat.succ_mul]
        exact Nat.lt_of_le_of_lt (by omega) hcode
      have hfactor := Nat.lt_of_mul_lt_mul_right hlt
      omega
  refine ⟨longer + less * wide.binade, ?_, ?_⟩
  · have hexponents : 2 ^ narrow.exponentBits + (wide.unitExponent - narrow.unitExponent) <
        2 ^ wide.exponentBits := h.exponents_lt
    have hfactor : less + 2 ≤ 2 ^ wide.exponentBits - 1 := by omega
    calc longer + less * wide.binade
        < 2 * wide.binade + less * wide.binade := Nat.add_lt_add_right hlonger.short _
      _ = (less + 2) * wide.binade := by ring
      _ ≤ wide.infinityCode := Nat.mul_le_mul_right _ hfactor
  · rw [hlonger.units_of_code, hnormal.units_of_code, hunits, Nat.pow_add, Nat.mul_assoc]

end Format

namespace Binary

variable {format target : Format}

/-- A finite number is converted to the number of the same magnitude, if there is one. -/
theorem convert_eq {number : Binary format} {other : Binary target}
    (hprecision : 0 < target.precision) (hfinite : number.isInfinite = false)
    (hnegative : other.negative = number.negative)
    (hunits : number.units * 2 ^ target.unitExponent = other.units * 2 ^ format.unitExponent) :
    number.convert = other := by
  have hcode : target.codeOfUnits (number.units * 2 ^ target.unitExponent)
      (2 ^ format.unitExponent) = other.code := by
    rw [hunits]
    exact Format.code_of_units_of_code hprecision other.code_le (Nat.two_pow_pos _)
  rw [convert, hfinite, if_neg Bool.false_ne_true]
  exact ext hnegative.symm hcode

/-- A finite number converted to a wider format is finite, and converted back it is the number
again. -/
theorem convert_convert {wide narrow : Format} (h : wide.Widens narrow) {number : Binary narrow}
    (hfinite : number.isInfinite = false) :
    (number.convert : Binary wide).isInfinite = false ∧
      ((number.convert : Binary wide).convert : Binary narrow) = number := by
  have hcode : number.code < narrow.infinityCode := by
    refine Nat.lt_of_le_of_ne number.code_le fun heq => ?_
    simp [isInfinite, heq] at hfinite
  obtain ⟨code, hlt, hunits⟩ := h.exists_code hcode
  let other : Binary wide := ⟨number.negative, code, hlt.le⟩
  have hother : other.isInfinite = false := by simpa [isInfinite, other] using hlt.ne
  have hsame : number.units * 2 ^ wide.unitExponent = other.units * 2 ^ narrow.unitExponent := by
    show _ = wide.unitsOfCode code * 2 ^ narrow.unitExponent
    rw [hunits, Nat.mul_assoc, ← Nat.pow_add, Nat.sub_add_cancel h.unit_exponent_le]
    rfl
  have hwide : (number.convert : Binary wide) = other :=
    convert_eq (Nat.lt_of_lt_of_le h.precision_pos h.precision_le) hfinite rfl hsame
  rw [hwide]
  exact ⟨hother, convert_eq h.precision_pos hother rfl hsame.symm⟩

end Binary

end Numeric

end LayeredShading
