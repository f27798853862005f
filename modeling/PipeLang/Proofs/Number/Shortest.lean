import Mathlib.Data.Nat.Cast.Order.Field
import PipeLang.Proofs.Number.Rounding

/-!
# The shortest decimal rounds to its double

Every decimal that the search tries is tested, so what it finds is in the interval of the
double. It always finds one (`Rounding.isSome_nearest?`) : among the decimals of seventeen
digits, neighbours are closer to each other than the ends of the interval are
(`Rounding.wide_ofFinite`).
-/

namespace PipeLang

namespace Rounding

variable {r : Rounding}

/-! ## Neighbours -/

theorem below_le (hunit : 0 < r.unit) (p : ℤ) :
    (r.below p : ℚ) * 10 ^ p ≤ r.value / r.unit := by
  have hunit' : (0 : ℚ) < r.unit := by exact_mod_cast hunit
  have hscale : (0 : ℚ) < pow10 (-p).toNat := by exact_mod_cast pow10_pos _
  have h : r.below p * (r.unit * pow10 p.toNat) ≤ r.value * pow10 (-p).toNat :=
    Nat.div_mul_le_self _ _
  rw [← pow10_toNat_div, ← mul_div_assoc, div_le_div_iff₀ hscale hunit', mul_assoc,
    mul_comm (pow10 p.toNat : ℚ)]
  exact_mod_cast h

theorem lt_below_succ (hunit : 0 < r.unit) (p : ℤ) :
    (r.value : ℚ) / r.unit < (r.below p + 1 : Nat) * 10 ^ p := by
  have hunit' : (0 : ℚ) < r.unit := by exact_mod_cast hunit
  have hscale : (0 : ℚ) < pow10 (-p).toNat := by exact_mod_cast pow10_pos _
  have h : r.value * pow10 (-p).toNat < (r.below p + 1) * (r.unit * pow10 p.toNat) := by
    rw [mul_comm (r.below p + 1)]
    exact Nat.lt_mul_div_succ _ (Nat.mul_pos hunit (pow10_pos _))
  rw [← pow10_toNat_div, ← mul_div_assoc, div_lt_div_iff₀ hunit' hscale, mul_assoc (Nat.cast _),
    mul_comm (pow10 p.toNat : ℚ)]
  exact_mod_cast h

/-- What is found is in the interval. -/
theorem contains_of_nearest? {tie : Tie} {p : ℤ} {d : Decimal} (h : r.nearest? tie p = some d) :
    r.contains d := by
  unfold nearest? at h
  dsimp only at h
  split at h
  · cases h
  · next hlower _ => exact Option.some.inj h ▸ hlower
  · next _ hupper => exact Option.some.inj h ▸ hupper
  · next hlower hupper =>
    obtain rfl := Option.some.inj h
    split
    · exact hupper
    · exact hlower

/-- Where the grid is finer than the interval is wide, one of the two neighbours is inside. -/
theorem isSome_nearest? (hunit : 0 < r.unit) (hlower : r.lower < r.value / r.unit)
    (hupper : r.value / r.unit < r.upper) {p : ℤ} (hwide : (10 : ℚ) ^ p < r.upper - r.lower)
    (tie : Tie) : (r.nearest? tie p).isSome := by
  have hbelow := below_le hunit p
  have habove := lt_below_succ hunit p
  have hcontains (n : Nat) : r.contains ⟨n, p⟩ = true ↔ r.Includes (n * 10 ^ p) :=
    contains_iff hunit ⟨n, p⟩
  unfold nearest?
  dsimp only
  split
  · next hn hn' =>
    exfalso
    have hdown : (r.below p : ℚ) * 10 ^ p ≤ r.lower := by
      by_contra hinside
      have := (hcontains _).2 (includes_of_lt (not_le.1 hinside) (hbelow.trans_lt hupper))
      exact absurd this (by simp [hn])
    have hup : r.upper ≤ (r.below p + 1 : Nat) * 10 ^ p := by
      by_contra hinside
      have := (hcontains _).2 (includes_of_lt (hlower.trans habove) (not_le.1 hinside))
      exact absurd this (by simp [hn'])
    push_cast at hup
    linarith
  all_goals rfl

/-! ## The first digit -/

/-- The place of the first digit is not too high. -/
theorem zpow_magnitude_le (hvalue : 0 < r.value) (hunit : 0 < r.unit) :
    (10 : ℚ) ^ (r.magnitude - 1) ≤ r.value / r.unit := by
  have hunit' : (0 : ℚ) < r.unit := by exact_mod_cast hunit
  unfold magnitude
  dsimp only
  split_ifs with hwhole
  · generalize hn : (r.unit + r.value - 1) / r.value - 1 = n
    generalize hlength : (Nat.toDigits 10 n).length = k
    have hlt : n < 10 ^ k :=
      (Nat.length_toDigits_le_iff (by decide) (hlength ▸ Nat.length_toDigits_pos)).1 hlength.le
    have hceil : (r.unit + r.value - 1) / r.value < 10 ^ k + 1 := by omega
    have hle : r.unit ≤ 10 ^ k * r.value := by
      have := (Nat.div_lt_iff_lt_mul hvalue).1 hceil
      rw [Nat.add_mul, Nat.one_mul] at this
      omega
    have hpower : (1 : ℤ) - k - 1 = -k := by ring
    rw [hpower, zpow_neg, zpow_natCast, inv_le_iff_one_le_mul₀ (by positivity),
      div_mul_eq_mul_div, le_div_iff₀ hunit', one_mul, mul_comm]
    exact_mod_cast hle
  · generalize hlength : (Nat.toDigits 10 (r.value / r.unit)).length = k
    have hk : 0 < k := hlength ▸ Nat.length_toDigits_pos
    have hle : 10 ^ (k - 1) ≤ r.value / r.unit := by
      by_contra hlt
      obtain hone | hpos := Nat.eq_zero_or_pos (k - 1)
      · rw [hone, pow_zero] at hlt
        exact hlt (Nat.one_le_iff_ne_zero.2 hwhole)
      · have := (Nat.length_toDigits_le_iff (by decide) hpos).2 (not_le.1 hlt)
        omega
    have hpower : (k : ℤ) - 1 = (k - 1 : Nat) := by omega
    rw [hpower, zpow_natCast]
    calc (10 : ℚ) ^ (k - 1) ≤ (r.value / r.unit : Nat) := by exact_mod_cast hle
      _ ≤ r.value / r.unit := Nat.cast_div_le

/-! ## Seventeen digits -/

theorem quarters_lt {m : Nat} {e : ℤ} (h : Canonical m e) :
    4 * m < (2 + reach m e) * 10 ^ 16 := by
  have hm := h.mantissa_lt
  rw [pow2_53] at hm
  unfold reach
  rw [pow2_52]
  split_ifs <;> omega

/-- The interval of a double is wider than the step between decimals of seventeen digits. -/
theorem wide_ofFinite {m : Nat} {e : ℤ} (h : Canonical m e) (hm : 0 < m) :
    (10 : ℚ) ^ ((ofFinite m e).magnitude - 17) < (ofFinite m e).upper - (ofFinite m e).lower := by
  have hstep : (0 : ℚ) < 2 ^ (e - 2) := by positivity
  have hvalue : 0 < (ofFinite m e).value :=
    Nat.mul_pos (Nat.mul_pos (by decide) hm) (pow2_pos _)
  have hfirst := zpow_magnitude_le hvalue (unit_ofFinite_pos m e)
  rw [value_ofFinite] at hfirst
  have hwidth : (ofFinite m e).upper - (ofFinite m e).lower =
      (2 + reach m e : Nat) * 2 ^ (e - 2) := by
    have hreach : reach m e ≤ 4 * m := by
      unfold reach
      split_ifs <;> omega
    rw [upper_ofFinite, lower_ofFinite, Nat.cast_sub hreach]
    push_cast
    ring
  rw [hwidth]
  generalize (ofFinite m e).magnitude = k at hfirst ⊢
  have hpower : (10 : ℚ) ^ (k - 1) = 10 ^ (k - 17) * 10 ^ 16 := by
    rw [← zpow_natCast, ← zpow_add₀ (by norm_num)]
    congr 1
    push_cast
    ring
  refine lt_of_mul_lt_mul_right ?_ (by positivity : (0 : ℚ) ≤ 10 ^ 16)
  calc (10 : ℚ) ^ (k - 17) * 10 ^ 16 ≤ (4 * m : Nat) * 2 ^ (e - 2) := hpower ▸ hfirst
    _ < ((2 + reach m e) * 10 ^ 16 : Nat) * 2 ^ (e - 2) := by
      have := quarters_lt h
      gcongr
    _ = (2 + reach m e : Nat) * 2 ^ (e - 2) * 10 ^ 16 := by
      push_cast
      ring

end Rounding

namespace Decimal

open Rounding

/-- Written with a single digit, a power of ten is the same number. -/
theorem value_carried (n : Nat) (d : Decimal) : (carried n d).value = d.value := by
  unfold carried
  split_ifs with h
  · have hdigits : (d.digits : ℚ) = 10 ^ (n : ℤ) := by
      rw [h]
      exact_mod_cast rfl
    rw [value, value, hdigits, Nat.cast_one, one_mul, zpow_add₀ (by norm_num), mul_comm]
  · rfl

/-- The shortest decimal rounds to the double. -/
theorem includes_shortest {m : Nat} {e : ℤ} (h : Canonical m e) (tie : Tie) :
    (ofFinite m e).Includes (shortest tie m e).value := by
  have hunit := unit_ofFinite_pos m e
  unfold shortest
  split_ifs with hm
  · subst hm
    simpa [value] using includes_self 0 e
  dsimp only
  have hpos : 0 < m := Nat.pos_of_ne_zero hm
  obtain ⟨hlower, hupper⟩ := value_between e hpos
  have hseventeen := isSome_nearest? hunit hlower hupper (wide_ofFinite h hpos) tie
  generalize hsearch : (List.range' 1 17).findSome? _ = found
  cases found with
  | none =>
    have hnone := List.findSome?_eq_none_iff.1 hsearch 17 (by simp)
    rw [Option.map_eq_none_iff] at hnone
    rw [Nat.cast_ofNat] at hnone
    rw [hnone] at hseventeen
    cases hseventeen
  | some d =>
    obtain ⟨n, -, hn⟩ := List.exists_of_findSome?_eq_some hsearch
    obtain ⟨d, hd, rfl⟩ := Option.map_eq_some_iff.1 hn
    rw [Option.getD_some, value_carried]
    exact (contains_iff hunit d).1 (contains_of_nearest? hd)

end Decimal

end PipeLang
