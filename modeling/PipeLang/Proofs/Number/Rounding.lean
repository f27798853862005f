import Mathlib.Algebra.Order.Field.Power
import Mathlib.Algebra.Order.Field.Rat
import Mathlib.Tactic.Linarith
import Mathlib.Tactic.Ring
import Mathlib.Tactic.FieldSimp
import Mathlib.Tactic.SplitIfs
import PipeLang.Number.Shortest

/-!
# What rounds to a double

A finite double is `m · 2 ^ e` in one way only (`Canonical`, `Binary.eq_of_ofFloat`). The
interval of the numbers that round to it is computed with naturals; `Rounding.Includes` says
the same of rational numbers.

The intervals of two doubles have no number in common (`Rounding.eq_of_includes`). Where they
touch, the mantissas are neighbours, so one of them is odd and its interval is without its ends.
-/

namespace PipeLang

/-! ## Powers -/

/-- A power with an integer exponent is a quotient of two natural powers, one of which is 1. -/
theorem pow_toNat_div (b : ℚ) (k : ℤ) : b ^ k.toNat / b ^ (-k).toNat = b ^ k := by
  obtain ⟨n, rfl | rfl⟩ := k.eq_nat_or_neg <;> simp

theorem pow2_toNat_div (k : ℤ) : (pow2 k.toNat : ℚ) / pow2 (-k).toNat = 2 ^ k := by
  exact_mod_cast pow_toNat_div 2 k

theorem pow10_toNat_div (k : ℤ) : (pow10 k.toNat : ℚ) / pow10 (-k).toNat = 10 ^ k := by
  exact_mod_cast pow_toNat_div 10 k

theorem pow2_pos (n : Nat) : 0 < pow2 n := Nat.two_pow_pos n

theorem pow10_pos (n : Nat) : 0 < pow10 n := Nat.pow_pos (by decide)

theorem pow2_52 : pow2 52 = 4503599627370496 := rfl

theorem pow2_53 : pow2 53 = 9007199254740992 := rfl

/-! ## Doubles -/

/-- The mantissa and the exponent of a finite double. Only the least exponent is without the
hidden bit. -/
structure Canonical (m : Nat) (e : ℤ) : Prop where
  mantissa_lt : m < pow2 53
  le_exponent : -1074 ≤ e
  hidden : e ≠ -1074 → pow2 52 ≤ m

namespace Binary

variable {bits bits' : Nat} {n : Bool} {m : Nat} {e : ℤ}

/-- The fields of a finite double : below the hidden bit, or with it. -/
theorem fields_of_ofBits (h : ofBits bits = finite n m e) :
    (bits / pow2 63 % 2 == 1) = n ∧ bits / pow2 52 % pow2 11 ≠ 2047 ∧
      (bits / pow2 52 % pow2 11 = 0 ∧ m = bits % pow2 52 ∧ e = -1074 ∨
        bits / pow2 52 % pow2 11 ≠ 0 ∧ m = pow2 52 + bits % pow2 52 ∧
          e = (bits / pow2 52 % pow2 11 : Nat) - 1075) := by
  unfold ofBits at h
  dsimp only at h
  split_ifs at h with hspecial _ hzero
  · obtain ⟨rfl, rfl, rfl⟩ := finite.inj h
    exact ⟨rfl, hspecial, .inl ⟨hzero, rfl, rfl⟩⟩
  · obtain ⟨rfl, rfl, rfl⟩ := finite.inj h
    exact ⟨rfl, hspecial, .inr ⟨hzero, rfl, rfl⟩⟩

/-- The mantissa of a finite double has the hidden bit, unless the exponent is the least one. -/
theorem canonical_ofBits (h : ofBits bits = finite n m e) : Canonical m e := by
  have hfraction : bits % pow2 52 < pow2 52 := Nat.mod_lt _ (pow2_pos 52)
  obtain ⟨-, -, ⟨-, rfl, rfl⟩ | ⟨hbiased, rfl, rfl⟩⟩ := fields_of_ofBits h
  · exact ⟨hfraction.trans (by decide), le_rfl, fun hne => absurd rfl hne⟩
  · refine ⟨?_, by omega, fun _ => Nat.le_add_right ..⟩
    rw [pow2_52] at hfraction ⊢
    rw [pow2_53]
    omega

/-- A finite double determines its bits. -/
theorem bits_eq_of_ofBits (hbits : bits < pow2 64) (hbits' : bits' < pow2 64)
    (h : ofBits bits = finite n m e) (h' : ofBits bits' = finite n m e) : bits = bits' := by
  obtain ⟨hsign, -, hfields⟩ := fields_of_ofBits h
  obtain ⟨hsign', -, hfields'⟩ := fields_of_ofBits h'
  have hsign : bits / pow2 63 % 2 = bits' / pow2 63 % 2 := by
    have heq := hsign.trans hsign'.symm
    rw [Bool.eq_iff_iff, beq_iff_eq, beq_iff_eq] at heq
    omega
  have hfraction : bits % pow2 52 < pow2 52 := Nat.mod_lt _ (pow2_pos 52)
  have hfraction' : bits' % pow2 52 < pow2 52 := Nat.mod_lt _ (pow2_pos 52)
  have h11 : pow2 11 = 2048 := rfl
  have h63 : pow2 63 = 9223372036854775808 := rfl
  have h64 : pow2 64 = 18446744073709551616 := rfl
  rw [h64] at hbits hbits'
  rw [h63] at hsign
  rw [pow2_52, h11] at hfields hfields'
  omega

/-- A double has 64 bits. -/
theorem bits_lt (x : Float) : x.toBits.toNat < pow2 64 := x.toBits.toNat_lt

/-- Every finite double has a canonical mantissa and exponent. -/
theorem canonical_ofFloat {x : Float} (h : ofFloat x = finite n m e) : Canonical m e :=
  canonical_ofBits h

/-- A finite double is one number only. -/
theorem eq_of_ofFloat {x y : Float} (hx : ofFloat x = finite n m e)
    (hy : ofFloat y = finite n m e) : x = y := by
  have hbits : x.toBits = y.toBits :=
    UInt64.toNat_inj.1 (bits_eq_of_ofBits (bits_lt x) (bits_lt y) hx hy)
  obtain ⟨⟨_, _⟩⟩ := x
  obtain ⟨⟨_, _⟩⟩ := y
  cases hbits
  rfl

end Binary

/-- The number is neither an infinity nor what is no number. -/
def Number.IsFinite (x : Float) : Prop := ∃ n m e, Binary.ofFloat x = .finite n m e

instance (x : Float) : Decidable (Number.IsFinite x) :=
  match h : Binary.ofFloat x with
  | .finite n m e => isTrue ⟨n, m, e, h⟩
  | .nan | .infinite _ => isFalse fun ⟨_, _, _, hx⟩ => nomatch h.symm.trans hx

/-! ## Intervals -/

/-- The number that a decimal is. -/
def Decimal.value (d : Decimal) : ℚ := d.digits * 10 ^ d.power

namespace Rounding

/-- The lower end of the interval. -/
def lower (r : Rounding) : ℚ := r.low / r.unit

/-- The upper end of the interval. -/
def upper (r : Rounding) : ℚ := r.high / r.unit

/-- The number lies in the interval. -/
def Includes (r : Rounding) (q : ℚ) : Prop :=
  if r.closed then r.lower ≤ q ∧ q ≤ r.upper else r.lower < q ∧ q < r.upper

/-- What is inside is not below the lower end, whether the ends count or not. -/
theorem Includes.lower_le {r : Rounding} {q : ℚ} (h : r.Includes q) : r.lower ≤ q := by
  unfold Includes at h
  split_ifs at h
  · exact h.1
  · exact h.1.le

/-- Nor above the upper end. -/
theorem Includes.le_upper {r : Rounding} {q : ℚ} (h : r.Includes q) : q ≤ r.upper := by
  unfold Includes at h
  split_ifs at h
  · exact h.2
  · exact h.2.le

/-- Strictly between the ends is inside. -/
theorem includes_of_lt {r : Rounding} {q : ℚ} (hlower : r.lower < q) (hupper : q < r.upper) :
    r.Includes q := by
  unfold Includes
  split_ifs
  · exact ⟨hlower.le, hupper.le⟩
  · exact ⟨hlower, hupper⟩

/-- The test on naturals is the test on the number. -/
theorem contains_iff {r : Rounding} (hunit : 0 < r.unit) (d : Decimal) :
    r.contains d ↔ r.Includes d.value := by
  have hunit : (0 : ℚ) < r.unit := by exact_mod_cast hunit
  have hscale : (0 : ℚ) < pow10 (-d.power).toNat := by exact_mod_cast pow10_pos _
  -- Both sides, times the unit and the scale, are the naturals that are compared.
  have hvalue : d.value = d.digits * pow10 d.power.toNat / pow10 (-d.power).toNat := by
    rw [Decimal.value, ← pow10_toNat_div, mul_div_assoc]
  have hle (a : Nat) : (a : ℚ) / r.unit ≤ d.value ↔
      a * pow10 (-d.power).toNat ≤ d.digits * pow10 d.power.toNat * r.unit := by
    rw [hvalue, div_le_div_iff₀ hunit hscale]
    exact_mod_cast Iff.rfl
  have hge (a : Nat) : d.value ≤ (a : ℚ) / r.unit ↔
      d.digits * pow10 d.power.toNat * r.unit ≤ a * pow10 (-d.power).toNat := by
    rw [hvalue, div_le_div_iff₀ hscale hunit]
    exact_mod_cast Iff.rfl
  unfold contains Includes lower upper
  dsimp only
  split_ifs with hclosed
  · rw [Bool.and_eq_true, decide_eq_true_iff, decide_eq_true_iff, hle, hge]
  · rw [Bool.and_eq_true, decide_eq_true_iff, decide_eq_true_iff, ← not_le, ← not_le, ← hge, ← hle,
      not_le, not_le]

/-! ## The interval of a double -/

variable (m m' : Nat) (e e' : ℤ)

/-- How far the interval goes down, in quarters of a step. -/
def reach : Nat := if m = pow2 52 ∧ e ≠ -1074 then 1 else 2

theorem unit_ofFinite_pos : 0 < (ofFinite m e).unit := pow2_pos _

/-- Numerators over the unit are quarters of a step. -/
theorem scaled_div_unit (a : Nat) :
    ((a * pow2 (e - 2).toNat : Nat) : ℚ) / (ofFinite m e).unit = a * 2 ^ (e - 2) := by
  rw [← pow2_toNat_div (e - 2), Nat.cast_mul, mul_div_assoc, neg_sub]
  rfl

/-- The lower end is two quarters of a step down, or one quarter down from a power of two. -/
theorem lower_ofFinite :
    (ofFinite m e).lower = (4 * m - reach m e : Nat) * 2 ^ (e - 2) :=
  scaled_div_unit m e _

/-- The upper end is half a step up. -/
theorem upper_ofFinite : (ofFinite m e).upper = (4 * m + 2 : Nat) * 2 ^ (e - 2) :=
  scaled_div_unit m e _

/-- The double itself is `4 * m` quarters of a step. -/
theorem value_ofFinite :
    ((ofFinite m e).value : ℚ) / (ofFinite m e).unit = (4 * m : Nat) * 2 ^ (e - 2) :=
  scaled_div_unit m e _

/-- A double in quarters of its step. -/
theorem mul_zpow_eq_quarters : (m : ℚ) * 2 ^ e = (4 * m : Nat) * 2 ^ (e - 2) := by
  rw [zpow_sub₀ two_ne_zero]
  push_cast
  ring

/-- The ends belong to the interval of an even mantissa. -/
theorem closed_ofFinite : (ofFinite m e).closed = true ↔ m % 2 = 0 := beq_iff_eq

variable {m} in
/-- A positive double lies strictly between the ends of its interval. -/
theorem value_between (hm : 0 < m) :
    (ofFinite m e).lower < (ofFinite m e).value / (ofFinite m e).unit ∧
      (ofFinite m e).value / (ofFinite m e).unit < (ofFinite m e).upper := by
  have hstep : (0 : ℚ) < 2 ^ (e - 2) := by positivity
  have hreach : 0 < reach m e := by
    unfold reach
    split_ifs <;> decide
  rw [value_ofFinite, lower_ofFinite, upper_ofFinite]
  constructor <;> gcongr <;> omega

/-- A double lies in its own interval. -/
theorem includes_self : (ofFinite m e).Includes (m * 2 ^ e) := by
  rw [mul_zpow_eq_quarters, ← value_ofFinite]
  obtain rfl | hm := Nat.eq_zero_or_pos m
  · have hclosed : (ofFinite 0 e).closed = true := rfl
    rw [Includes, if_pos hclosed, value_ofFinite, lower_ofFinite, upper_ofFinite]
    constructor <;> gcongr <;> omega
  · obtain ⟨hlower, hupper⟩ := value_between e hm
    exact includes_of_lt hlower hupper

variable {m m' e e'}

/-- From one mantissa up to the next, in quarters of the smaller step. -/
theorem quarters_le {k : Nat} (h : Canonical m e) (h' : Canonical m' (e + k))
    (hlt : 0 < k ∨ m < m') : 4 * m + 2 ≤ (4 * m' - reach m' (e + k)) * pow2 k ∧
      (m % 2 = 0 → m' % 2 = 0 → 4 * m + 2 < (4 * m' - reach m' (e + k)) * pow2 k) := by
  obtain ⟨hm, he, hhidden⟩ := h
  obtain ⟨hm', he', hhidden'⟩ := h'
  rw [pow2_53] at hm hm'
  rw [pow2_52] at hhidden hhidden'
  unfold reach
  rw [pow2_52]
  cases k with
  | zero =>
    have hpow : pow2 0 = 1 := rfl
    rw [hpow]
    split_ifs <;> omega
  | succ k =>
    -- The mantissa above has its hidden bit, and two quarters there are four here.
    have hpow : pow2 (k + 1) = pow2 k * 2 := rfl
    have hpos := pow2_pos k
    have hnormal : 4503599627370496 ≤ m' := hhidden' (by omega)
    have htwo (a : Nat) : a * 2 ≤ a * pow2 (k + 1) := by
      rw [hpow]
      exact Nat.mul_le_mul_left a (by omega)
    split_ifs
    · have := htwo (4 * m' - 1)
      omega
    · have := htwo (4 * m' - 2)
      omega

/-- The interval of a smaller double lies below, and the two touch only where one is without
its ends. -/
theorem upper_le_lower {k : Nat} (h : Canonical m e) (h' : Canonical m' (e + k))
    (hlt : 0 < k ∨ m < m') :
    (ofFinite m e).upper ≤ (ofFinite m' (e + k)).lower ∧
      (m % 2 = 0 → m' % 2 = 0 → (ofFinite m e).upper < (ofFinite m' (e + k)).lower) := by
  have hstep : (0 : ℚ) < 2 ^ (e - 2) := by positivity
  have hlower : (ofFinite m' (e + k)).lower =
      ((4 * m' - reach m' (e + k)) * pow2 k : Nat) * 2 ^ (e - 2) := by
    have hpow : (pow2 k : ℚ) = 2 ^ (k : ℤ) := by exact_mod_cast rfl
    rw [lower_ofFinite, Nat.cast_mul, hpow, mul_assoc, ← zpow_add₀ two_ne_zero]
    congr 2
    ring
  obtain ⟨hle, hne⟩ := quarters_le h h' hlt
  rw [hlower, upper_ofFinite]
  refine ⟨?_, fun heven heven' => ?_⟩
  · gcongr
  · have := hne heven heven'
    gcongr

/-- No number rounds to a double and to a greater one. -/
theorem not_includes_of_lt {k : Nat} {q : ℚ} (h : Canonical m e) (h' : Canonical m' (e + k))
    (hlt : 0 < k ∨ m < m') (hq : (ofFinite m e).Includes q) :
    ¬ (ofFinite m' (e + k)).Includes q := by
  intro hq'
  obtain ⟨hle, hne⟩ := upper_le_lower h h' hlt
  have htouch : (ofFinite m' (e + k)).lower ≤ (ofFinite m e).upper :=
    hq'.lower_le.trans hq.le_upper
  -- So the intervals touch, and one of the two is without its end.
  have hodd : ¬ (m % 2 = 0 ∧ m' % 2 = 0) := fun heven => (hne heven.1 heven.2).not_ge htouch
  rw [← closed_ofFinite m e, ← closed_ofFinite m' (e + k)] at hodd
  unfold Includes at hq hq'
  split_ifs at hq hq' with hclosed hclosed'
  · exact hodd ⟨hclosed, hclosed'⟩
  · linarith [hq.2, hq'.1]
  · linarith [hq.2, hq'.1]
  · linarith [hq.2, hq'.1]

/-- A number rounds to one double only. -/
theorem eq_of_includes {q : ℚ} (h : Canonical m e) (h' : Canonical m' e')
    (hq : (ofFinite m e).Includes q) (hq' : (ofFinite m' e').Includes q) :
    m = m' ∧ e = e' := by
  wlog hle : e ≤ e' generalizing m m' e e'
  · obtain ⟨hm, he⟩ := this h' h hq' hq (le_of_not_ge hle)
    exact ⟨hm.symm, he.symm⟩
  obtain ⟨k, rfl⟩ := Int.le.dest hle
  have hk : ¬ (0 < k ∨ m < m') := fun hlt => not_includes_of_lt h h' hlt hq hq'
  obtain rfl : k = 0 := by omega
  have hle' : ¬ m' < m := by
    intro hlt
    rw [Nat.cast_zero, add_zero] at h' hq'
    have h0 : Canonical m (e + (0 : Nat)) := by simpa using h
    exact not_includes_of_lt h' h0 (.inr hlt) hq' (by simpa using hq)
  exact ⟨by omega, by simp⟩

end Rounding

end PipeLang
