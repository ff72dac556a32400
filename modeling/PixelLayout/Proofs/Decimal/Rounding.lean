import Mathlib
import PixelLayout.Proofs.Decimal.Double

/-!
# Where rounding changes nothing

A product or a quotient is rounded by shifting its mantissa to the right until it is short enough.
Trailing zeros that are shifted out leave no trace. So the result depends on the value alone and
not on how many zeros its mantissa ends in, once the mantissa is long enough; and a value that a
double keeps comes out as that double.
-/

set_option autoImplicit false

namespace PixelLayout.Decimal

open Float.Model Float.Model.UnpackedFloat

theorem log2_mul_two_pow {m : Nat} (pos : 0 < m) (k : Nat) : (m * 2 ^ k).log2 = m.log2 + k := by
  apply log2_of_bounds
  · rw [pow_add]
    exact Nat.mul_le_mul_right _ (Nat.log2_self_le pos.ne')
  · rw [show m.log2 + k + 1 = m.log2 + 1 + k by omega, pow_add]
    exact Nat.mul_lt_mul_of_pos_right Nat.lt_log2_self (Nat.two_pow_pos k)

def untouched (m : Nat) : ExtendedMantissa := ⟨m, false, false⟩

theorem shiftRightOne_double (m : Nat) :
    (untouched (2 * m)).shiftRightOne = untouched m := by
  simp [untouched, ExtendedMantissa.shiftRightOne]

theorem repeat_zeros (m j k : Nat) :
    Nat.repeat ExtendedMantissa.shiftRightOne (k + j) (untouched (m * 2 ^ j)) =
      Nat.repeat ExtendedMantissa.shiftRightOne k (untouched m) := by
  induction k with
  | zero =>
    induction j generalizing m with
    | zero => rw [pow_zero, mul_one]
    | succ j ih =>
      have rest : m * 2 ^ (j + 1) = 2 * m * 2 ^ j := by ring
      calc (Nat.repeat ExtendedMantissa.shiftRightOne (0 + j)
            (untouched (m * 2 ^ (j + 1)))).shiftRightOne
          = (untouched (2 * m)).shiftRightOne := by rw [rest, ih]; rfl
        _ = untouched m := shiftRightOne_double m
  | succ k ih =>
    rw [Nat.succ_add]
    exact congrArg ExtendedMantissa.shiftRightOne ih

theorem target_eq (m : Nat) (e : Int) :
    Format.binary64.targetExponent (totalExponent m e) = max (m.log2 + e - 52) (-1074) := by
  have format : Format.binary64.mantissaBits = 53 ∧ Format.binary64.minExponent = -1074 := by
    decide
  rw [Format.targetExponent, totalExponent, format.1, format.2]
  omega

theorem target_mul_two_pow {m : Nat} (pos : 0 < m) (e : Int) (j : Nat) :
    Format.binary64.targetExponent (totalExponent (m * 2 ^ j) (e - j)) =
      Format.binary64.targetExponent (totalExponent m e) := by
  rw [target_eq, target_eq, log2_mul_two_pow pos]
  omega

theorem Kept.target {m : Nat} {e : Int} (h : Kept m e) :
    Format.binary64.targetExponent (totalExponent m e) = e := by
  have least := h.least
  have short : m.log2 < 53 := (Nat.log2_lt h.pos.ne').mpr h.below
  rw [target_eq]
  rcases h.full with normal | subnormal
  · have := h.log2_add_one.mpr normal
    omega
  · omega

/-- If the last exponent is not below the first, then zeros behind the mantissa do not matter. -/
theorem shift_to_target {m : Nat} {e : Int} (pos : 0 < m) (j : Nat)
    (right : e ≤ Format.binary64.targetExponent (totalExponent m e)) :
    shiftToTargetExponent .binary64 (m * 2 ^ j) (e - j) .exact =
      shiftToTargetExponent .binary64 m e .exact := by
  simp only [shiftToTargetExponent, target_mul_two_pow pos]
  generalize Format.binary64.targetExponent (totalExponent m e) = t at right ⊢
  have amount : (t - (e - j)).toNat = (t - e).toNat + j := by omega
  have same := repeat_zeros m j (t - e).toNat
  simp only [shiftToExponent, amount]
  rw [Prod.mk.injEq]
  exact ⟨same, by push_cast; omega⟩

section Rounding

variable (s : Sign) {m : Nat} {e : Int}

theorem round_zeros (pos : 0 < m) (j : Nat)
    (right : e ≤ Format.binary64.targetExponent (totalExponent m e)) :
    roundWithAccuracy .binary64 s (m * 2 ^ j) (e - j) .exact =
      roundWithAccuracy .binary64 s m e .exact := by
  rw [roundWithAccuracy, shift_to_target pos j right, ← roundWithAccuracy]

theorem shift_kept (h : Kept m e) :
    shiftToTargetExponent .binary64 m e .exact = (untouched m, e) := by
  simp only [shiftToTargetExponent, h.target, shiftToExponent, sub_self, Int.toNat_zero]
  rw [Prod.mk.injEq]
  exact ⟨rfl, add_zero e⟩

/-- A value that a double keeps is rounded to itself. -/
theorem round_kept (h : Kept m e) (j : Nat) :
    roundWithAccuracy .binary64 s (m * 2 ^ j) (e - j) .exact = .finite s m e h.pos := by
  have exact : (untouched m).roundedMantissa = m := rfl
  rw [round_zeros s h.pos j h.target.ge, roundWithAccuracy]
  simp only [shift_kept h, exact]
  exact dif_neg h.pos.ne'

theorem target_of_long (h : 2 ^ 52 ≤ m) :
    e ≤ Format.binary64.targetExponent (totalExponent m e) := by
  have := (Nat.le_log2 (by omega)).mpr h
  rw [target_eq]
  omega

/-- Two mantissas of one value that are both long enough are rounded alike. -/
theorem round_long (i j : Nat) (hi : 2 ^ 52 ≤ m * 2 ^ i) (hj : 2 ^ 52 ≤ m * 2 ^ j) :
    roundWithAccuracy .binary64 s (m * 2 ^ i) (e - i) .exact =
      roundWithAccuracy .binary64 s (m * 2 ^ j) (e - j) .exact := by
  wlog le : i ≤ j generalizing i j
  · exact (this j i hj hi (by omega)).symm
  · have mantissa : m * 2 ^ j = m * 2 ^ i * 2 ^ (j - i) := by
      rw [mul_assoc, ← pow_add, Nat.add_sub_cancel' le]
    have exponent : e - j = e - i - (j - i : Nat) := by omega
    rw [mantissa, exponent, round_zeros s (by omega) _ (target_of_long hi)]

end Rounding

/-! ## Whole numbers -/

theorem normalized_bounds {n : Nat} (pos : 0 < n) (below : n < 2 ^ 53) :
    2 ^ 52 ≤ n * 2 ^ (52 - n.log2) ∧ n * 2 ^ (52 - n.log2) < 2 ^ 53 := by
  have short : n.log2 < 53 := (Nat.log2_lt pos.ne').mpr below
  have some : n * 2 ^ (52 - n.log2) ≠ 0 := (Nat.mul_pos pos (Nat.two_pow_pos _)).ne'
  rw [← Nat.le_log2 some, ← Nat.log2_lt some, log2_mul_two_pow pos]
  omega

/-- A whole number below `2 ^ 53` times a power of two, as a double keeps it. -/
theorem kept_normalized {n : Nat} {k : Int} (pos : 0 < n) (below : n < 2 ^ 53)
    (least : -1022 ≤ k) (most : k ≤ 971) :
    Kept (n * 2 ^ (52 - n.log2)) (k - (52 - n.log2 : Nat)) := by
  obtain ⟨normal, short⟩ := normalized_bounds pos below
  exact ⟨by omega, short, by omega, by omega, .inl normal⟩

def normalized (n : Nat) (k : Int) (h : Kept (n * 2 ^ (52 - n.log2)) (k - (52 - n.log2 : Nat))) :
    Float :=
  double .positive _ _ h

theorem toFloat_eq {n : Nat} (pos : 0 < n) (below : n < 2 ^ 53) :
    n.toUInt64.toFloat =
      normalized n 0 (kept_normalized pos below (by decide) (by decide)) := by
  have h := kept_normalized (k := 0) pos below (by decide) (by decide)
  have bits : n.toUInt64.toNat = n := Nat.mod_eq_of_lt (by omega)
  have short : n.log2 < 53 := (Nat.log2_lt pos.ne').mpr below
  have amount : (0 - Format.binary64.targetExponent (totalExponent n 0)).toNat = 52 - n.log2 := by
    rw [target_eq]
    omega
  have rounded := round_kept .positive h 0
  change (⟨pack (UnpackedFloat.normalize .binary64 (n.toUInt64.toNat : Int) 0 .positive)⟩ :
    Float) = _
  rw [bits, UnpackedFloat.normalize]
  have above : compare (n : Int) 0 = .gt := Int.compare_eq_gt.mpr (by omega)
  simp only [above, Int.toNat_natCast, UnpackedFloat.round, decreaseExponent, amount,
    Nat.shiftLeft_eq]
  simp only [pow_zero, mul_one, Nat.cast_zero, sub_zero] at rounded
  rw [rounded]
  rfl

theorem five_pow_lt {k : Nat} (h : k ≤ 22) : 5 ^ k < 2 ^ 53 :=
  lt_of_le_of_lt (Nat.pow_le_pow_right (by decide) h) (by decide)

theorem powerOfTen_bits : ∀ k : Fin 23, Float.exactlyRepresentablePowersOfTen[k].toBits.toNat =
    ((k.val : Int) - (52 - (5 ^ k.val).log2 : Nat) + 1075).toNat * 2 ^ 52 +
      5 ^ k.val * 2 ^ (52 - (5 ^ k.val).log2) % 2 ^ 52 := by
  decide +kernel

theorem eq_of_toNat_toBits {x y : Float} (h : x.toBits.toNat = y.toBits.toNat) : x = y :=
  eq_of_bits (BitVec.eq_of_toNat_eq h)

/-- The powers of ten up to `10 ^ 22` are kept as they are. -/
theorem powerOfTen_eq {k : Nat} (h : k < 23) : Float.exactlyRepresentablePowersOfTen[k] =
    normalized (5 ^ k) k
      (kept_normalized (by positivity) (five_pow_lt (by omega)) (by omega) (by omega)) := by
  have kept : Kept (5 ^ k * 2 ^ (52 - (5 ^ k).log2)) (k - (52 - (5 ^ k).log2 : Nat)) :=
    kept_normalized (by positivity) (five_pow_lt (by omega)) (by omega) (by omega)
  have normal := (normalized_bounds (n := 5 ^ k) (by positivity) (five_pow_lt (by omega))).1
  apply eq_of_toNat_toBits
  rw [normalized, toNat_toBits_double, if_pos normal]
  exact (powerOfTen_bits ⟨k, h⟩).trans (by simp [Sign.toBitVec])

/-! ## Products and quotients -/

def rounded (m : Nat) (e : Int) : Float := ⟨pack (roundWithAccuracy .binary64 .positive m e .exact)⟩

theorem rounded_kept {m : Nat} {e : Int} (h : Kept m e) (j : Nat) :
    rounded (m * 2 ^ j) (e - j) = double .positive m e h := by
  rw [rounded, round_kept .positive h j]
  rfl

theorem mul_double {m m' : Nat} {e e' : Int} (h : Kept m e) (h' : Kept m' e') :
    double .positive m e h * double .positive m' e' h' = rounded (m * m') (e + e') := by
  change (⟨pack (UnpackedFloat.mul .binary64 (double .positive m e h).toModel.unpack
    (double .positive m' e' h').toModel.unpack)⟩ : Float) = _
  rw [unpack_double, unpack_double]
  rfl

/-- Few digits and a small power of ten: the product of two doubles. -/
theorem ofScientific_short {d s : Nat} (pos : 0 < d) (below : d < 2 ^ 53) (few : s ≤ 22) :
    Float.ofScientific d false s =
      normalized d 0 (kept_normalized pos below (by decide) (by decide)) *
        normalized (5 ^ s) s
          (kept_normalized (by positivity) (five_pow_lt few) (by omega) (by omega)) := by
  rw [← toFloat_eq pos below, ← powerOfTen_eq (by omega)]
  exact dif_pos ⟨below, few⟩

theorem ten_pow (s : Nat) : 10 ^ s = 5 ^ s * 2 ^ s := mul_pow 5 2 s

/-- A positive whole number of units of a power of ten is rounded once. -/
theorem ofScientific_whole {d s : Nat} (pos : 0 < d) (hs : s ≤ 2048) :
    Float.ofScientific d false s = rounded (d * 5 ^ s * 2 ^ (s + 53)) (s - (s + 53 : Nat)) := by
  by_cases short : d < 2 ^ 53 ∧ s ≤ 22
  · obtain ⟨below, few⟩ := short
    have number := (normalized_bounds pos below).1
    have power := (normalized_bounds (n := 5 ^ s) (by positivity) (five_pow_lt few)).1
    have product : d * 2 ^ (52 - d.log2) * (5 ^ s * 2 ^ (52 - (5 ^ s).log2)) =
        d * 5 ^ s * 2 ^ (52 - d.log2 + (52 - (5 ^ s).log2)) := by ring
    have exponent : (0 : Int) - (52 - d.log2 : Nat) + (s - (52 - (5 ^ s).log2 : Nat)) =
        s - (52 - d.log2 + (52 - (5 ^ s).log2) : Nat) := by omega
    have long : 2 ^ 52 ≤ d * 5 ^ s * 2 ^ (52 - d.log2 + (52 - (5 ^ s).log2)) := by
      rw [← product]
      exact number.trans (Nat.le_mul_of_pos_right _ (by omega))
    have long' : 2 ^ 52 ≤ d * 5 ^ s * 2 ^ (s + 53) := by
      have : 0 < d * 5 ^ s * 2 ^ (s + 1) := by positivity
      rw [show s + 53 = 52 + (s + 1) by omega, pow_add, mul_left_comm]
      exact Nat.le_mul_of_pos_right _ this
    rw [ofScientific_short pos below few, normalized, normalized, mul_double, product, exponent,
      rounded, rounded, round_long .positive _ _ long long']
  · have slow : Float.ofScientific d false s = ⟨Float.Model.ofScientific d s⟩ := dif_neg short
    have few : ¬ (s : Int) > 2 ^ 11 := by omega
    have many : ¬ (s : Int) < -(2 ^ 11 + d.log2) := by omega
    have whole : (0 : Int) ≤ s := by omega
    have mantissa : (d <<< 53) * 10 ^ s = d * 5 ^ s * 2 ^ (s + 53) := by
      rw [Nat.shiftLeft_eq, ten_pow]
      ring
    rw [slow, Float.Model.ofScientific, UnpackedFloat.ofScientific, dif_neg pos.ne', if_neg few,
      if_neg many, if_pos whole]
    change rounded ((d <<< 53) * 10 ^ s) (-53 + 0) = _
    rw [mantissa]
    congr 1
    omega

theorem ofScientific_nat {d : Nat} (pos : 0 < d) :
    Float.ofScientific d false 0 = rounded (d * 2 ^ 53) (-53) := by
  have whole := ofScientific_whole pos (Nat.zero_le 2048)
  rw [pow_zero, mul_one, zero_add] at whole
  exact whole

/-- Too large a power of ten makes no finite double. -/
theorem ofScientific_huge {d s : Nat} (pos : 0 < d) (hs : 2048 < s) :
    (Float.ofScientific d false s).isFinite = false := by
  have long : ¬ (d < 2 ^ 53 ∧ s ≤ 22) := by omega
  have slow : Float.ofScientific d false s = ⟨Float.Model.ofScientific d s⟩ := dif_neg long
  have many : (s : Int) > 2 ^ 11 := by omega
  rw [slow, Float.Model.ofScientific, UnpackedFloat.ofScientific, dif_neg pos.ne', if_pos many]
  rfl

section Quotient

variable {m c : Nat} {e : Int}

theorem log2_mul_le (h : Kept m e) (pos : 0 < c) : (m * c).log2 ≤ 53 + c.log2 := by
  have product : m * c < 2 ^ (53 + (c.log2 + 1)) := by
    rw [pow_add]
    exact Nat.mul_lt_mul'' h.below Nat.lt_log2_self
  have := (Nat.log2_lt (Nat.mul_pos h.pos pos).ne').mpr product
  omega

/-- The quotient of two numbers of which the first is the second times a value that a double
keeps: nothing remains. -/
theorem divCore_kept (h : Kept m e) (pos : 0 < c) (a b : Nat) {f g : Int} (value : f - g = e) :
    ∃ j : Nat, divCore .binary64 (m * c * 2 ^ a) (f - a) (c * 2 ^ b) (g - b) =
      (m * 2 ^ j, e - j, .exact) := by
  have least := h.least
  have log := log2_mul_le h pos
  have mpos : 0 < m * c := Nat.mul_pos h.pos pos
  have apart :
      totalExponent (m * c * 2 ^ a) (f - a) - totalExponent (c * 2 ^ b) (g - b) ≤ e + 53 := by
    rw [totalExponent, totalExponent, log2_mul_two_pow mpos, log2_mul_two_pow pos]
    push_cast
    omega
  have target : Format.binary64.targetExponent
      (totalExponent (m * c * 2 ^ a) (f - a) - totalExponent (c * 2 ^ b) (g - b)) ≤ e := by
    have format : Format.binary64.mantissaBits = 53 ∧ Format.binary64.minExponent = -1074 := by
      decide
    rw [Format.targetExponent, format.1, format.2]
    push_cast
    omega
  rw [divCore]
  generalize Format.binary64.targetExponent _ = t at target ⊢
  have start : f - a - (g - b) = e - a + b := by omega
  rw [start]
  generalize hu : min (e - a + b) t = u
  have shifted : (m * c * 2 ^ a) <<< (e - a + b - u).toNat =
      m * 2 ^ (e - u).toNat * (c * 2 ^ b) := by
    have count : a + (e - a + b - u).toNat = (e - u).toNat + b := by omega
    calc (m * c * 2 ^ a) <<< (e - a + b - u).toNat
        = m * c * 2 ^ (a + (e - a + b - u).toNat) := by rw [Nat.shiftLeft_eq, mul_assoc, ← pow_add]
      _ = m * 2 ^ (e - u).toNat * (c * 2 ^ b) := by rw [count]; ring
  have divisor : 0 < c * 2 ^ b := Nat.mul_pos pos (Nat.two_pow_pos b)
  refine ⟨(e - u).toNat, ?_⟩
  simp only [shifted, Nat.mul_mod_left, Nat.mul_div_cancel _ divisor, Prod.mk.injEq]
  exact ⟨trivial, by omega, rfl⟩

theorem div_double {m' : Nat} {e' : Int} (h : Kept m e) (h' : Kept m' e') :
    double .positive m e h / double .positive m' e' h' =
      ⟨pack (UnpackedFloat.div .binary64 (.finite .positive m e h.pos)
        (.finite .positive m' e' h'.pos))⟩ := by
  change (⟨pack (UnpackedFloat.div .binary64 (double .positive m e h).toModel.unpack
    (double .positive m' e' h').toModel.unpack)⟩ : Float) = _
  rw [unpack_double, unpack_double]

theorem div_kept (h : Kept m e) (pos : 0 < c) {a b m₁ m₂ : Nat} {e₁ e₂ f g : Int}
    (h₁ : 0 < m₁) (h₂ : 0 < m₂) (num : m₁ = m * c * 2 ^ a) (den : m₂ = c * 2 ^ b)
    (exp : e₁ = f - a) (exp' : e₂ = g - b) (value : f - g = e) :
    (⟨pack (UnpackedFloat.div .binary64 (.finite .positive m₁ e₁ h₁)
      (.finite .positive m₂ e₂ h₂))⟩ : Float) = double .positive m e h := by
  subst num den exp exp'
  obtain ⟨j, core⟩ := divCore_kept h pos a b value
  rw [UnpackedFloat.div, core]
  exact rounded_kept h j

/-- A value that a double keeps is read from all of its decimal places as that double. -/
theorem ofScientific_places {k : Nat} (h : Kept m (-k)) (pos : 0 < k) :
    Float.ofScientific (m * 5 ^ k) true k = double .positive m (-k) h := by
  have least := h.least
  have five : 0 < 5 ^ k := by positivity
  have some : 0 < m * 5 ^ k := Nat.mul_pos h.pos five
  by_cases short : m * 5 ^ k < 2 ^ 53 ∧ k ≤ 22
  · obtain ⟨below, few⟩ := short
    have index : k < 23 := by omega
    have fast : Float.ofScientific (m * 5 ^ k) true k = (m * 5 ^ k).toUInt64.toFloat /
        Float.exactlyRepresentablePowersOfTen[k] :=
      dif_pos ⟨below, few⟩
    rw [fast, toFloat_eq some below, powerOfTen_eq index, normalized, normalized,
      div_double]
    exact div_kept h five _ _ rfl rfl rfl rfl (by omega)
  · have slow : Float.ofScientific (m * 5 ^ k) true k =
        ⟨Float.Model.ofScientific (m * 5 ^ k) (Int.negOfNat k)⟩ := dif_neg short
    have sign : Int.negOfNat k = -(k : Int) := Int.negOfNat_eq
    have few : ¬ -(k : Int) > 2 ^ 11 := by omega
    have many : ¬ -(k : Int) < -(2 ^ 11 + (m * 5 ^ k).log2) := by omega
    have part : ¬ (0 : Int) ≤ -k := by omega
    have power : 10 ^ (- -(k : Int)).toNat = 5 ^ k * 2 ^ k := by
      rw [neg_neg, Int.toNat_natCast, ten_pow]
    rw [slow, sign, Float.Model.ofScientific, UnpackedFloat.ofScientific, dif_neg some.ne',
      if_neg few, if_neg many, if_neg part]
    exact div_kept h five some _ (by rw [pow_zero, mul_one]) power (sub_zero 0).symm
      (sub_self (k : Int)).symm (zero_sub _)

end Quotient

end PixelLayout.Decimal
