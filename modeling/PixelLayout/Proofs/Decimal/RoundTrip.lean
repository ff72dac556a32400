import Mathlib
import PixelLayout.Decimal.Shortest
import PixelLayout.Proofs.Decimal.Rounding

/-!
# What is written is read back

The text of a finite double reads as that double. A numeral that is tried on a grid is taken only
if it reads back, and the value written out in full is rounded to itself. The positional text keeps
the digits of a numeral with a point; without one the power of ten turns into zeros, which does not
change the value that is rounded. The sign is written and read apart, that of zero too.
-/

set_option autoImplicit false

namespace PixelLayout.Decimal

open Float.Model.UnpackedFloat (Sign)

/-! ## Digits -/

def Digits (cs : List Char) : Prop := ∀ c ∈ cs, isDigit c = true

theorem digits_digitsOf (n : Nat) : Digits (digitsOf n) := by
  intro c hc
  exact Nat.isDigit_of_mem_toDigits (by decide) (by decide) hc

theorem digits_zeros (k : Nat) : Digits (List.replicate k '0') := by
  intro c hc
  rw [List.eq_of_mem_replicate hc]
  decide

theorem Digits.append {cs ds : List Char} (hc : Digits cs) (hd : Digits ds) : Digits (cs ++ ds) :=
  fun c h => (List.mem_append.mp h).elim (hc c) (hd c)

theorem natOf_digitsOf (n : Nat) : natOf (digitsOf n) = n :=
  Nat.ofDigitChars_toDigits (by decide) (by decide)

theorem natOf_append_zeros (cs : List Char) (k : Nat) :
    natOf (cs ++ List.replicate k '0') = natOf cs * 10 ^ k := by
  change Nat.ofDigitChars 10 (cs ++ List.replicate k '0') 0 = _
  rw [Nat.ofDigitChars_append, Nat.ofDigitChars_replicate_zero, Nat.mul_comm]
  rfl

theorem natOf_zeros_append (cs : List Char) (k : Nat) :
    natOf (List.replicate k '0' ++ cs) = natOf cs := by
  change Nat.ofDigitChars 10 (List.replicate k '0' ++ cs) 0 = _
  rw [Nat.ofDigitChars_append, Nat.ofDigitChars_replicate_zero, Nat.mul_zero]
  rfl

section Unsigned

variable (negative : Bool) {whole fraction : List Char}

theorem unsigned?_whole (hw : Digits whole) (begun : whole ≠ []) :
    unsigned? negative whole = some ⟨negative, natOf whole, 0⟩ := by
  have taken : whole.takeWhile isDigit = whole := List.takeWhile_eq_self_iff.mpr hw
  have dropped : whole.dropWhile isDigit = [] := List.dropWhile_eq_nil_iff.mpr hw
  simp [unsigned?, taken, dropped, takeFraction, exponent?, begun]

theorem unsigned?_point (hw : Digits whole) (hf : Digits fraction) (begun : whole ≠ []) :
    unsigned? negative (whole ++ '.' :: fraction) =
      some ⟨negative, natOf (whole ++ fraction), -fraction.length⟩ := by
  have point : isDigit '.' = false := by decide
  have taken : (whole ++ '.' :: fraction).takeWhile isDigit = whole := by
    rw [List.takeWhile_append_of_pos hw, List.takeWhile_cons_of_neg (by simp [point]),
      List.append_nil]
  have dropped : (whole ++ '.' :: fraction).dropWhile isDigit = '.' :: fraction := by
    rw [List.dropWhile_append_of_pos hw, List.dropWhile_cons_of_neg (by simp [point])]
  have taken' : fraction.takeWhile isDigit = fraction := List.takeWhile_eq_self_iff.mpr hf
  have dropped' : fraction.dropWhile isDigit = [] := List.dropWhile_eq_nil_iff.mpr hf
  simp [unsigned?, taken, dropped, takeFraction, taken', dropped', exponent?, begun]

end Unsigned

/-! ## The positional text -/

/-- The digits on both sides of where a point is set. -/
theorem positional_eq (n : Numeral) : ∃ whole fraction : List Char,
    Digits whole ∧ Digits fraction ∧ whole ≠ [] ∧
    natOf (whole ++ fraction) = n.digits * 10 ^ n.scale.toNat ∧
    min n.scale 0 = -fraction.length ∧
    positional n = whole ++ if 0 ≤ n.scale then [] else '.' :: fraction := by
  by_cases above : 0 ≤ n.scale
  · refine ⟨digitsOf n.digits ++ List.replicate n.scale.toNat '0', [],
      (digits_digitsOf _).append (digits_zeros _), by simp [Digits],
      List.append_ne_nil_of_left_ne_nil Nat.toDigits_ne_nil _, ?_, ?_, ?_⟩
    · rw [List.append_nil, natOf_append_zeros, natOf_digitsOf]
    · simpa using above
    · rw [positional, if_pos above, if_pos above, List.append_nil]
  · let ds := List.replicate (n.scale.natAbs + 1 - (digitsOf n.digits).length) '0' ++
      digitsOf n.digits
    have length : n.scale.natAbs + 1 ≤ ds.length := by
      simp only [ds, List.length_append, List.length_replicate]
      omega
    have digits : Digits ds := (digits_zeros _).append (digits_digitsOf _)
    have part : n.scale.toNat = 0 := by omega
    refine ⟨ds.take (ds.length - n.scale.natAbs), ds.drop (ds.length - n.scale.natAbs),
      fun c hc => digits c (List.mem_of_mem_take hc),
      fun c hc => digits c (List.mem_of_mem_drop hc), ?_, ?_, ?_, ?_⟩
    · rw [← List.length_pos_iff, List.length_take]
      omega
    · rw [List.take_append_drop, natOf_zeros_append, natOf_digitsOf, part, pow_zero, mul_one]
    · rw [List.length_drop]
      omega
    · rw [positional, if_neg above, if_neg above]

theorem unsigned?_positional (negative : Bool) (n : Numeral) :
    unsigned? negative (positional n) =
      some ⟨negative, n.digits * 10 ^ n.scale.toNat, min n.scale 0⟩ := by
  obtain ⟨whole, fraction, hw, hf, some, digits, scale, text⟩ := positional_eq n
  rw [text, ← digits, scale]
  split_ifs with above
  · have none : fraction = [] := by
      rw [← List.length_eq_zero_iff]
      omega
    subst none
    rw [List.append_nil]
    exact unsigned?_whole negative hw some
  · exact unsigned?_point negative hw hf some

theorem takeSign_positional (n : Numeral) : takeSign (positional n) = (false, positional n) := by
  obtain ⟨whole, fraction, hw, -, some, -, -, text⟩ := positional_eq n
  obtain ⟨c, cs, rfl⟩ := List.exists_cons_of_ne_nil some
  have digit : isDigit c = true := hw c List.mem_cons_self
  rw [text, List.cons_append, takeSign]
  · rintro rest same
    obtain ⟨rfl, -⟩ := List.cons.inj same
    cases digit
  · rintro rest same
    obtain ⟨rfl, -⟩ := List.cons.inj same
    cases digit

def signText (negative : Bool) : List Char := if negative then ['-'] else []

theorem numeral?_positional (negative : Bool) (n : Numeral) :
    numeral? (signText negative ++ positional n) =
      some ⟨negative, n.digits * 10 ^ n.scale.toNat, min n.scale 0⟩ := by
  rw [← unsigned?_positional]
  cases negative with
  | true => rfl
  | false =>
    rw [signText, if_neg Bool.false_ne_true, List.nil_append, numeral?, takeSign_positional]

/-! ## The value -/

theorem ofScientific_zero_few : ∀ (below : Bool) (s : Fin 23),
    (Float.ofScientific 0 below s).toBits.toNat = (signedZero .positive).toBits.toNat := by
  decide +kernel

/-- No digits are a positive zero. -/
theorem ofScientific_zero (below : Bool) (s : Nat) :
    Float.ofScientific 0 below s = signedZero .positive := by
  by_cases few : s ≤ 22
  · exact eq_of_toNat_toBits (ofScientific_zero_few below ⟨s, by omega⟩)
  · have short : ¬ (0 < 2 ^ 53 ∧ s ≤ 22) := by omega
    have slow : Float.ofScientific 0 below s =
        ⟨Float.Model.ofScientific 0 (if below then Int.negOfNat s else Int.ofNat s)⟩ :=
      dif_neg short
    rw [slow, Float.Model.ofScientific, Float.Model.UnpackedFloat.ofScientific, dif_pos rfl]
    rfl

theorem signed_false (x : Float) : signed false x = x := rfl

/-- A numeral is read in one of two ways, by the sign of its scale. -/
theorem toFloat_whole (negative : Bool) (d s : Nat) :
    (Numeral.mk negative d s).toFloat = signed negative (Float.ofScientific d false s) := by
  have whole : decide ((s : Int) < 0) = false := decide_eq_false (by omega)
  unfold Numeral.toFloat
  dsimp only
  rw [whole, Int.natAbs_natCast]

theorem toFloat_places (negative : Bool) (d : Nat) {s : Int} (below : s < 0) :
    (Numeral.mk negative d s).toFloat = signed negative (Float.ofScientific d true s.natAbs) := by
  unfold Numeral.toFloat
  dsimp only
  rw [decide_eq_true below]

theorem readsBack?_eq_some {x : Float} {digits : Nat} {scale : Int} {n : Numeral}
    (h : readsBack? x digits scale = some n) : n.negative = false ∧ n.toFloat = x := by
  unfold readsBack? at h
  by_cases reads : (Numeral.mk false digits scale).toFloat = x
  · rw [if_pos reads] at h
    obtain rfl := Option.some.inj h
    exact ⟨rfl, reads⟩
  · rw [if_neg reads] at h
    exact absurd h.symm (Option.some_ne_none n)

theorem onGrid?_eq_some {x : Float} {r : Ratio} {scale : Int} {n : Numeral}
    (h : onGrid? x r scale = some n) : n.negative = false ∧ n.toFloat = x := by
  unfold onGrid? at h
  generalize r.scaled scale = s at h
  dsimp only at h
  by_cases near : s.nearFloor = true
  · rw [if_pos near] at h
    rcases Option.or_eq_some_iff.mp h with low | ⟨-, high⟩
    · exact readsBack?_eq_some low
    · exact readsBack?_eq_some high
  · rw [if_neg near] at h
    rcases Option.or_eq_some_iff.mp h with high | ⟨-, low⟩
    · exact readsBack?_eq_some high
    · exact readsBack?_eq_some low

-- The equation is between functions: at an argument, the kernel would run the search in order to
-- compare its two sides.
theorem shortest_eq : shortest = fun x : Float =>
    match (List.range 18).findSome? fun n : Nat =>
        onGrid? x (Ratio.ofBinary (Binary.of x)) (magnitude (Ratio.ofBinary (Binary.of x)) - n) with
    | some n => n
    | none => exact (Ratio.ofBinary (Binary.of x)) (Binary.of x).power := by
  delta shortest
  rfl

/-- The shortest numeral is one that was tried on a grid, or else all of the digits. -/
theorem shortest_cases (x : Float) :
    (∃ scale, onGrid? x (Ratio.ofBinary (Binary.of x)) scale = some (shortest x)) ∨
      shortest x = exact (Ratio.ofBinary (Binary.of x)) (Binary.of x).power := by
  rw [shortest_eq]
  dsimp only
  generalize Binary.of x = b
  generalize magnitude (Ratio.ofBinary b) = top
  cases found : (List.range 18).findSome? fun n : Nat => onGrid? x (Ratio.ofBinary b) (top - n) with
  | some n =>
    obtain ⟨i, -, grid⟩ := List.exists_of_findSome?_eq_some found
    exact .inl ⟨_, grid⟩
  | none => exact .inr rfl

section Magnitude

variable {m : Nat} {e : Int} (h : Kept m e)

theorem digits_pos {n : Numeral} (unsigned : n.negative = false)
    (value : n.toFloat = double .positive m e h) : 0 < n.digits := by
  obtain ⟨negative, digits, scale⟩ := n
  obtain rfl : negative = false := unsigned
  by_contra none
  obtain rfl : digits = 0 := Nat.eq_zero_of_not_pos none
  apply double_ne_zero .positive .positive h
  rw [← value, Numeral.toFloat]
  dsimp only
  rw [ofScientific_zero, signed_false]

/-- The zeros in place of a power of ten do not change what a numeral reads as. -/
theorem toFloat_spread {n : Numeral} (unsigned : n.negative = false)
    (value : n.toFloat = double .positive m e h) (negative : Bool) :
    (Numeral.mk negative (n.digits * 10 ^ n.scale.toNat) (min n.scale 0)).toFloat =
      signed negative (double .positive m e h) := by
  have some := digits_pos h unsigned value
  obtain ⟨negative', d, scale⟩ := n
  obtain rfl : negative' = false := unsigned
  change 0 < d at some
  dsimp only
  by_cases below : scale < 0
  · have part : scale.toNat = 0 := by omega
    rw [toFloat_places _ _ below, signed_false] at value
    rw [part, pow_zero, mul_one, min_eq_left below.le, toFloat_places _ _ below, value]
  · obtain ⟨s, rfl⟩ := Int.eq_ofNat_of_zero_le (by omega : 0 ≤ scale)
    rw [toFloat_whole, signed_false] at value
    have few : s ≤ 2048 := by
      by_contra many
      have finite := isFinite_double .positive h
      rw [← value, ofScientific_huge some (by omega)] at finite
      cases finite
    have spread : 0 < d * 10 ^ s := by positivity
    have mantissa : d * 10 ^ s * 2 ^ 53 = d * 5 ^ s * 2 ^ (s + 53) := by
      rw [ten_pow]
      ring
    have exponent : (-53 : Int) = s - (s + 53 : Nat) := by omega
    have units : min (s : Int) 0 = (0 : Nat) := by omega
    rw [Int.toNat_natCast, units, toFloat_whole, ofScientific_nat spread, mantissa, exponent,
      ← ofScientific_whole some few, value]

theorem exact_reads (negative : Bool) :
    (exact (Ratio.ofBinary ⟨negative, m, e⟩) e).negative = false ∧
      (exact (Ratio.ofBinary ⟨negative, m, e⟩) e).toFloat = double .positive m e h := by
  have pos := h.pos
  unfold exact Ratio.ofBinary
  dsimp only
  by_cases whole : 0 ≤ e
  · obtain ⟨k, rfl⟩ := Int.eq_ofNat_of_zero_le whole
    rw [if_pos whole, if_pos whole]
    refine ⟨rfl, ?_⟩
    have some : 0 < m * 2 ^ k := Nat.mul_pos pos (Nat.two_pow_pos k)
    have mantissa : m * 2 ^ k * 2 ^ 53 = m * 2 ^ (k + 53) := by ring
    have exponent : (-53 : Int) = k - (k + 53 : Nat) := by omega
    calc (Numeral.mk false (m * 2 ^ k) (0 : Nat)).toFloat
        = Float.ofScientific (m * 2 ^ k) false 0 := toFloat_whole false _ 0
      _ = rounded (m * 2 ^ k * 2 ^ 53) (-53) := ofScientific_nat some
      _ = rounded (m * 2 ^ (k + 53)) (k - (k + 53 : Nat)) := by rw [mantissa, exponent]
      _ = double .positive m k h := rounded_kept h (k + 53)
  · have below : e < 0 := by omega
    obtain ⟨k, rfl⟩ := Int.exists_eq_neg_ofNat below.le
    have places : (-(k : Int)).natAbs = k := by omega
    rw [if_neg whole, if_neg whole, places]
    refine ⟨rfl, ?_⟩
    calc (Numeral.mk false (m * 5 ^ k) (-k)).toFloat
        = Float.ofScientific (m * 5 ^ k) true k := by
          rw [toFloat_places _ _ below, places, signed_false]
      _ = double .positive m (-k) h := ofScientific_places h (by omega)

theorem shortest_reads : (shortest (double .positive m e h)).negative = false ∧
    (shortest (double .positive m e h)).toFloat = double .positive m e h := by
  obtain ⟨scale, grid⟩ | all := shortest_cases (double .positive m e h)
  · exact onGrid?_eq_some grid
  · rw [all, binary_of_double]
    exact exact_reads h _

end Magnitude

/-! ## The text -/

theorem ne_infinity {x : Float} (hx : x.isFinite = true) : x ≠ infinity := by
  rintro rfl
  revert hx
  decide +kernel

theorem zero_eq : (0.0 : Float) = signedZero .positive :=
  eq_of_toNat_toBits (by decide +kernel)

theorem write_of_size {x : Float} (number : x.isNaN = false) (finite : x.abs ≠ infinity)
    (some : x.abs ≠ 0.0) :
    write x = signText (Binary.of x).negative ++ positional (shortest x.abs) := by
  unfold write
  rw [number, if_neg Bool.false_ne_true]
  dsimp only
  rw [if_neg finite, if_neg some, signText]

theorem write_double (s : Sign) {m : Nat} {e : Int} (h : Kept m e) :
    write (double s m e h) =
      signText (s == .negative) ++ positional (shortest (double .positive m e h)) := by
  have finite : double .positive m e h ≠ infinity := ne_infinity (isFinite_double .positive h)
  have some : double .positive m e h ≠ 0.0 := zero_eq ▸ double_ne_zero .positive .positive h
  rw [← abs_double s h] at finite some
  rw [write_of_size (isNaN_double s h) finite some, binary_of_double, abs_double]

theorem write_zero (s : Sign) :
    write (signedZero s) = signText (s == .negative) ++ positional ⟨false, 0, 0⟩ := by
  have number : (signedZero s).isNaN = false := by
    cases s <;> rfl
  have size : (signedZero s).abs = signedZero .positive := by
    cases s <;> rfl
  have sign : (Binary.of (signedZero s)).negative = (s == .negative) := by
    cases s <;> decide +kernel
  have finite : signedZero .positive ≠ infinity := ne_infinity rfl
  unfold write
  rw [number, if_neg Bool.false_ne_true]
  dsimp only
  rw [size, if_neg finite, if_pos zero_eq.symm, sign, signText]
  rfl

/-- The text of a finite double is that of a numeral, after its sign, which reads as the double. -/
theorem write_finite {x : Float} (hx : x.isFinite = true) : ∃ (negative : Bool) (n : Numeral),
    write x = signText negative ++ positional n ∧
      (Numeral.mk negative (n.digits * 10 ^ n.scale.toNat) (min n.scale 0)).toFloat = x := by
  obtain ⟨s, rfl⟩ | ⟨s, m, e, h, rfl⟩ := finite_cases hx
  · refine ⟨_, _, write_zero s, ?_⟩
    have value := toFloat_whole (s == .negative) 0 0
    rw [ofScientific_zero] at value
    refine value.trans ?_
    cases s <;> rfl
  · obtain ⟨unsigned, value⟩ := shortest_reads h
    refine ⟨_, _, write_double s h, ?_⟩
    rw [toFloat_spread h unsigned value]
    cases s with
    | positive => rfl
    | negative => exact neg_double .positive h

/-- A finite double is read back from its text. -/
theorem float?_write {x : Float} (hx : x.isFinite = true) : float? (write x) = some x := by
  obtain ⟨negative, n, text, value⟩ := write_finite hx
  rw [text, float?, numeral?_positional]
  exact congrArg some value

end PixelLayout.Decimal
