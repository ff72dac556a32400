import Mathlib
import PixelLayout.Decimal.Binary

/-!
# The two forms of a finite double

A finite double is its sixty-four bits, or else a sign and a magnitude: a zero, or `m * 2 ^ e` in
the one form in which it is kept. Packing and unpacking go from one to the other and back without
loss. So a finite double is one of two kinds, and its absolute value, its opposite and the parts
that are read from its bits are those of the magnitude.
-/

set_option autoImplicit false

namespace PixelLayout.Decimal

open Float.Model Float.Model.UnpackedFloat

structure Kept (m : Nat) (e : Int) : Prop where
  pos : 0 < m
  below : m < 2 ^ 53
  least : -1074 ≤ e
  most : e ≤ 971
  full : 2 ^ 52 ≤ m ∨ e = -1074

def signedZero (s : Sign) : Float := ⟨pack (.zero s)⟩

def double (s : Sign) (m : Nat) (e : Int) (h : Kept m e) : Float := ⟨pack (.finite s m e h.pos)⟩

section Bits

variable (s : Sign) (exponent : BitVec 11) (fraction : BitVec 52)

theorem toNat_packComponents : (packComponents Format.binary64 s exponent fraction).toNat =
    s.toBitVec.toNat * 2 ^ 63 + exponent.toNat * 2 ^ 52 + fraction.toNat := by
  have he := exponent.isLt
  have hf := fraction.isLt
  unfold packComponents
  rw [BitVec.toNat_append, BitVec.toNat_append, ← Nat.shiftLeft_add_eq_or_of_lt hf,
    ← Nat.shiftLeft_add_eq_or_of_lt he, Nat.shiftLeft_eq, Nat.shiftLeft_eq]
  ring

variable (b : BitVec 64)

theorem toNat_unpackMantissa :
    (@unpackMantissa .binary64 b).toNat = b.toNat % 2 ^ 52 := by
  simp [unpackMantissa]

theorem toNat_unpackExponent :
    (@unpackExponent .binary64 b).toNat = b.toNat / 2 ^ 52 % 2 ^ 11 := by
  simp [unpackExponent, Nat.shiftRight_eq_div_pow]

theorem toNat_unpackSign :
    (@unpackSign .binary64 b).toNat = b.toNat / 2 ^ 63 % 2 := by
  simp [unpackSign, Nat.shiftRight_eq_div_pow]

theorem packComponents_unpack :
    packComponents Format.binary64 (Sign.ofBitVec (@unpackSign .binary64 b))
      (@unpackExponent .binary64 b) (@unpackMantissa .binary64 b) =
      b := by
  have whole := b.isLt
  have sign : (Sign.ofBitVec (@unpackSign .binary64 b)).toBitVec = @unpackSign .binary64 b := by
    generalize @unpackSign .binary64 b = c
    revert c
    decide
  apply BitVec.eq_of_toNat_eq
  rw [toNat_packComponents, sign, toNat_unpackSign, toNat_unpackExponent, toNat_unpackMantissa]
  omega

theorem unpackSign_packComponents :
    unpackSign (packComponents Format.binary64 s exponent fraction) = s.toBitVec := by
  have he := exponent.isLt
  have hf := fraction.isLt
  have hs := s.toBitVec.isLt
  apply BitVec.eq_of_toNat_eq
  rw [toNat_unpackSign, toNat_packComponents]
  omega

theorem ofBitVec_toBitVec : Sign.ofBitVec s.toBitVec = s := by
  cases s <;> rfl

theorem toNat_leading_one : (1#1 ++ fraction).toNat = 2 ^ 52 + fraction.toNat := by
  rw [BitVec.toNat_append, ← Nat.shiftLeft_add_eq_or_of_lt fraction.isLt]
  rfl

end Bits

theorem log2_of_bounds {m k : Nat} (least : 2 ^ k ≤ m) (most : m < 2 ^ (k + 1)) : m.log2 = k :=
  (Nat.log2_eq_iff (by have := Nat.two_pow_pos k; omega)).mpr ⟨least, most⟩

theorem Kept.log2_add_one {m : Nat} {e : Int} (h : Kept m e) : m.log2 + 1 = 53 ↔ 2 ^ 52 ≤ m := by
  constructor
  · intro log
    exact (Nat.le_log2 h.pos.ne').mp (by omega)
  · intro normal
    rw [log2_of_bounds normal h.below]

/-- The bits of a magnitude: below `2 ^ 52` it has the exponent field zero, else its leading bit is
left out. -/
theorem pack_finite (s : Sign) {m : Nat} {e : Int} (h : Kept m e) :
    UnpackedFloat.pack .binary64 (.finite s m e h.pos) =
      packComponents .binary64 s
        (if 2 ^ 52 ≤ m then BitVec.ofNat 11 (e + 1075).toNat else 0#11) (BitVec.ofNat 52 m) := by
  have least := h.least
  have most := h.most
  have biased : (e + (Format.binary64.exponentBias : Int) + (52 : Nat)).toNat =
      (e + 1075).toNat := by
    change (e + 1023 + 52).toNat = (e + 1075).toNat
    omega
  have inside : ¬ 2 ^ 11 ≤ (e + 1075).toNat + 1 := by omega
  have normal : m.log2 + 1 = Format.binary64.mantissaBits ↔ 2 ^ 52 ≤ m := h.log2_add_one
  rw [UnpackedFloat.pack]
  simp only [biased, normal, if_neg inside]
  split <;> rfl

theorem pos_of_ne_zero {fraction : BitVec 52} (h : fraction ≠ 0#52) : 0 < fraction.toNat :=
  Nat.pos_of_ne_zero fun zero => h (BitVec.eq_of_toNat_eq zero)

/-- Reading the three fields. -/
theorem unpack_packComponents (s : Sign) (exponent : BitVec 11) (fraction : BitVec 52) :
    UnpackedFloat.unpack .binary64 (packComponents .binary64 s exponent fraction) =
      if exponent = -1#11 then if fraction = 0#52 then .infinity s else .notANumber
      else if exponent = 0#11 then
        if h : fraction = 0#52 then .zero s
        else .finite s fraction.toNat (-1074) (pos_of_ne_zero h)
      else .finite s (2 ^ 52 + fraction.toNat) (exponent.toNat - 1075) (by omega) := by
  rw [UnpackedFloat.unpack]
  simp only [unpackMantissa_packComponents, unpackExponent_packComponents,
    unpackSign_packComponents, ofBitVec_toBitVec]
  split_ifs with special zero subnormal nothing
  · rfl
  · rfl
  · rfl
  · subst subnormal
    rfl
  · congr 1
    exact toNat_leading_one fraction

theorem unpack_signedZero (s : Sign) : (signedZero s).toModel.unpack = .zero s := by
  cases s <;> rfl

theorem unpack_double (s : Sign) {m : Nat} {e : Int} (h : Kept m e) :
    (double s m e h).toModel.unpack = .finite s m e h.pos := by
  obtain ⟨pos, below, least, most, full⟩ := h
  have fraction : (BitVec.ofNat 52 m).toNat = m % 2 ^ 52 := BitVec.toNat_ofNat m 52
  change UnpackedFloat.unpack .binary64 (UnpackedFloat.pack .binary64 (.finite s m e pos)) = _
  rw [pack_finite s ⟨pos, below, least, most, full⟩, unpack_packComponents]
  by_cases normal : 2 ^ 52 ≤ m
  · have exponent : (BitVec.ofNat 11 (e + 1075).toNat).toNat = (e + 1075).toNat := by
      rw [BitVec.toNat_ofNat, Nat.mod_eq_of_lt (by omega)]
    have finite : BitVec.ofNat 11 (e + 1075).toNat ≠ -1#11 := by
      intro same
      have : (e + 1075).toNat = 2047 := exponent.symm.trans (congrArg BitVec.toNat same)
      omega
    have large : BitVec.ofNat 11 (e + 1075).toNat ≠ 0#11 := by
      intro same
      have : (e + 1075).toNat = 0 := exponent.symm.trans (congrArg BitVec.toNat same)
      omega
    rw [if_pos normal, if_neg finite, if_neg large]
    congr 1 <;> omega
  · have some : BitVec.ofNat 52 m ≠ 0#52 := by
      intro same
      have : m % 2 ^ 52 = 0 := fraction.symm.trans (congrArg BitVec.toNat same)
      omega
    have zero : 0#11 ≠ -1#11 := by decide
    rw [if_neg normal, if_neg zero, if_pos rfl, dif_neg some]
    congr 1 <;> omega

theorem eq_of_bits {x y : Float} (h : x.toModel.toBits.toBitVec = y.toModel.toBits.toBitVec) :
    x = y := by
  obtain ⟨⟨⟨b⟩, _⟩⟩ := x
  obtain ⟨⟨⟨c⟩, _⟩⟩ := y
  cases (h : b = c)
  rfl

/-- A finite double is a zero with its sign or a magnitude with its sign. -/
theorem finite_cases {x : Float} (hx : x.isFinite = true) :
    (∃ s, x = signedZero s) ∨ ∃ s m e, ∃ h : Kept m e, x = double s m e h := by
  obtain ⟨⟨⟨b⟩, valid⟩⟩ := x
  have fields := packComponents_unpack b
  generalize Sign.ofBitVec (@unpackSign .binary64 b) = s at fields
  generalize @unpackExponent .binary64 b = exponent at fields
  generalize @unpackMantissa .binary64 b = fraction at fields
  subst fields
  have finite : (UnpackedFloat.unpack .binary64
      (packComponents .binary64 s exponent fraction)).isFinite = true := hx
  have small : fraction.toNat < 2 ^ 52 := fraction.isLt
  have short : exponent.toNat < 2 ^ 11 := exponent.isLt
  rw [unpack_packComponents] at finite
  split_ifs at finite with special zero subnormal nothing
  · cases finite
  · cases finite
  · subst subnormal nothing
    exact .inl ⟨s, rfl⟩
  · subst subnormal
    have h : Kept fraction.toNat (-1074) :=
      ⟨pos_of_ne_zero nothing, by omega, by omega, by omega, .inr rfl⟩
    refine .inr ⟨s, _, _, h, eq_of_bits ?_⟩
    change _ = UnpackedFloat.pack .binary64 (.finite s fraction.toNat (-1074) h.pos)
    rw [pack_finite s h, if_neg (by omega), BitVec.ofNat_toNat, BitVec.setWidth_eq]
  · have large : exponent.toNat ≠ 0 := fun zero => subnormal (BitVec.eq_of_toNat_eq zero)
    have finite : exponent.toNat ≠ 2047 := fun top => special (BitVec.eq_of_toNat_eq top)
    have h : Kept (2 ^ 52 + fraction.toNat) (exponent.toNat - 1075) :=
      ⟨by omega, by omega, by omega, by omega, .inl (by omega)⟩
    refine .inr ⟨s, _, _, h, eq_of_bits ?_⟩
    change _ = UnpackedFloat.pack .binary64 (.finite s _ _ h.pos)
    have field : (exponent.toNat - 1075 + 1075 : Int).toNat = exponent.toNat := by omega
    have rest : BitVec.ofNat 52 (2 ^ 52 + fraction.toNat) = fraction := by
      apply BitVec.eq_of_toNat_eq
      rw [BitVec.toNat_ofNat]
      omega
    rw [pack_finite s h, if_pos (by omega), field, rest, BitVec.ofNat_toNat, BitVec.setWidth_eq]

@[simp] theorem abs_double (s : Sign) {m : Nat} {e : Int} (h : Kept m e) :
    (double s m e h).abs = double .positive m e h := by
  change (⟨pack (double s m e h).toModel.unpack.abs⟩ : Float) = _
  rw [unpack_double]
  rfl

theorem neg_double (s : Sign) {m : Nat} {e : Int} (h : Kept m e) :
    -double s m e h = double (-s) m e h := by
  change (⟨pack (double s m e h).toModel.unpack.neg⟩ : Float) = _
  rw [unpack_double]
  rfl

theorem isNaN_double (s : Sign) {m : Nat} {e : Int} (h : Kept m e) :
    (double s m e h).isNaN = false := by
  change (double s m e h).toModel.unpack.isNaN = _
  rw [unpack_double]
  rfl

theorem isFinite_double (s : Sign) {m : Nat} {e : Int} (h : Kept m e) :
    (double s m e h).isFinite = true := by
  change (double s m e h).toModel.unpack.isFinite = _
  rw [unpack_double]
  rfl

theorem double_ne_zero (s t : Sign) {m : Nat} {e : Int} (h : Kept m e) :
    double s m e h ≠ signedZero t := by
  intro same
  have := congrArg (fun x => x.toModel.unpack) same
  simp only [unpack_double, unpack_signedZero] at this
  cases this

theorem toNat_toBits_double (s : Sign) {m : Nat} {e : Int} (h : Kept m e) :
    (double s m e h).toBits.toNat = s.toBitVec.toNat * 2 ^ 63 +
      (if 2 ^ 52 ≤ m then (e + 1075).toNat else 0) * 2 ^ 52 + m % 2 ^ 52 := by
  have least := h.least
  have most := h.most
  change (UnpackedFloat.pack .binary64 (.finite s m e h.pos)).toNat = _
  rw [pack_finite s h, toNat_packComponents, BitVec.toNat_ofNat]
  split
  · rw [BitVec.toNat_ofNat, Nat.mod_eq_of_lt (by omega)]
  · rfl

/-- The parts read from the bits are the magnitude as it is kept. -/
theorem binary_of_double (s : Sign) {m : Nat} {e : Int} (h : Kept m e) :
    Binary.of (double s m e h) = ⟨s == .negative, m, e⟩ := by
  obtain ⟨pos, below, least, most, full⟩ := h
  have bits := toNat_toBits_double s ⟨pos, below, least, most, full⟩
  have bit : s.toBitVec.toNat ≤ 1 := by cases s <;> decide
  have sign : (s == .negative) = (s.toBitVec.toNat == 1) := by cases s <;> rfl
  have two : twoTo 52 = 2 ^ 52 ∧ twoTo 11 = 2 ^ 11 ∧ twoTo 63 = 2 ^ 63 := ⟨rfl, rfl, rfl⟩
  rw [Binary.of, sign]
  generalize (double s m e ⟨pos, below, least, most, full⟩).toBits.toNat = b at bits ⊢
  generalize s.toBitVec.toNat = sign at bits bit ⊢
  simp only [two]
  by_cases normal : 2 ^ 52 ≤ m
  · rw [if_pos normal] at bits
    have first : b / 2 ^ 63 = sign := by omega
    have exponent : b / 2 ^ 52 % 2 ^ 11 = (e + 1075).toNat := by omega
    have fraction : 2 ^ 52 + b % 2 ^ 52 = m := by omega
    have large : ¬ (e + 1075).toNat = 0 := by omega
    have power : ((e + 1075).toNat : Int) - 1075 = e := by omega
    rw [first, exponent, if_neg large, fraction, power]
  · rw [if_neg normal] at bits
    have first : b / 2 ^ 63 = sign := by omega
    have exponent : b / 2 ^ 52 % 2 ^ 11 = 0 := by omega
    have fraction : b % 2 ^ 52 = m := by omega
    have power : -1074 = e := by omega
    rw [first, exponent, if_pos rfl, fraction, power]

end PixelLayout.Decimal
