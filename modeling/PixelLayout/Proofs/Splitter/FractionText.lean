import Mathlib
import PixelLayout.Proofs.Decimal.RoundTrip
import PixelLayout.Proofs.Text.Words
import PixelLayout.Splitter.Fractions

/-!
# Fraction lists as text

The text of a fraction list is one word for each fraction, which reads as that fraction, so that the
list is read back and passes the same check again. Of a text only the words matter. It is refused as
no list of numbers exactly if a word is no number, and else its numbers are checked as any list is.
-/

set_option autoImplicit false

namespace PixelLayout.Splitter

open Text Decimal

/-! ## The text of a fraction -/

theorem not_isBlank_of_isDigit {c : Char} (h : isDigit c = true) : isBlank c = false := by
  have digits : ∀ n : Fin 58, 48 ≤ n.val → blanks.contains n.val = false := by decide
  rw [isDigit, Bool.and_eq_true, decide_eq_true_eq, decide_eq_true_eq] at h
  have least : 48 ≤ c.toNat := h.1
  have most : c.toNat ≤ 57 := h.2
  exact digits ⟨c.toNat, by omega⟩ least

theorem isWord_positional (n : Numeral) : IsWord (positional n) := by
  obtain ⟨whole, fraction, hw, hf, some, -, -, text⟩ := positional_eq n
  have solid : ∀ cs, Digits cs → ∀ c ∈ cs, isBlank c = false :=
    fun cs digits c hc => not_isBlank_of_isDigit (digits c hc)
  refine ⟨text ▸ List.append_ne_nil_of_left_ne_nil some _, ?_⟩
  rw [text, List.forall_mem_append]
  refine ⟨solid _ hw, ?_⟩
  split_ifs
  · exact List.forall_mem_nil _
  · exact List.forall_mem_cons.mpr ⟨by decide, solid _ hf⟩

theorem isWord_write {x : Float} (hx : x.isFinite = true) : IsWord (write x) := by
  obtain ⟨negative, n, text, -⟩ := write_finite hx
  obtain ⟨some, solid⟩ := isWord_positional n
  rw [text]
  refine ⟨List.append_ne_nil_of_right_ne_nil _ some, List.forall_mem_append.mpr ⟨?_, solid⟩⟩
  cases negative with
  | true => exact List.forall_mem_singleton.mpr (by decide)
  | false => exact List.forall_mem_nil _

/-! ## Lists of fractions -/

section Readings

variable {α β : Type} {f : α → Option β}

theorem mapM_eq_some {xs : List α} {ys : List β} :
    xs.mapM f = some ys ↔ xs.map f = ys.map some := by
  induction xs generalizing ys with
  | nil => cases ys <;> simp
  | cons x xs ih =>
    have first : (x :: xs).mapM f = some ys ↔
        ∃ y, f x = some y ∧ ∃ zs, xs.mapM f = some zs ∧ y :: zs = ys := by
      simp [List.mapM_cons, Option.bind_eq_some_iff]
    rw [first]
    cases ys with
    | nil => simp
    | cons y ys => simp [ih]

theorem mapM_eq_none {xs : List α} : xs.mapM f = none ↔ ∃ x ∈ xs, f x = none := by
  induction xs with
  | nil => simp
  | cons x xs ih =>
    rw [List.mapM_cons, List.exists_mem_cons_iff, ← ih]
    cases f x with
    | none => simp
    | some y => cases xs.mapM f <;> simp

end Readings

namespace Fractions

theorem finite_of_checkFractions {values : List Float} (h : checkFractions values = .ok ()) :
    ∀ x ∈ values, x.isFinite = true := by
  intro x hx
  unfold checkFractions at h
  have some : ¬ values.isEmpty = true := by
    rw [List.isEmpty_iff]
    exact List.ne_nil_of_mem hx
  rw [if_neg some] at h
  by_cases infinite : (values.any fun v => !v.isFinite) = true
  · rw [if_pos infinite] at h
    cases h
  · by_contra bad
    exact infinite (List.any_eq_true.mpr ⟨x, hx, by simpa using bad⟩)

theorem ofList_eq_ok {values : List Float} {f : Fractions} (h : ofList values = .ok f) :
    f.values = values ∧ ∀ x ∈ values, x.isFinite = true := by
  unfold ofList at h
  cases checked : checkFractions values with
  | error fault =>
    rw [checked] at h
    cases h
  | ok _ =>
    rw [checked] at h
    obtain rfl := Except.ok.inj h
    exact ⟨rfl, finite_of_checkFractions checked⟩

theorem ofList_ne_notANumber (values : List Float) : ofList values ≠ .error .notANumber := by
  unfold ofList checkFractions
  split_ifs <;> rintro ⟨⟩

theorem parse_of_readings {s : List Char} {values : List Float}
    (read : (words s).map float? = values.map some) : parse s = ofList values := by
  rw [parse, mapM_eq_some.mpr read]

theorem parse_of_unread {s : List Char} (unread : ∃ w ∈ words s, float? w = none) :
    parse s = .error .notANumber := by
  rw [parse, mapM_eq_none.mpr unread]

theorem words_text {f : Fractions} (finite : ∀ x ∈ f.values, x.isFinite = true) :
    words f.text = f.values.map write := by
  rw [text]
  apply words_intercalate
  intro w hw
  obtain ⟨x, hx, rfl⟩ := List.mem_map.mp hw
  exact isWord_write (finite x hx)

theorem readings_text {f : Fractions} (finite : ∀ x ∈ f.values, x.isFinite = true) :
    (words f.text).map float? = f.values.map some := by
  rw [words_text finite, List.map_map]
  exact List.map_congr_left fun x hx => float?_write (finite x hx)

theorem readings_of_all_read {s : List Char} (read : ∀ w ∈ words s, float? w ≠ none) :
    ∃ values : List Float, (words s).map float? = values.map some := by
  cases readings : (words s).mapM float? with
  | none =>
    obtain ⟨w, hw, unread⟩ := mapM_eq_none.mp readings
    exact absurd unread (read w hw)
  | some values => exact ⟨values, mapM_eq_some.mp readings⟩

theorem parse_eq_notANumber_iff {s : List Char} :
    parse s = .error .notANumber ↔ ∃ w ∈ words s, float? w = none := by
  refine ⟨fun refused => ?_, parse_of_unread⟩
  by_contra read
  obtain ⟨values, readings⟩ := readings_of_all_read fun w hw unread => read ⟨w, hw, unread⟩
  rw [parse_of_readings readings] at refused
  exact ofList_ne_notANumber values refused

/-- Every valid fraction list is read back from its text. A text is read as the squeezed one, in
which single spaces separate the words; it is refused as no list of numbers exactly if a word is no
number, and else it is what the check makes of the numbers. -/
theorem text_and_words :
    (∀ values f, ofList values = .ok f → parse f.text = .ok f) ∧
      ∀ s : List Char,
        parse s = parse (squeezed s) ∧
        (squeezed s = [' '].intercalate (words s) ∧ ∀ w ∈ words s, IsWord w) ∧
        (parse s = .error .notANumber ↔ ∃ w ∈ words s, float? w = none) ∧
        FractionFault.notANumber.toError = .invalidFractions "fraction is not a number" ∧
        ((∀ w ∈ words s, float? w ≠ none) →
          ∃ values : List Float,
            (words s).map float? = values.map some ∧ parse s = ofList values) := by
  constructor
  · intro values f valid
    obtain ⟨rfl, finite⟩ := ofList_eq_ok valid
    rw [parse_of_readings (readings_text finite), valid]
  · intro s
    refine ⟨?_, ⟨squeezed_eq s, fun w => isWord_of_mem_words⟩, parse_eq_notANumber_iff, rfl, ?_⟩
    · rw [parse, parse, words_squeezed]
    · intro read
      obtain ⟨values, readings⟩ := readings_of_all_read read
      exact ⟨values, readings, parse_of_readings readings⟩

theorem quarters_read_back :
    ofList [0.25, 0.75] = .ok ⟨[0.25, 0.75]⟩ ∧
      parse (text ⟨[0.25, 0.75]⟩) = .ok ⟨[0.25, 0.75]⟩ ∧
      (∀ w ∈ words "\t0.25  0.75 ".toList, float? w ≠ none) ∧
      ∃ values : List Float, (words "\t0.25  0.75 ".toList).map float? = values.map some ∧
        parse "\t0.25  0.75 ".toList = ofList values := by
  have valid : ofList [0.25, 0.75] = .ok ⟨[0.25, 0.75]⟩ := by
    have checked : checkFractions [0.25, 0.75] = .ok () := by
      decide +kernel
    rw [ofList, checked]
    rfl
  have read : ∀ w ∈ words "\t0.25  0.75 ".toList, float? w ≠ none := by
    decide +kernel
  exact ⟨valid, text_and_words.1 _ _ valid, read, (text_and_words.2 _).2.2.2.2 read⟩

end Fractions

end PixelLayout.Splitter
