import Mathlib.Data.List.DropRight
import PixelLayout.Text.Blank

/-!
# Words apart from the white space between them

A text is squeezed by leaving out the white space at its ends and putting one space in place of
each run of white space. That keeps the words, and what it leaves is the words with single spaces
between them. From such a text the words are read back, as long as none is empty or has white space
in it.
-/

set_option autoImplicit false

namespace PixelLayout.Text

structure IsWord (w : List Char) : Prop where
  some : w ≠ []
  solid : ∀ c ∈ w, isBlank c = false

def trim (text : List Char) : List Char := (text.dropWhile isBlank).rdropWhile isBlank

def squeezeFrom (run : Bool) : List Char → List Char
  -- The flag tells whether the text goes on in a run, whose space has been set already.
  | [] => []
  | c :: cs =>
    if isBlank c then
      if run then squeezeFrom true cs else ' ' :: squeezeFrom true cs
    else c :: squeezeFrom false cs

def squeezed (text : List Char) : List Char := squeezeFrom false (trim text)

theorem isBlank_space : isBlank ' ' = true := by
  decide

theorem close_of_ne_nil {w : List Char} (some : w ≠ []) : close w = [w] :=
  if_neg fun none => some (List.isEmpty_iff.mp none)

section Cases

variable (w : List Char) {c : Char} (cs : List Char)

theorem wordsFrom_blank (blank : isBlank c = true) :
    wordsFrom w (c :: cs) = close w ++ wordsFrom [] cs :=
  if_pos blank

theorem wordsFrom_solid (solid : isBlank c = false) :
    wordsFrom w (c :: cs) = wordsFrom (w ++ [c]) cs :=
  if_neg (ne_true_of_eq_false solid)

theorem squeezeFrom_solid (run : Bool) (solid : isBlank c = false) :
    squeezeFrom run (c :: cs) = c :: squeezeFrom false cs :=
  if_neg (ne_true_of_eq_false solid)

theorem squeezeFrom_blank (blank : isBlank c = true) :
    squeezeFrom false (c :: cs) = ' ' :: squeezeFrom true cs ∧
      squeezeFrom true (c :: cs) = squeezeFrom true cs :=
  ⟨if_pos blank, if_pos blank⟩

end Cases

/-! ## Words of a text with single spaces -/

theorem wordsFrom_append {w : List Char} (solid : ∀ c ∈ w, isBlank c = false)
    (word cs : List Char) : wordsFrom word (w ++ cs) = wordsFrom (word ++ w) cs := by
  induction w generalizing word with
  | nil => rw [List.nil_append, List.append_nil]
  | cons c w ih =>
    have rest : ∀ d ∈ w, isBlank d = false := fun d hd => solid d (List.mem_cons_of_mem c hd)
    rw [List.cons_append, wordsFrom_solid _ _ (solid c List.mem_cons_self), ih rest,
      List.append_assoc, List.singleton_append]

theorem intercalate_space {w : List Char} {ws : List (List Char)} (some : ws ≠ []) :
    [' '].intercalate (w :: ws) = w ++ ' ' :: [' '].intercalate ws := by
  obtain ⟨v, ws, rfl⟩ := List.exists_cons_of_ne_nil some
  rw [List.intercalate_cons_cons, List.append_assoc, List.singleton_append]

/-- Words with single spaces between them are read back. -/
theorem words_intercalate {ws : List (List Char)} (words? : ∀ w ∈ ws, IsWord w) :
    words ([' '].intercalate ws) = ws := by
  induction ws with
  | nil => rfl
  | cons w ws ih =>
    obtain ⟨⟨some, solid⟩, rest⟩ := List.forall_mem_cons.mp words?
    by_cases last : ws = []
    · subst last
      have one := wordsFrom_append solid [] []
      rw [List.append_nil, List.nil_append] at one
      rw [List.intercalate_singleton, words, one, wordsFrom, close_of_ne_nil some]
    · rw [intercalate_space last, words, wordsFrom_append solid, List.nil_append,
        wordsFrom_blank _ _ isBlank_space, close_of_ne_nil some, ← words, ih rest,
        List.singleton_append]

/-! ## Words of any text -/

theorem isWord_of_mem_close {word w : List Char} (solid : ∀ c ∈ word, isBlank c = false)
    (hw : w ∈ close word) : IsWord w := by
  by_cases none : word = []
  · subst none
    cases hw
  · rw [close_of_ne_nil none, List.mem_singleton] at hw
    exact hw ▸ ⟨none, solid⟩

theorem isWord_of_mem_wordsFrom {word text w : List Char} (solid : ∀ c ∈ word, isBlank c = false)
    (hw : w ∈ wordsFrom word text) : IsWord w := by
  induction text generalizing word with
  | nil => exact isWord_of_mem_close solid hw
  | cons c cs ih =>
    cases hc : isBlank c with
    | true =>
      rw [wordsFrom_blank _ _ hc] at hw
      rcases List.mem_append.mp hw with begun | later
      · exact isWord_of_mem_close solid begun
      · exact ih (List.forall_mem_nil _) later
    | false =>
      rw [wordsFrom_solid _ _ hc] at hw
      exact ih (List.forall_mem_append.mpr ⟨solid, List.forall_mem_singleton.mpr hc⟩) hw

theorem isWord_of_mem_words {text w : List Char} (hw : w ∈ words text) : IsWord w :=
  isWord_of_mem_wordsFrom (List.forall_mem_nil _) hw

theorem words_dropWhile (text : List Char) : words (text.dropWhile isBlank) = words text := by
  induction text with
  | nil => rfl
  | cons c cs ih =>
    cases hc : isBlank c with
    | true =>
      rw [List.dropWhile_cons_of_pos hc, ih, words, words, wordsFrom_blank _ _ hc]
      rfl
    | false => rw [List.dropWhile_cons_of_neg (ne_true_of_eq_false hc)]

theorem wordsFrom_blanks {blanks : List Char} (blank : ∀ c ∈ blanks, isBlank c = true)
    (word : List Char) : wordsFrom word blanks = close word := by
  induction blanks generalizing word with
  | nil => rfl
  | cons c cs ih =>
    obtain ⟨hc, rest⟩ := List.forall_mem_cons.mp blank
    rw [wordsFrom_blank _ _ hc, ih rest]
    exact List.append_nil _

theorem wordsFrom_append_blanks {blanks : List Char} (blank : ∀ c ∈ blanks, isBlank c = true)
    (word text : List Char) : wordsFrom word (text ++ blanks) = wordsFrom word text := by
  induction text generalizing word with
  | nil => exact wordsFrom_blanks blank word
  | cons c cs ih => rw [List.cons_append, wordsFrom, wordsFrom, ih, ih]

theorem words_rdropWhile (text : List Char) : words (text.rdropWhile isBlank) = words text := by
  have split : text.rdropWhile isBlank ++ text.rtakeWhile isBlank = text :=
    List.rdropWhile_append_rtakeWhile
  conv_rhs => rw [← split, words]
  exact (wordsFrom_append_blanks (fun c => List.mem_rtakeWhile_imp) _ _).symm

/-! ## What is left -/

def EndsSolid (text : List Char) : Prop := ∀ c ∈ text.getLast?, isBlank c = false

theorem EndsSolid.tail {c : Char} {cs : List Char} (h : EndsSolid (c :: cs)) : EndsSolid cs :=
  fun d hd => h d (List.mem_getLast?_cons hd)

theorem EndsSolid.ne_nil {c : Char} {cs : List Char} (h : EndsSolid (c :: cs))
    (blank : isBlank c = true) : cs ≠ [] := by
  rintro rfl
  have solid : isBlank c = false := h c rfl
  rw [blank] at solid
  cases solid

theorem wordsFrom_ne_nil {text : List Char} (ends : EndsSolid text) (word : List Char)
    (some : word ≠ [] ∨ text ≠ []) : wordsFrom word text ≠ [] := by
  induction text generalizing word with
  | nil =>
    rw [wordsFrom, close_of_ne_nil (some.resolve_right (not_not_intro rfl))]
    exact List.cons_ne_nil _ _
  | cons c cs ih =>
    cases hc : isBlank c with
    | true =>
      rw [wordsFrom_blank _ _ hc]
      exact List.append_ne_nil_of_right_ne_nil _ (ih ends.tail [] (.inr (ends.ne_nil hc)))
    | false =>
      rw [wordsFrom_solid _ _ hc]
      exact ih ends.tail _ (.inl (List.append_ne_nil_of_right_ne_nil _ (List.cons_ne_nil c [])))

/-- Within a word and within a run of white space, what is left of the text is its words. -/
theorem squeezeFrom_eq {text : List Char} (ends : EndsSolid text) :
    (∀ word, word ≠ [] → word ++ squeezeFrom false text = [' '].intercalate (wordsFrom word text)) ∧
      squeezeFrom true text = [' '].intercalate (wordsFrom [] text) := by
  induction text with
  | nil =>
    refine ⟨fun word some => ?_, rfl⟩
    rw [squeezeFrom, wordsFrom, close_of_ne_nil some, List.intercalate_singleton, List.append_nil]
  | cons c cs ih =>
    obtain ⟨inWord, inRun⟩ := ih ends.tail
    cases hc : isBlank c with
    | true =>
      obtain ⟨begins, goesOn⟩ := squeezeFrom_blank cs hc
      have later := wordsFrom_ne_nil ends.tail [] (.inr (ends.ne_nil hc))
      refine ⟨fun word some => ?_, ?_⟩
      · rw [begins, inRun, wordsFrom_blank _ _ hc, close_of_ne_nil some, List.singleton_append,
          intercalate_space later]
      · rw [goesOn, inRun, wordsFrom_blank _ _ hc]
        rfl
    | false =>
      refine ⟨fun word some => ?_, ?_⟩
      · have next : word ++ [c] ≠ [] := List.append_ne_nil_of_left_ne_nil some _
        rw [wordsFrom_solid _ _ hc, ← inWord _ next, squeezeFrom_solid _ _ hc, List.append_assoc,
          List.singleton_append]
      · rw [wordsFrom_solid _ _ hc, List.nil_append, ← inWord _ (List.cons_ne_nil c []),
          squeezeFrom_solid _ _ hc, List.singleton_append]

theorem endsSolid_rdropWhile (text : List Char) : EndsSolid (text.rdropWhile isBlank) := by
  intro c hc
  obtain ⟨some, rfl⟩ := List.mem_getLast?_eq_getLast hc
  exact Bool.eq_false_iff.mpr (List.rdropWhile_last_not isBlank text some)

theorem not_isBlank_of_trim {text cs : List Char} {c : Char} (h : trim text = c :: cs) :
    isBlank c = false := by
  have split : trim text ++ (text.dropWhile isBlank).rtakeWhile isBlank = text.dropWhile isBlank :=
    List.rdropWhile_append_rtakeWhile
  have start := List.head?_dropWhile_not isBlank text
  rw [← split, h] at start
  exact start

theorem words_trim (text : List Char) : words (trim text) = words text := by
  rw [trim, words_rdropWhile, words_dropWhile]

/-- A squeezed text is its words with single spaces between them. -/
theorem squeezed_eq (text : List Char) : squeezed text = [' '].intercalate (words text) := by
  have ends : EndsSolid (trim text) := endsSolid_rdropWhile _
  have start : squeezeFrom false (trim text) = squeezeFrom true (trim text) := by
    cases trimmed : trim text with
    | nil => rfl
    | cons c cs =>
      have solid := not_isBlank_of_trim trimmed
      rw [squeezeFrom_solid _ _ solid, squeezeFrom_solid _ _ solid]
  rw [squeezed, start, (squeezeFrom_eq ends).2, ← words, words_trim]

example : squeezed "\t0.25\u2003 0.75 ".toList = "0.25 0.75".toList := by
  decide

theorem words_squeezed (text : List Char) : words (squeezed text) = words text := by
  rw [squeezed_eq, words_intercalate fun _ => isWord_of_mem_words]

end PixelLayout.Text
