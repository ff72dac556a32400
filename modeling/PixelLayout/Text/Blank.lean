/-!
# White space and words

The characters with the White_Space property, and the words of a text: the longest runs
without such a character.
-/

set_option autoImplicit false

namespace PixelLayout.Text

def blanks : List Nat :=
  [0x09, 0x0A, 0x0B, 0x0C, 0x0D, 0x20, 0x85, 0xA0, 0x1680, 0x2000, 0x2001, 0x2002, 0x2003,
   0x2004, 0x2005, 0x2006, 0x2007, 0x2008, 0x2009, 0x200A, 0x2028, 0x2029, 0x202F, 0x205F,
   0x3000]

def isBlank (c : Char) : Bool := blanks.contains c.toNat

def close (word : List Char) : List (List Char) := if word.isEmpty then [] else [word]

def wordsFrom (word : List Char) : List Char → List (List Char)
  | [] => close word
  | c :: cs => if isBlank c then close word ++ wordsFrom [] cs else wordsFrom (word ++ [c]) cs

def words (text : List Char) : List (List Char) := wordsFrom [] text

theorem isBlank_of_isWhitespace (c : Char) (h : c.isWhitespace = true) : isBlank c = true := by
  simp only [Char.isWhitespace, Bool.or_eq_true, decide_eq_true_eq] at h
  rcases h with ((h | h) | h) | h <;> subst h <;> decide

end PixelLayout.Text
