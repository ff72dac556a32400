import PixelLayout.Json.Value

/-!
# The tokens of JSON text

A text is cut into marks, strings and words in one run over its characters. A word is a longest
run without blanks, marks and quotes; it has to be a number or one of three names. In a string
the characters are kept as they are written until the closing quote, and then its escapes are
resolved, where two escapes for a pair of surrogates give one code point.
-/

set_option autoImplicit false

namespace PixelLayout.Json

inductive Token where
  | beginArray
  | endArray
  | beginObject
  | endObject
  | comma
  | colon
  | text (t : Text)
  | scalar (v : Value)

def isBlank (c : Char) : Bool := c == ' ' || c == '\n' || c == '\t' || c == '\r'

def isQuote (c : Char) : Bool := c == '\x22'

def isBackslash (c : Char) : Bool := c == '\x5c'

def mark? (c : Char) : Option Token :=
  match c with
  | '[' => some .beginArray
  | ']' => some .endArray
  | '\x7b' => some .beginObject
  | '\x7d' => some .endObject
  | ',' => some .comma
  | ':' => some .colon
  | _ => none

/-! ## Numbers -/

def isWholePart : List Char → Bool
  | [] => false
  | ['0'] => true
  | c :: _ => c != '0'

def isPointed : List Char → Bool
  | '.' :: c :: _ => Decimal.isDigit c
  | ['.'] => false
  | _ => true

def takeMinus : List Char → Bool × List Char
  | '-' :: cs => (true, cs)
  | cs => (false, cs)

def number? (cs : List Char) : Option Value :=
  let (negative, cs) := takeMinus cs
  let rest := cs.dropWhile Decimal.isDigit
  if isWholePart (cs.takeWhile Decimal.isDigit) && isPointed rest then
    (Decimal.unsigned? negative cs).map (.number · rest.isEmpty)
  else none

def scalar? (word : List Char) : Option Value :=
  match String.ofList word with
  | "null" => some .null
  | "true" => some (.bool true)
  | "false" => some (.bool false)
  | _ => number? word

/-! ## Strings -/

def hexDigit? (c : Char) : Option Nat :=
  if '0' ≤ c && c ≤ '9' then some (c.toNat - '0'.toNat)
  else if 'a' ≤ c && c ≤ 'f' then some (c.toNat - 'a'.toNat + 10)
  else if 'A' ≤ c && c ≤ 'F' then some (c.toNat - 'A'.toNat + 10)
  else none

def hex? (cs : List Char) : Option Nat :=
  cs.foldlM (fun n c => (hexDigit? c).map fun d => 16 * n + d) 0

def escaped? (c : Char) : Option Nat :=
  match c with
  | '\x22' => some 0x22
  | '\x5c' => some 0x5C
  | '/' => some 0x2F
  | 'b' => some 0x08
  | 'f' => some 0x0C
  | 'n' => some 0x0A
  | 'r' => some 0x0D
  | 't' => some 0x09
  | _ => none

def unescape? : List Char → Option (List Nat)
  | [] => some []
  | '\x5c' :: 'u' :: a :: b :: c :: d :: cs => do
    let n ← hex? [a, b, c, d]
    let rest ← unescape? cs
    some (n :: rest)
  | '\x5c' :: c :: cs => do
    let n ← escaped? c
    let rest ← unescape? cs
    some (n :: rest)
  | c :: cs => if isBackslash c then none else (unescape? cs).map (c.toNat :: ·)

def isHigh (n : Nat) : Bool := 0xD800 ≤ n && n < 0xDC00

def isLow (n : Nat) : Bool := 0xDC00 ≤ n && n < 0xE000

def joinPairs : List Nat → List Nat
  | [] => []
  | [n] => [n]
  | m :: n :: rest =>
    if isHigh m && isLow n then
      (0x10000 + (m - 0xD800) * 0x400 + (n - 0xDC00)) :: joinPairs rest
    else m :: joinPairs (n :: rest)

def text? (written : List Char) : Option Text :=
  (unescape? written).map fun points => ⟨joinPairs points⟩

/-! ## Cutting -/

inductive Pending where
  | idle
  | word (cs : List Char)
  | quoted (cs : List Char)
  | escape (cs : List Char)

structure Cutter where
  done : List Token
  pending : Pending

namespace Cutter

def push (k : Cutter) (t : Token) : Cutter := ⟨t :: k.done, .idle⟩

def finishWord (k : Cutter) : Option Cutter :=
  match k.pending with
  | .idle => some k
  | .word cs => (scalar? cs.reverse).map fun v => k.push (.scalar v)
  | _ => none

def finishText (k : Cutter) (cs : List Char) : Option Cutter :=
  (text? cs.reverse).map fun t => k.push (.text t)

def separate (k : Cutter) (c : Char) : Option Cutter :=
  if isQuote c then some ⟨k.done, .quoted []⟩
  else match mark? c with
    | some t => some (k.push t)
    | none => some ⟨k.done, .idle⟩

def separates (c : Char) : Bool := isBlank c || isQuote c || (mark? c).isSome

def step (k : Cutter) (c : Char) : Option Cutter :=
  match k.pending with
  | .quoted cs =>
    if isQuote c then k.finishText cs
    else if isBackslash c then some ⟨k.done, .escape (c :: cs)⟩
    else if c < ' ' then none
    else some ⟨k.done, .quoted (c :: cs)⟩
  | .escape cs => if c < ' ' then none else some ⟨k.done, .quoted (c :: cs)⟩
  | .word cs =>
    if separates c then k.finishWord.bind (·.separate c) else some ⟨k.done, .word (c :: cs)⟩
  | .idle => if separates c then k.separate c else some ⟨k.done, .word [c]⟩

end Cutter

def tokens? (text : List Char) : Option (List Token) :=
  match (text.foldlM Cutter.step ⟨[], .idle⟩).bind Cutter.finishWord with
  | some k => some k.done.reverse
  | none => none

end PixelLayout.Json
