import PixelLayout.Decimal.Shortest
import PixelLayout.Json.Value

/-!
# Writing JSON values

Values are written without blanks. Numbers have no exponent. In strings, quotes, backslashes,
control characters and surrogates are escaped.
-/

set_option autoImplicit false

namespace PixelLayout.Json

def hexDigits (n : Nat) : List Char :=
  let ds := Nat.toDigits 16 n
  List.replicate (4 - ds.length) '0' ++ ds

def escape (n : Nat) : List Char :=
  if n = 0x22 then ['\x5c', '\x22']
  else if n = 0x5C then ['\x5c', '\x5c']
  else if n < 0x20 || !Text.isScalar n then '\x5c' :: 'u' :: hexDigits n
  else [Char.ofNat n]

def Text.render (t : Text) : String :=
  String.ofList ('\x22' :: t.points.flatMap escape ++ ['\x22'])

def renderNumber (n : Decimal.Numeral) : String :=
  String.ofList ((if n.negative then ['-'] else []) ++ Decimal.positional n)

mutual

def Value.render : Value → String
  | .null => "null"
  | .bool true => "true"
  | .bool false => "false"
  | .number n _ => renderNumber n
  | .text t => t.render
  | .array elements => "[" ++ renderElements elements ++ "]"
  | .object fields => "\x7b" ++ renderFields fields ++ "\x7d"

def renderElements : List Value → String
  | [] => ""
  | [v] => v.render
  | v :: w :: rest => v.render ++ "," ++ renderElements (w :: rest)

def renderFields : List (Text × Value) → String
  | [] => ""
  | [(k, v)] => k.render ++ ":" ++ v.render
  | (k, v) :: f :: rest => k.render ++ ":" ++ v.render ++ "," ++ renderFields (f :: rest)

end

end PixelLayout.Json
