import PixelLayout.Geometry.Axis
import PixelLayout.Json.Value

/-!
# How typed values stand in JSON

A format writes values of a type and reads them back. Whole numbers have a range. A choice stands
as its name, and is also read from an object with that name alone and nothing for it. A record
stands as an object; it is also read from an array of exactly its fields. In an object each of
its fields has to occur once, and all others are passed over.
-/

set_option autoImplicit false

namespace PixelLayout.Json

structure Format (α : Type) where
  write : α → Value
  read : Value → Option α

structure Fields (α : Type) where
  names : List String
  write : α → List Value
  read : List Value → Option α

namespace Format

variable {α β : Type}

def integer (low high : Int) : Format Int where
  write := .ofInt
  read v := v.int?.filter fun n => low ≤ n && n ≤ high

def pixel : Format Int := integer Pixel.least Pixel.greatest

def natural (bound : Nat) : Format Nat where
  write n := .ofInt n
  read v := ((integer 0 bound).read v).map (·.toNat)

def name? : Value → Option String
  | .text t => t.toString?
  | .object [(key, v)] => if v.isNull then key.toString? else none
  | _ => none

def choice [DecidableEq α] (values : List (String × α)) : Format α where
  write a := ((values.find? (·.2 == a)).map fun v => .ofString v.1).getD .null
  read v := (name? v).bind fun name => values.lookup name

def single? (fields : List (Text × Value)) (key : String) : Option Value :=
  match fields.filter (·.1 == .ofString key) with
  | [f] => some f.2
  | _ => none

end Format

namespace Fields

variable {α : Type}

def values? (f : Fields α) : Value → Option (List Value)
  | .array vs => if vs.length = f.names.length then some vs else none
  | .object fields =>
    if fields.all (·.1.toString?.isSome) then f.names.mapM (Format.single? fields) else none
  | _ => none

def format (f : Fields α) : Format α where
  write a := .record (f.names.zip (f.write a))
  read v := (f.values? v).bind f.read

end Fields

end PixelLayout.Json
