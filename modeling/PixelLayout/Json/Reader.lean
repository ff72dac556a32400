import PixelLayout.Json.Token

/-!
# Reading JSON values

Tokens are read one by one. The reader keeps what it has of the arrays and objects that are still
open, the innermost first, and knows what may come next. A text is read if after its last token
one value is finished.
-/

set_option autoImplicit false

namespace PixelLayout.Json

inductive Frame where
  | element (before : List Value)
  | field (before : List (Text × Value)) (key : Text)

inductive Reader where
  | value (outer : List Frame)
  | firstElement (outer : List Frame)
  | firstKey (outer : List Frame)
  | key (before : List (Text × Value)) (outer : List Frame)
  | colon (before : List (Text × Value)) (key : Text) (outer : List Frame)
  | afterElement (elements : List Value) (outer : List Frame)
  | afterField (fields : List (Text × Value)) (outer : List Frame)
  | finished (v : Value)

namespace Reader

def supply (v : Value) : List Frame → Reader
  | [] => .finished v
  | .element before :: outer => .afterElement (v :: before) outer
  | .field before k :: outer => .afterField ((k, v) :: before) outer

def begin? (outer : List Frame) : Token → Option Reader
  | .beginArray => some (.firstElement outer)
  | .beginObject => some (.firstKey outer)
  | .text t => some (supply (.text t) outer)
  | .scalar v => some (supply v outer)
  | _ => none

def step : Reader → Token → Option Reader
  | .value outer, t => begin? outer t
  | .firstElement outer, .endArray => some (supply (.array []) outer)
  | .firstElement outer, t => begin? (.element [] :: outer) t
  | .firstKey outer, .endObject => some (supply (.object []) outer)
  | .firstKey outer, .text k => some (.colon [] k outer)
  | .key before outer, .text k => some (.colon before k outer)
  | .colon before k outer, .colon => some (.value (.field before k :: outer))
  | .afterElement elements outer, .comma => some (.value (.element elements :: outer))
  | .afterElement elements outer, .endArray => some (supply (.array elements.reverse) outer)
  | .afterField fields outer, .comma => some (.key fields outer)
  | .afterField fields outer, .endObject => some (supply (.object fields.reverse) outer)
  | _, _ => none

end Reader

def Value.ofTokens? (ts : List Token) : Option Value :=
  match ts.foldlM Reader.step (.value []) with
  | some (.finished v) => some v
  | _ => none

def Value.parse? (text : String) : Option Value :=
  (tokens? text.toList).bind ofTokens?

end PixelLayout.Json
