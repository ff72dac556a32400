/-!
# Tables keyed by item

A table is a list of entries with the key first. Inserting replaces the first entry of the key
in place or else appends one, so that a table built by these operations has one entry a key.
-/

set_option autoImplicit false

namespace PixelLayout

structure Table (α : Type) where
  entries : List (Nat × α)
  deriving Repr

namespace Table

variable {α : Type}

def empty : Table α := ⟨[]⟩

def lookup (key : Nat) : List (Nat × α) → Option α
  | [] => none
  | (k, a) :: rest => if k = key then some a else lookup key rest

def get? (t : Table α) (key : Nat) : Option α := lookup key t.entries

def contains (t : Table α) (key : Nat) : Bool := (t.get? key).isSome

def put (key : Nat) (value : α) : List (Nat × α) → List (Nat × α)
  | [] => [(key, value)]
  | (k, a) :: rest => if k = key then (key, value) :: rest else (k, a) :: put key value rest

def insert (t : Table α) (key : Nat) (value : α) : Table α := ⟨put key value t.entries⟩

def modify (t : Table α) (key : Nat) (fallback : α) (f : α → α) : Table α :=
  t.insert key (f ((t.get? key).getD fallback))

def keep (t : Table α) (p : Nat → Bool) : Table α := ⟨t.entries.filter fun e => p e.1⟩

def erase (t : Table α) (key : Nat) : Table α := t.keep (· != key)

def map (t : Table α) (f : α → α) : Table α := ⟨t.entries.map fun e => (e.1, f e.2)⟩

def keys (t : Table α) : List Nat := t.entries.map (·.1)

def values (t : Table α) : List α := t.entries.map (·.2)

theorem lookup_put (key key' : Nat) (value : α) (es : List (Nat × α)) :
    lookup key' (put key value es) = if key = key' then some value else lookup key' es := by
  induction es with
  | nil => simp [put, lookup]
  | cons e es ih =>
    obtain ⟨k, a⟩ := e
    by_cases h : k = key
    · subst h
      simp only [put, if_true, lookup]
      split <;> rfl
    · simp only [put, if_neg h, lookup, ih]
      by_cases h' : k = key'
      · subst h'
        simp [Ne.symm h]
      · simp [h']

theorem get?_insert (t : Table α) (key key' : Nat) (value : α) :
    (t.insert key value).get? key' = if key = key' then some value else t.get? key' :=
  lookup_put key key' value t.entries

theorem get?_keep (t : Table α) (p : Nat → Bool) (key : Nat) :
    (t.keep p).get? key = if p key then t.get? key else none := by
  obtain ⟨es⟩ := t
  simp only [get?, keep]
  induction es with
  | nil => simp [lookup]
  | cons e es ih =>
    obtain ⟨k, a⟩ := e
    by_cases hp : p k = true
    · by_cases hk : k = key
      · subst hk
        simp [hp, lookup]
      · simp [hp, lookup, hk, ih]
    · by_cases hk : k = key
      · subst hk
        simp only [hp, List.filter_cons, Bool.false_eq_true, if_false]
        simpa [hp] using ih
      · simp [hp, lookup, hk, ih]

theorem get?_erase (t : Table α) (key key' : Nat) :
    (t.erase key).get? key' = if key' = key then none else t.get? key' := by
  rw [erase, get?_keep]
  by_cases h : key' = key <;> simp [h]

theorem get?_map (t : Table α) (f : α → α) (key : Nat) :
    (t.map f).get? key = (t.get? key).map f := by
  obtain ⟨es⟩ := t
  simp only [get?, map]
  induction es with
  | nil => rfl
  | cons e es ih =>
    obtain ⟨k, a⟩ := e
    by_cases hk : k = key <;> simp [lookup, hk, ih]

end Table

end PixelLayout
