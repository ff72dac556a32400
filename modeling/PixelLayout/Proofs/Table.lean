import PixelLayout.Table

/-!
# Keys and values of tables

Each operation on a table, with the keys that the result has and with what holds of all its
values.
-/

set_option autoImplicit false

namespace PixelLayout.Table

variable {α β : Type} (t : Table α)

@[simp] theorem contains_insert (key key' : Nat) (value : α) :
    (t.insert key value).contains key' = (key == key' || t.contains key') := by
  rw [contains, get?_insert]
  by_cases h : key = key' <;> simp [h, contains]

@[simp] theorem contains_modify (key key' : Nat) (fallback : α) (f : α → α) :
    (t.modify key fallback f).contains key' = (key == key' || t.contains key') :=
  t.contains_insert _ _ _

@[simp] theorem contains_keep (p : Nat → Bool) (key : Nat) :
    (t.keep p).contains key = (p key && t.contains key) := by
  rw [contains, get?_keep]
  cases p key <;> simp [contains]

@[simp] theorem contains_erase (key key' : Nat) :
    (t.erase key).contains key' = (key' != key && t.contains key') :=
  t.contains_keep _ _

@[simp] theorem contains_map (f : α → α) (key : Nat) :
    (t.map f).contains key = t.contains key := by
  rw [contains, get?_map, Option.isSome_map, contains]

theorem contains_foldl_modify (key : β → Nat) (fallback : α) (f : β → α → α) (bs : List β)
    (id : Nat) :
    (bs.foldl (fun t b => t.modify (key b) fallback (f b)) t).contains id =
      (bs.any (key · == id) || t.contains id) := by
  induction bs generalizing t with
  | nil => simp
  | cons b bs ih => simp [ih, Bool.or_assoc, Bool.or_left_comm]

theorem get?_foldl_modify_of_not_mem (key : β → Nat) (fallback : α) (f : β → α → α) {bs : List β}
    {id : Nat} (h : id ∉ bs.map key) :
    (bs.foldl (fun t b => t.modify (key b) fallback (f b)) t).get? id = t.get? id := by
  induction bs generalizing t with
  | nil => rfl
  | cons b bs ih =>
    rw [List.map_cons, List.mem_cons, not_or] at h
    rw [List.foldl_cons, ih _ h.2, modify, get?_insert, if_neg (Ne.symm h.1)]

/-- A key that has been modified has the value of one of its modifications. -/
theorem exists_get?_foldl_modify (key : β → Nat) (fallback : α) (f : β → α → α) {bs : List β}
    {id : Nat} (h : id ∈ bs.map key) :
    ∃ b ∈ bs, key b = id ∧ ∃ a,
      (bs.foldl (fun t b => t.modify (key b) fallback (f b)) t).get? id = some (f b a) := by
  induction bs generalizing t with
  | nil => cases h
  | cons b bs ih =>
    rw [List.foldl_cons]
    by_cases later : id ∈ bs.map key
    · obtain ⟨b', hb', same, value⟩ := ih (t.modify (key b) fallback (f b)) later
      exact ⟨b', List.mem_cons_of_mem _ hb', same, value⟩
    · obtain rfl := (List.mem_cons.mp h).resolve_right later
      refine ⟨b, List.mem_cons_self, rfl, (t.get? (key b)).getD fallback, ?_⟩
      rw [get?_foldl_modify_of_not_mem _ key fallback f later, modify, get?_insert, if_pos rfl]

/-- A key that has been modified once has the modified value. -/
theorem get?_foldl_modify (key : β → Nat) (fallback : α) (f : β → α → α) {bs : List β}
    (distinct : (bs.map key).Nodup) {b : β} (h : b ∈ bs) :
    (bs.foldl (fun t b => t.modify (key b) fallback (f b)) t).get? (key b) =
      some (f b ((t.get? (key b)).getD fallback)) := by
  induction bs generalizing t with
  | nil => cases h
  | cons b' bs ih =>
    obtain ⟨first, rest⟩ := List.nodup_cons.mp distinct
    rw [List.foldl_cons]
    rcases List.mem_cons.mp h with rfl | h
    · rw [get?_foldl_modify_of_not_mem _ key fallback f first, modify, get?_insert, if_pos rfl]
    · have other : key b' ≠ key b := fun same => first (same ▸ List.mem_map_of_mem h)
      rw [ih _ rest h, modify, get?_insert, if_neg other]

theorem mem_keys_of_contains {key : Nat} (h : t.contains key = true) : key ∈ t.keys := by
  obtain ⟨es⟩ := t
  simp only [contains, get?, keys] at h ⊢
  induction es with
  | nil => simp [lookup] at h
  | cons e es ih =>
    simp only [lookup] at h
    split at h
    · next he => exact he ▸ List.mem_cons_self
    · exact List.mem_cons_of_mem _ (ih h)

theorem contains_of_mem {e : Nat × α} (h : e ∈ t.entries) : t.contains e.1 = true := by
  obtain ⟨es⟩ := t
  simp only [contains, get?] at h ⊢
  induction es with
  | nil => cases h
  | cons first es ih =>
    obtain ⟨k, a⟩ := first
    by_cases hk : k = e.1
    · simp [lookup, hk]
    · rcases List.mem_cons.mp h with rfl | h
      · exact absurd rfl hk
      · simpa [lookup, hk] using ih h

section Keep

variable {t} {p q : Nat → Bool}

/-- Tests that agree on the keys of a table keep the same entries. -/
theorem keep_congr (h : ∀ key, t.contains key = true → p key = q key) : t.keep p = t.keep q := by
  exact congrArg Table.mk (List.filter_congr fun e he => h e.1 (t.contains_of_mem he))

theorem keep_eq_self (h : ∀ key, t.contains key = true → p key = true) : t.keep p = t := by
  exact congrArg Table.mk (List.filter_eq_self.mpr fun e he => h e.1 (t.contains_of_mem he))

theorem keep_keep : (t.keep p).keep q = t.keep fun key => p key && q key := by
  refine congrArg Table.mk (List.filter_filter.trans (List.filter_congr fun e _ => ?_))
  exact Bool.and_comm _ _

/-- A key that is kept may be inserted before or after. -/
theorem keep_insert {key : Nat} (kept : p key = true) (value : α) :
    (t.insert key value).keep p = (t.keep p).insert key value := by
  obtain ⟨es⟩ := t
  simp only [keep, insert, mk.injEq]
  induction es with
  | nil => simp [put, kept]
  | cons e es ih =>
    obtain ⟨k, a⟩ := e
    by_cases h : k = key
    · subst h
      simp [put, kept]
    · by_cases hp : p k = true <;> simp [put, h, hp, ih]

end Keep

section Map

variable (f : α → α)

theorem map_keep (p : Nat → Bool) : (t.keep p).map f = (t.map f).keep p := by
  simp only [map, keep, List.filter_map]
  rfl

theorem map_insert (key : Nat) (value : α) :
    (t.insert key value).map f = (t.map f).insert key (f value) := by
  obtain ⟨es⟩ := t
  simp only [map, insert, mk.injEq]
  induction es with
  | nil => rfl
  | cons e es ih =>
    obtain ⟨k, a⟩ := e
    by_cases h : k = key <;> simp [put, h, ih]

end Map

def All (p : α → Prop) (t : Table α) : Prop := ∀ key a, t.get? key = some a → p a

namespace All

variable {p : α → Prop} {t : Table α}

theorem empty (p : α → Prop) : All p .empty := by
  intro key a h
  cases h

theorem insert (h : All p t) (key : Nat) {value : α} (hv : p value) :
    All p (t.insert key value) := by
  intro key' a ha
  rw [get?_insert] at ha
  split at ha
  · cases ha
    exact hv
  · exact h key' a ha

theorem modify (h : All p t) (key : Nat) {fallback : α} {f : α → α} (hb : p (f fallback))
    (hf : ∀ a, p a → p (f a)) : All p (t.modify key fallback f) := by
  refine h.insert key ?_
  cases hk : t.get? key with
  | none => exact hb
  | some a => exact hf a (h key a hk)

theorem keep (h : All p t) (q : Nat → Bool) : All p (t.keep q) := by
  intro key a ha
  rw [get?_keep] at ha
  split at ha
  · exact h key a ha
  · cases ha

theorem map (h : All p t) {f : α → α} (hf : ∀ a, p a → p (f a)) : All p (t.map f) := by
  intro key a ha
  rw [get?_map] at ha
  obtain ⟨b, hb, rfl⟩ := Option.map_eq_some_iff.mp ha
  exact hf b (h key b hb)

theorem foldl_modify (h : All p t) (key : β → Nat) {fallback : α} {f : β → α → α} (bs : List β)
    (hb : ∀ b ∈ bs, p (f b fallback)) (hf : ∀ b ∈ bs, ∀ a, p a → p (f b a)) :
    All p (bs.foldl (fun t b => t.modify (key b) fallback (f b)) t) := by
  induction bs generalizing t with
  | nil => exact h
  | cons b bs ih =>
    rw [List.forall_mem_cons] at hb hf
    exact ih (h.modify (key b) hb.1 hf.1) hb.2 hf.2

end All

end PixelLayout.Table
