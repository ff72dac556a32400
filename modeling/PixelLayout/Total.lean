/-!
# Totals

The sums of extents and of weights. An empty list adds up to zero.
-/

set_option autoImplicit false

namespace PixelLayout

def total : List Int → Int
  | [] => 0
  | n :: ns => n + total ns

def totalWeight : List Nat → Nat
  | [] => 0
  | n :: ns => n + totalWeight ns

@[simp] theorem total_nil : total [] = 0 := rfl

@[simp] theorem total_cons (n : Int) (ns : List Int) : total (n :: ns) = n + total ns := rfl

@[simp] theorem totalWeight_nil : totalWeight [] = 0 := rfl

@[simp] theorem totalWeight_cons (n : Nat) (ns : List Nat) :
    totalWeight (n :: ns) = n + totalWeight ns := rfl

theorem total_append (ms ns : List Int) : total (ms ++ ns) = total ms + total ns := by
  induction ms with
  | nil => simp
  | cons m ms ih => simp [ih, Int.add_assoc]

theorem total_perm {ms ns : List Int} (h : ms.Perm ns) : total ms = total ns := by
  induction h with
  | nil => rfl
  | cons m _ ih => simp [ih]
  | swap m n ns => simp only [total_cons]; omega
  | trans _ _ ih ih' => exact ih.trans ih'

theorem total_nonneg {ns : List Int} (h : ∀ n ∈ ns, 0 ≤ n) : 0 ≤ total ns := by
  induction ns with
  | nil => simp
  | cons n ns ih =>
    have hn := h n (by simp)
    have hns := ih fun m hm => h m (by simp [hm])
    simp only [total_cons]
    omega

theorem le_total_of_mem {n : Int} {ns : List Int} (h : ∀ m ∈ ns, 0 ≤ m) (hn : n ∈ ns) :
    n ≤ total ns := by
  induction ns with
  | nil => simp at hn
  | cons m ns ih =>
    have hm := h m (by simp)
    have hns : ∀ k ∈ ns, 0 ≤ k := fun k hk => h k (by simp [hk])
    have hrest := total_nonneg hns
    simp only [total_cons]
    rcases List.mem_cons.mp hn with hn | hn
    · omega
    · have := ih hns hn
      omega

theorem total_map_add {α : Type} (f g : α → Int) (as : List α) :
    total (as.map fun a => f a + g a) = total (as.map f) + total (as.map g) := by
  induction as with
  | nil => rfl
  | cons a as ih => simp only [List.map_cons, total_cons, ih]; omega

theorem total_map_mul (c : Int) (ns : List Int) : total (ns.map (c * ·)) = c * total ns := by
  induction ns with
  | nil => simp
  | cons n ns ih => rw [List.map_cons, total_cons, total_cons, ih, Int.mul_add]

theorem total_le_of_mem {n : Int} {ns : List Int} (h : ∀ m ∈ ns, m ≤ 0) (hn : n ∈ ns) :
    total ns ≤ n := by
  have opposite : ∀ m ∈ ns.map (-1 * ·), 0 ≤ m := by
    intro m hm
    obtain ⟨k, hk, rfl⟩ := List.mem_map.mp hm
    have := h k hk
    omega
  have := le_total_of_mem opposite (List.mem_map_of_mem hn)
  rw [total_map_mul] at this
  omega

end PixelLayout
