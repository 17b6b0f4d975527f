import Mathlib.Algebra.BigOperators.Group.Finset.Basic
import Mathlib.Algebra.BigOperators.Group.Finset.Piecewise
import Mathlib.Algebra.Order.BigOperators.Group.List
import Mathlib.Algebra.Order.Ring.Nat

/-!
# Counting references

`hits N f x` is the number of cells below `N` that point at `x`, for a table
`f` of optional pointers. Writing one cell moves the count of its old target
down by one and of its new target up by one (`hits_update`); a family of
tables sums, and writing one member of the family changes one summand
(`sum_update_add`, and `sum_set_add` for a family in a list). Exact reference
counts are bookkeeping over these.
-/

namespace Xv6Labs.Lib

open Finset

variable {α : Type*} [DecidableEq α]

/-- The number of cells `k < N` with `f k = some x`. -/
def hits (N : Nat) (f : Nat → Option α) (x : α) : Nat :=
  #{k ∈ range N | f k = some x}

theorem hits_pos_iff {N : Nat} {f : Nat → Option α} {x : α} :
    0 < hits N f x ↔ ∃ k < N, f k = some x := by
  simp [hits, card_pos, Finset.Nonempty]

theorem two_le_hits {N i j : Nat} {f : Nat → Option α} {x : α} (hne : i ≠ j) (hi : i < N)
    (hj : j < N) (hfi : f i = some x) (hfj : f j = some x) : 2 ≤ hits N f x := by
  refine one_lt_card.mpr ⟨i, ?_, j, ?_, hne⟩
  · exact mem_filter.mpr ⟨mem_range.mpr hi, hfi⟩
  · exact mem_filter.mpr ⟨mem_range.mpr hj, hfj⟩

theorem hits_eq_zero_iff {N : Nat} {f : Nat → Option α} {x : α} :
    hits N f x = 0 ↔ ∀ k < N, f k ≠ some x := by
  simp [hits, filter_eq_empty_iff]

theorem hits_congr {N : Nat} {f g : Nat → Option α} (h : ∀ k < N, f k = g k)
    (x : α) : hits N f x = hits N g x := by
  unfold hits
  congr 1
  refine filter_congr (fun k hk => ?_)
  rw [h k (mem_range.mp hk)]

/-- **One write**: the old target loses a hit, the new one gains one. -/
theorem hits_update {N k : Nat} (hk : k < N) (f : Nat → Option α)
    (v : Option α) (x : α) :
    hits N (Function.update f k v) x + (if f k = some x then 1 else 0) =
      hits N f x + (if v = some x then 1 else 0) := by
  have hmem : k ∈ range N := mem_range.mpr hk
  have hsplit : ∀ g : Nat → Option α, hits N g x =
      (if g k = some x then 1 else 0) +
        #{j ∈ (range N).erase k | g j = some x} := by
    intro g
    unfold hits
    conv_lhs => rw [← insert_erase hmem]
    rw [filter_insert]
    split
    · rw [card_insert_of_notMem (by simp)]
      omega
    · omega
  have hrest : #{j ∈ (range N).erase k | Function.update f k v j = some x} =
      #{j ∈ (range N).erase k | f j = some x} := by
    congr 1
    refine filter_congr (fun j hj => ?_)
    rw [Function.update_of_ne (ne_of_mem_erase hj)]
  rw [hsplit (Function.update f k v), hsplit f, hrest, Function.update_self]
  omega

theorem hits_write {N k : Nat} (hk : k < N) {f g : Nat → Option α}
    (hne : ∀ j, j ≠ k → g j = f j) (x : α) :
    hits N g x + (if f k = some x then 1 else 0) =
      hits N f x + (if g k = some x then 1 else 0) := by
  have hfun : g = Function.update f k (g k) := by
    funext j
    by_cases hj : j = k
    · rw [hj, Function.update_self]
    · rw [Function.update_of_ne hj, hne j hj]
  have h := hits_update hk f (g k) x
  rwa [← hfun] at h

@[simp] theorem hits_zero (f : Nat → Option α) (x : α) : hits 0 f x = 0 := by
  simp [hits]

theorem hits_succ (N : Nat) (f : Nat → Option α) (x : α) :
    hits (N + 1) f x = hits N f x + (if f N = some x then 1 else 0) := by
  unfold hits
  rw [range_add_one, filter_insert]
  split
  · rw [card_insert_of_notMem (by simp)]
  · rfl

theorem hits_add (N n : Nat) (f : Nat → Option α) (x : α) :
    hits (N + n) f x = hits N f x + hits n (fun i => f (N + i)) x := by
  induction n with
  | zero => simp
  | succ n ih =>
      rw [← Nat.add_assoc, hits_succ, hits_succ, ih]
      omega

theorem hits_none {N : Nat} {f : Nat → Option α} (h : ∀ i < N, f i = none) (x : α) :
    hits N f x = 0 := by
  rw [hits_eq_zero_iff]
  intro i hi
  rw [h i hi]
  simp

variable {ι β : Type*} [Fintype ι] [DecidableEq ι]

theorem sum_update_add (g : β → Nat) (f : ι → β) (i : ι) (v : β) :
    (∑ j, g (Function.update f i v j)) + g (f i) = (∑ j, g (f j)) + g v := by
  have h₁ : (∑ j, g (Function.update f i v j)) =
      g v + ∑ j ∈ univ.erase i, g (f j) := by
    rw [← add_sum_erase univ _ (mem_univ i), Function.update_self]
    congr 1
    refine sum_congr rfl (fun j hj => ?_)
    rw [Function.update_of_ne (ne_of_mem_erase hj)]
  have h₂ : (∑ j, g (f j)) = g (f i) + ∑ j ∈ univ.erase i, g (f j) :=
    (add_sum_erase univ _ (mem_univ i)).symm
  rw [h₁, h₂]
  omega

theorem sum_set_add (g : β → Nat) {l : List β} {i : Nat} {a : β} (b : β) (h : l[i]? = some a) :
    ((l.set i b).map g).sum + g a = (l.map g).sum + g b := by
  induction l generalizing i with
  | nil => cases h
  | cons c l ih =>
      cases i with
      | zero =>
          obtain rfl := Option.some.inj h
          simp only [List.set_cons_zero, List.map_cons, List.sum_cons]
          omega
      | succ i =>
          have hrest := ih h
          simp only [List.set_cons_succ, List.map_cons, List.sum_cons]
          omega

theorem le_sum_of_getElem? (g : β → Nat) {l : List β} {i : Nat} {a : β} (h : l[i]? = some a) :
    g a ≤ (l.map g).sum :=
  List.single_le_sum (fun _ _ => Nat.zero_le _) _
    (List.mem_map_of_mem (List.mem_of_getElem? h))

theorem add_le_sum_of_getElem? (g : β → Nat) {l : List β} {i j : Nat} {a b : β} (hij : i ≠ j)
    (hi : l[i]? = some a) (hj : l[j]? = some b) : g a + g b ≤ (l.map g).sum := by
  induction l generalizing i j with
  | nil => cases hi
  | cons c l ih =>
      rw [List.map_cons, List.sum_cons]
      cases i with
      | zero =>
          obtain ⟨j, rfl⟩ := Nat.exists_eq_succ_of_ne_zero hij.symm
          obtain rfl := Option.some.inj hi
          rw [List.getElem?_cons_succ] at hj
          exact Nat.add_le_add_left (le_sum_of_getElem? g hj) _
      | succ i =>
          cases j with
          | zero =>
              obtain rfl := Option.some.inj hj
              rw [List.getElem?_cons_succ] at hi
              rw [Nat.add_comm]
              exact Nat.add_le_add_left (le_sum_of_getElem? g hi) _
          | succ j =>
              exact (ih (fun hh => hij (congrArg _ hh)) hi hj).trans (Nat.le_add_left _ _)

end Xv6Labs.Lib
