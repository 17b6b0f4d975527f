import Mathlib.Data.List.Lex
import Mathlib.Data.List.Basic

/-!
# Radix trees

Trees of tables: the entry at an index of a table is absent, a leaf, or points
at a lower table. A path is the list of indices that leads to an entry. The
depth-first listing of a tree by increasing index is the list of its paths in
lexicographic order, a path before those that extend it.
-/

namespace Xv6Labs.Lib.Radix

variable {σ : Type} {width : Nat} {entry : σ → Nat → Option (Option σ)}

/-- The paths of the entries reachable from a table. -/
inductive IsPath (width : Nat) (entry : σ → Nat → Option (Option σ)) :
    σ → List Nat → Prop where
  | last {s : σ} {i : Nat} (hi : i < width) (h : (entry s i).isSome) :
      IsPath width entry s [i]
  | through {s t : σ} {i : Nat} {p : List Nat} (hi : i < width)
      (h : entry s i = some (some t)) (hp : IsPath width entry t p) :
      IsPath width entry s (i :: p)

/-- The depth-first listing, `n` levels down. -/
def preorder (width : Nat) (entry : σ → Nat → Option (Option σ)) :
    Nat → σ → List (List Nat)
  | 0, _ => []
  | n + 1, s => (List.range width).flatMap fun i =>
      match entry s i with
      | none => []
      | some none => [[i]]
      | some (some t) => [i] :: (preorder width entry n t).map (i :: ·)

theorem IsPath.ne_nil {s : σ} {p : List Nat} (h : IsPath width entry s p) :
    p ≠ [] := by
  cases h <;> exact List.cons_ne_nil _ _

theorem IsPath.lt_width {s : σ} {p : List Nat} (h : IsPath width entry s p) :
    ∀ i ∈ p, i < width := by
  induction h with
  | last hi h =>
      intro j hj
      rwa [List.mem_singleton.mp hj]
  | through hi h hp ih =>
      intro j hj
      rcases List.mem_cons.mp hj with rfl | hj
      · exact hi
      · exact ih j hj

theorem mem_preorder {n : Nat} {s : σ} {p : List Nat} :
    p ∈ preorder width entry n s ↔ IsPath width entry s p ∧ p.length ≤ n := by
  induction n generalizing s p with
  | zero =>
      constructor
      · intro h
        cases h
      · rintro ⟨h, hlen⟩
        exact absurd (List.length_eq_zero_iff.mp (Nat.le_zero.mp hlen)) h.ne_nil
  | succ n ih =>
      rw [preorder, List.mem_flatMap]
      constructor
      · rintro ⟨i, hi, h⟩
        rw [List.mem_range] at hi
        rcases he : entry s i with _ | _ | t <;> rw [he] at h
        · cases h
        · rw [List.mem_singleton.mp h]
          exact ⟨.last hi (by rw [he]; rfl), Nat.succ_le_succ n.zero_le⟩
        · rcases List.mem_cons.mp h with rfl | h
          · exact ⟨.last hi (by rw [he]; rfl), Nat.succ_le_succ n.zero_le⟩
          · obtain ⟨q, hq, rfl⟩ := List.mem_map.mp h
            obtain ⟨hpath, hlen⟩ := ih.mp hq
            exact ⟨.through hi he hpath, Nat.succ_le_succ hlen⟩
      · rintro ⟨h, hlen⟩
        cases h with
        | @last _ i hi h =>
            refine ⟨i, List.mem_range.mpr hi, ?_⟩
            rcases he : entry s i with _ | _ | t
            · rw [he] at h
              cases h
            · exact List.mem_singleton_self _
            · exact List.mem_cons_self
        | @through _ t i q hi h hp =>
            refine ⟨i, List.mem_range.mpr hi, ?_⟩
            rw [h]
            apply List.mem_cons_of_mem
            apply List.mem_map_of_mem
            exact ih.mpr ⟨hp, Nat.le_of_succ_le_succ hlen⟩

theorem preorder_head {n i : Nat} {s : σ} {p : List Nat}
    (h : p ∈ match entry s i with
      | none => []
      | some none => [[i]]
      | some (some t) => [i] :: (preorder width entry n t).map (i :: ·)) :
    ∃ q, p = i :: q := by
  rcases he : entry s i with _ | _ | t <;> rw [he] at h
  · cases h
  · exact ⟨[], List.mem_singleton.mp h⟩
  · rcases List.mem_cons.mp h with rfl | h
    · exact ⟨[], rfl⟩
    · obtain ⟨q, -, rfl⟩ := List.mem_map.mp h
      exact ⟨q, rfl⟩

theorem preorder_sorted (n : Nat) (s : σ) :
    (preorder width entry n s).Pairwise (· < ·) := by
  induction n generalizing s with
  | zero => exact List.Pairwise.nil
  | succ n ih =>
      rw [preorder, List.pairwise_flatMap]
      constructor
      · intro i _
        rcases entry s i with _ | _ | t
        · exact List.Pairwise.nil
        · exact List.pairwise_singleton _ _
        · refine List.pairwise_cons.mpr ⟨?_, ?_⟩
          · intro p hp
            obtain ⟨q, hq, rfl⟩ := List.mem_map.mp hp
            obtain ⟨j, q, rfl⟩ := List.exists_cons_of_ne_nil (mem_preorder.mp hq).1.ne_nil
            exact List.cons_lt_cons_iff.mpr (.inr ⟨rfl, List.nil_lt_cons _ _⟩)
          · refine (ih t).map _ ?_
            intro p q hpq
            exact List.cons_lt_cons_iff.mpr (.inr ⟨rfl, hpq⟩)
      · refine List.pairwise_lt_range.imp ?_
        intro i j hij p hp q hq
        obtain ⟨p', rfl⟩ := preorder_head hp
        obtain ⟨q', rfl⟩ := preorder_head hq
        exact List.cons_lt_cons_iff.mpr (.inl hij)

end Xv6Labs.Lib.Radix
