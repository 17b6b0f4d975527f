import Xv6Labs.Lib.Blocks
import Xv6Labs.Lib.CString
import Mathlib.Data.List.GetD

/-!
# What a memory holds

`m.Holds a bs` says that the bytes `bs` stand at `a`. It survives every write
elsewhere (`Holds.congr`), splits at an append, and is what a reader of a word, of an
array of words or of a C string needs.
-/

namespace Xv6Labs.Lib

namespace Mem

variable {m m' : Mem} {a x : Nat} {bs cs : List UInt8}

/-- The bytes `bs` stand at `a`. -/
def Holds (m : Mem) (a : Nat) (bs : List UInt8) : Prop :=
  ∀ i, i < bs.length → m (a + i) = bs.getD i 0

theorem holds_store (m : Mem) (a : Nat) (bs : List UInt8) : (m.store a bs).Holds a bs := by
  intro i hi
  rw [store_of_mem (by omega), Nat.add_sub_cancel_left]

theorem Holds.congr (h : m.Holds a bs)
    (hm : ∀ x, a ≤ x → x < a + bs.length → m' x = m x) : m'.Holds a bs := by
  intro i hi
  rw [hm _ (by omega) (by omega)]
  exact h i hi

theorem Holds.left (h : m.Holds a (bs ++ cs)) : m.Holds a bs := by
  intro i hi
  rw [h i (by rw [List.length_append]; omega), List.getD_append _ _ _ _ hi]

theorem Holds.right (h : m.Holds a (bs ++ cs)) : m.Holds (a + bs.length) cs := by
  intro i hi
  rw [Nat.add_assoc, h _ (by rw [List.length_append]; omega),
    List.getD_append_right _ _ _ _ (by omega), Nat.add_sub_cancel_left]

/-! ## Words -/

/-- **A word is read back.** -/
theorem Holds.load64 (h : m.Holds a (le64 x)) (hx : x < 2 ^ 64) : m.load64 a = x := by
  rw [← load64_store m a hx]
  refine load64_congr (fun y h₁ h₂ => ?_)
  obtain ⟨i, rfl⟩ := Nat.exists_eq_add_of_le h₁
  have hi : i < (le64 x).length := by
    rw [length_le64]
    omega
  rw [h i hi, holds_store m a (le64 x) i hi]

/-- **An array of words is read back.** -/
theorem Holds.words {ws : List Nat} (h : m.Holds a (ws.flatMap le64))
    (hws : ∀ w ∈ ws, w < 2 ^ 64) {i : Nat} (hi : i < ws.length) :
    m.load64 (a + 8 * i) = ws[i] := by
  induction ws generalizing a i with
  | nil => cases hi
  | cons w ws ih =>
      rw [List.flatMap_cons] at h
      cases i with
      | zero =>
          rw [Nat.mul_zero, Nat.add_zero, List.getElem_cons_zero]
          exact h.left.load64 (hws w List.mem_cons_self)
      | succ i =>
          have hrest := h.right
          rw [length_le64] at hrest
          rw [List.getElem_cons_succ, ← ih hrest
            (fun v hv => hws v (List.mem_cons_of_mem _ hv)) (Nat.lt_of_succ_lt_succ hi)]
          congr 1
          omega

theorem length_words (ws : List Nat) : (ws.flatMap le64).length = 8 * ws.length := by
  induction ws with
  | nil => rfl
  | cons w ws ih =>
      rw [List.flatMap_cons, List.length_append, length_le64, ih, List.length_cons]
      omega

/-! ## Strings -/

/-- The C string at `a`, if it ends within `n` bytes. -/
def string (m : Mem) (a n : Nat) : Bytes := cstr ((List.range n).map (fun i => m (a + i)))

/-- **A string is read back.** -/
theorem Holds.string {s : Bytes} (h : m.Holds a (s ++ [0])) (hs : (0 : UInt8) ∉ s) {n : Nat}
    (hn : s.length < n) : m.string a n = s := by
  have hbytes : (List.range n).map (fun i => m (a + i)) = s ++ 0 ::
      (List.range (n - s.length - 1)).map (fun i => m (a + (s.length + 1 + i))) := by
    apply List.ext_getElem
    · simp only [List.length_map, List.length_range, List.length_append, List.length_cons]
      omega
    · intro i h₁ h₂
      rw [List.getElem_map, List.getElem_range]
      rcases Nat.lt_trichotomy i s.length with hi | rfl | hi
      · rw [List.getElem_append_left hi, h.left i hi, List.getD_eq_getElem _ _ hi]
      · rw [List.getElem_append_right (Nat.le_refl _)]
        simpa using h.right 0 (by decide)
      · rw [List.getElem_append_right (Nat.le_of_lt hi)]
        obtain ⟨k, rfl⟩ : ∃ k, i = s.length + 1 + k := ⟨i - (s.length + 1), by omega⟩
        have hk : s.length + 1 + k - s.length = k + 1 := by omega
        simp [hk]
  unfold Mem.string
  rw [hbytes]
  exact cstr_append_zero hs _

end Mem

end Xv6Labs.Lib
