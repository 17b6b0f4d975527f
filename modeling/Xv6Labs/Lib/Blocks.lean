import Xv6Labs.Lib.Mem
import Mathlib.Algebra.BigOperators.Intervals
import Mathlib.Data.List.Perm.Basic

/-!
# Blocks of memory and lists threaded through them

A free list kept inside the free memory itself: the first word of a block holds
the address of the next one, 0 ends the list. `Chain` says which blocks a list
head leads to; it only depends on those words (`Chain.congr`).

`Tiles` says that blocks, given as start and size, cover a range of addresses
without overlap. Blocks only ever move between lists, so a tiling is kept by
permuting them (`Tiles.perm`), and two blocks of a tiling never share a byte
(`Tiles.apart`).
-/

namespace Xv6Labs.Lib

/-! ## Words -/

/-- The eight bytes of `x`, the lowest first. -/
def le64 (x : Nat) : List UInt8 :=
  (List.range 8).map (fun i => UInt8.ofNat (x / 256 ^ i % 256))

def Mem.load64 (m : Mem) (a : Nat) : Nat :=
  ∑ i ∈ Finset.range 8, (m (a + i)).toNat * 256 ^ i

theorem length_le64 (x : Nat) : (le64 x).length = 8 := by
  simp [le64]

theorem Mem.load64_congr {m m' : Mem} {a : Nat}
    (h : ∀ x, a ≤ x → x < a + 8 → m' x = m x) : m'.load64 a = m.load64 a := by
  unfold load64
  refine Finset.sum_congr rfl (fun i hi => ?_)
  have hi' := Finset.mem_range.mp hi
  rw [h (a + i) (by omega) (by omega)]

theorem sum_digits (x : Nat) : ∀ k, ∑ i ∈ Finset.range k, x / 256 ^ i % 256 * 256 ^ i =
    x % 256 ^ k := by
  intro k
  induction k with
  | zero => simp [Nat.mod_one]
  | succ k ih =>
      rw [Finset.sum_range_succ, ih, Nat.pow_succ, Nat.mod_mul]
      rw [Nat.mul_comm (256 ^ k)]

/-- **A word read back.** -/
theorem Mem.load64_store (m : Mem) (a : Nat) {x : Nat} (hx : x < 2 ^ 64) :
    (m.store a (le64 x)).load64 a = x := by
  have hbyte : ∀ i ∈ Finset.range 8, ((m.store a (le64 x)) (a + i)).toNat * 256 ^ i =
      x / 256 ^ i % 256 * 256 ^ i := by
    intro i hi
    have hi' := Finset.mem_range.mp hi
    rw [store_of_mem (by rw [length_le64]; omega), Nat.add_sub_cancel_left,
      List.getD_eq_getElem?_getD]
    simp [le64, hi']
  unfold load64
  rw [Finset.sum_congr rfl hbyte, sum_digits]
  exact Nat.mod_eq_of_lt hx

/-! ## Chains -/

/-- The blocks a list head leads to. -/
inductive Chain (m : Mem) : Nat → List Nat → Prop
  | nil : Chain m 0 []
  | cons {r : Nat} {rest : List Nat} (hr : r ≠ 0) (h : Chain m (m.load64 r) rest) :
      Chain m r (r :: rest)

theorem Chain.congr {m m' : Mem} {head : Nat} {l : List Nat} (hc : Chain m head l)
    (h : ∀ r ∈ l, ∀ x, r ≤ x → x < r + 8 → m' x = m x) : Chain m' head l := by
  induction hc with
  | nil => exact .nil
  | cons hr hrest ih =>
      refine .cons hr ?_
      rw [Mem.load64_congr (h _ List.mem_cons_self)]
      exact ih (fun r hr' => h r (List.mem_cons_of_mem _ hr'))

theorem Chain.head_lt {m : Mem} {head bound : Nat} {l : List Nat} (hc : Chain m head l)
    (hpos : 0 < bound) (h : ∀ r ∈ l, r < bound) : head < bound := by
  cases hc with
  | nil => exact hpos
  | cons _ _ => exact h _ List.mem_cons_self

/-- Put a block at the head of a list: junk all over it, then the link. -/
def link (m : Mem) (pa size head : Nat) : Mem := (m.fill pa size 1).store pa (le64 head)

theorem link_of_notMem {m : Mem} {pa size head x : Nat} (hsize : 8 ≤ size)
    (h : ¬ (pa ≤ x ∧ x < pa + size)) : link m pa size head x = m x := by
  unfold link
  rw [Mem.store_of_notMem (by rw [length_le64]; omega), Mem.fill_of_notMem h]

/-- **Pushing a block** that shares no link word with the chain. -/
theorem Chain.push {m : Mem} {head pa size : Nat} {l : List Nat} (hc : Chain m head l)
    (hpa : pa ≠ 0) (hhead : head < 2 ^ 64) (hsize : 8 ≤ size)
    (hap : ∀ r ∈ l, ∀ x, r ≤ x → x < r + 8 → ¬ (pa ≤ x ∧ x < pa + size)) :
    Chain (link m pa size head) pa (pa :: l) := by
  refine .cons hpa ?_
  rw [link, Mem.load64_store _ _ hhead]
  exact hc.congr (fun r hr x h₁ h₂ => link_of_notMem hsize (hap r hr x h₁ h₂))

/-! ## Tilings -/

abbrev Block := Nat × Nat

def Block.has (b : Block) (x : Nat) : Prop := b.1 ≤ x ∧ x < b.1 + b.2

def Block.apart (b c : Block) : Prop := b.1 + b.2 ≤ c.1 ∨ c.1 + c.2 ≤ b.1

theorem Block.apart.symm {b c : Block} (h : b.apart c) : c.apart b := Or.symm h

theorem Block.apart.notMem {b c : Block} (h : b.apart c) {x : Nat} (hb : b.has x) :
    ¬ c.has x := by
  unfold Block.apart at h
  unfold Block.has at *
  omega

/-- The blocks cover `[lo, hi)`, each byte once. -/
structure Tiles (bs : List Block) (lo hi : Nat) : Prop where
  apart : bs.Pairwise Block.apart
  inside : ∀ b ∈ bs, lo ≤ b.1 ∧ b.1 + b.2 ≤ hi
  cover : ∀ x, lo ≤ x → x < hi → ∃ b ∈ bs, b.has x

theorem Tiles.nil (lo : Nat) : Tiles [] lo lo := by
  refine ⟨.nil, fun b hb => absurd hb (by simp), fun x h₁ h₂ => ?_⟩
  omega

theorem Tiles.cons {bs : List Block} {lo hi size : Nat} (h : Tiles bs lo hi)
    (hle : lo ≤ hi) : Tiles ((hi, size) :: bs) lo (hi + size) := by
  refine ⟨List.pairwise_cons.mpr ⟨fun b hb => ?_, h.apart⟩, fun b hb => ?_,
    fun x h₁ h₂ => ?_⟩
  · exact .inr (h.inside b hb).2
  · rcases List.mem_cons.mp hb with rfl | hb
    · exact ⟨hle, Nat.le_refl _⟩
    · have := h.inside b hb
      omega
  · by_cases hx : x < hi
    · obtain ⟨b, hb, hbx⟩ := h.cover x h₁ hx
      exact ⟨b, List.mem_cons_of_mem _ hb, hbx⟩
    · exact ⟨(hi, size), List.mem_cons_self, Nat.not_lt.mp hx, h₂⟩

theorem Tiles.perm {bs bs' : List Block} {lo hi : Nat} (h : Tiles bs lo hi)
    (hp : bs.Perm bs') : Tiles bs' lo hi := by
  refine ⟨(hp.pairwise_iff Block.apart.symm).mp h.apart, fun b hb => ?_, fun x h₁ h₂ => ?_⟩
  · exact h.inside b (hp.mem_iff.mpr hb)
  · obtain ⟨b, hb, hbx⟩ := h.cover x h₁ h₂
    exact ⟨b, hp.mem_iff.mp hb, hbx⟩

theorem Tiles.head_apart {b c : Block} {bs : List Block} {lo hi : Nat}
    (h : Tiles (b :: bs) lo hi) (hc : c ∈ bs) : b.apart c :=
  (List.pairwise_cons.mp h.apart).1 c hc

end Xv6Labs.Lib
