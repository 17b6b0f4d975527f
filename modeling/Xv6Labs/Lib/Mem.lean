import Mathlib.Logic.Function.Basic

/-!
# Byte memories

A memory is a function from addresses to bytes. `fill`, `copy` and `store`
are the three block writes (`memset`, `memmove` between disjoint blocks, and
`memmove` from a buffer the memory does not hold). Each comes with its frame
lemma: addresses outside the block keep their byte.
-/

namespace Xv6Labs.Lib

abbrev Mem := Nat → UInt8

namespace Mem

/-- `n` bytes from `a` on become `c`. -/
def fill (m : Mem) (a n : Nat) (c : UInt8) : Mem :=
  fun x => if a ≤ x ∧ x < a + n then c else m x

/-- `n` bytes from `src` on are copied to `dst`. -/
def copy (m : Mem) (dst src n : Nat) : Mem :=
  fun x => if dst ≤ x ∧ x < dst + n then m (src + (x - dst)) else m x

/-- The bytes `bs` are written from `a` on. -/
def store (m : Mem) (a : Nat) (bs : List UInt8) : Mem :=
  fun x => if a ≤ x ∧ x < a + bs.length then bs.getD (x - a) 0 else m x

theorem fill_of_mem {m : Mem} {a n x : Nat} {c : UInt8}
    (h : a ≤ x ∧ x < a + n) : fill m a n c x = c := if_pos h

theorem fill_of_notMem {m : Mem} {a n x : Nat} {c : UInt8}
    (h : ¬ (a ≤ x ∧ x < a + n)) : fill m a n c x = m x := if_neg h

theorem copy_of_mem {m : Mem} {dst src n x : Nat}
    (h : dst ≤ x ∧ x < dst + n) : copy m dst src n x = m (src + (x - dst)) :=
  if_pos h

theorem copy_of_notMem {m : Mem} {dst src n x : Nat}
    (h : ¬ (dst ≤ x ∧ x < dst + n)) : copy m dst src n x = m x := if_neg h

theorem store_of_mem {m : Mem} {a x : Nat} {bs : List UInt8}
    (h : a ≤ x ∧ x < a + bs.length) : store m a bs x = bs.getD (x - a) 0 :=
  if_pos h

theorem store_of_notMem {m : Mem} {a x : Nat} {bs : List UInt8}
    (h : ¬ (a ≤ x ∧ x < a + bs.length)) : store m a bs x = m x := if_neg h

end Mem

end Xv6Labs.Lib
