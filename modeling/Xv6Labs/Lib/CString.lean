import Mathlib.Data.List.Basic
import Mathlib.Data.List.TakeWhile

/-!
# Byte buffers and C strings

A buffer is the list of its bytes. `writeAt` stores a block at an offset, `cstr`
reads the string that starts the buffer.
-/

namespace Xv6Labs.Lib

abbrev Bytes := List UInt8

/-- The string at the head of a buffer: the bytes before the first NUL. -/
def cstr (b : Bytes) : Bytes := b.takeWhile (· ≠ 0)

def writeAt (b : Bytes) (off : Nat) (src : Bytes) : Bytes :=
  b.take off ++ src ++ b.drop (off + src.length)

/-- Store `src` from offset `off` on, if the buffer reaches that far. -/
def storeAt (b : Bytes) (off : Nat) (src : Bytes) : Option Bytes :=
  if off + src.length ≤ b.length then some (writeAt b off src) else none

theorem cstr_append_of_notMem {s : Bytes} (hs : (0 : UInt8) ∉ s) (t : Bytes) :
    cstr (s ++ t) = s ++ cstr t := by
  unfold cstr
  rw [List.takeWhile_append_of_pos]
  intro c hc
  simpa using fun h : c = 0 => hs (h ▸ hc)

/-- What follows a NUL is not read. -/
theorem cstr_append_nul (s t : Bytes) : cstr (s ++ 0 :: t) = cstr s := by
  unfold cstr
  induction s with
  | nil => simp
  | cons c s ih =>
      rw [List.cons_append, List.takeWhile_cons, List.takeWhile_cons, ih]

theorem eq_cstr_append {b : Bytes} (h : (0 : UInt8) ∈ b) :
    ∃ t, b = cstr b ++ 0 :: t := by
  induction b with
  | nil => cases h
  | cons c b ih =>
      by_cases hc : c = 0
      · exact ⟨b, by simp [cstr, hc]⟩
      · obtain ⟨t, ht⟩ := ih (by
          rcases List.mem_cons.mp h with h | h
          · exact absurd h.symm hc
          · exact h)
        refine ⟨t, ?_⟩
        have hcons : cstr (c :: b) = c :: cstr b := by simp [cstr, hc]
        rw [hcons, List.cons_append, ← ht]

theorem cstr_append_zero {s : Bytes} (hs : (0 : UInt8) ∉ s) (t : Bytes) :
    cstr (s ++ 0 :: t) = s := by
  rw [cstr_append_of_notMem hs]
  simp [cstr]

theorem zero_notMem_cstr (b : Bytes) : (0 : UInt8) ∉ cstr b := by
  intro h
  simpa using List.mem_takeWhile_imp h

section WriteAt

variable {b src : Bytes} {off : Nat}

theorem length_writeAt (h : off + src.length ≤ b.length) :
    (writeAt b off src).length = b.length := by
  simp only [writeAt, List.length_append, List.length_take, List.length_drop]
  omega

theorem take_writeAt (h : off ≤ b.length) :
    (writeAt b off src).take (off + src.length) = b.take off ++ src := by
  have hlen : (b.take off ++ src).length = off + src.length := by
    rw [List.length_append, List.length_take, Nat.min_eq_left h]
  rw [writeAt, ← hlen, List.take_left]

theorem storeAt_eq (h : off + src.length ≤ b.length) :
    storeAt b off src = some (writeAt b off src) := if_pos h

theorem cstr_writeAt_zero {s : Bytes} (hs : (0 : UInt8) ∉ s)
    (h : b.take s.length = s) : cstr (writeAt b s.length [0]) = s := by
  rw [writeAt, h, List.append_assoc]
  exact cstr_append_zero hs _

end WriteAt

end Xv6Labs.Lib
