import Xv6Labs.Lib.Word
import Xv6Labs.Riscv
import Mathlib.Data.List.Chain

/-!
# `backtrace`

The loop of `backtrace` in the traps lab. It has no counter: it follows saved
frame pointers through memory and stops at the first one that is page aligned.
-/

namespace Xv6Labs.Traps

open Xv6Labs.Lib

def PGROUNDDOWN (a : BitVec 64) : BitVec 64 := a &&& ~~~4095#64

inductive Printed where
  | text (s : String)
  /-- `printf("%p\n", p)` -/
  | pointer (p : BitVec 64)
deriving DecidableEq

/-- What a run prints and the addresses of the words it reads, in order. -/
structure Trace where
  printed : List Printed
  read : List (BitVec 64)
deriving DecidableEq

/-- The `while` loop from `fp` on; `none` when `fuel` rounds do not end it. -/
def backtraceLoop (mem : Memory) : Nat → BitVec 64 → Option Trace
  | 0, _ => none
  | fuel + 1, fp =>
      if fp > PGROUNDDOWN fp then
        let ra := mem.word (fp - 8)
        let tmp := fp - 16
        (backtraceLoop mem fuel (mem.word tmp)).map fun t =>
          { printed := .pointer ra :: t.printed
            read := (fp - 8) :: tmp :: t.read }
      else some { printed := [], read := [] }

def backtrace (mem : Memory) (fuel : Nat) (fp : BitVec 64) : Option Trace :=
  (backtraceLoop mem fuel fp).map fun t =>
    { t with printed := .text "backtrace:\n" :: t.printed }

/-! ## The loop test -/

theorem mask_getLsbD {i : Nat} (h : i < 64) :
    (~~~4095#64).getLsbD i = decide (12 ≤ i) := by
  revert i
  decide

theorem PGROUNDDOWN_eq_shift (a : BitVec 64) :
    PGROUNDDOWN a = (a >>> 12) <<< 12 := by
  apply BitVec.eq_of_getLsbD_eq
  intro i hi
  rw [PGROUNDDOWN, BitVec.getLsbD_and, mask_getLsbD hi, BitVec.getLsbD_shiftLeft,
    BitVec.getLsbD_ushiftRight]
  by_cases h : 12 ≤ i
  · simp [h, hi, show ¬ i < 12 by omega]
  · simp [h, show i < 12 by omega]

theorem PGROUNDDOWN_toNat (a : BitVec 64) :
    (PGROUNDDOWN a).toNat = a.toNat / 4096 * 4096 := by
  have ha := a.isLt
  rw [PGROUNDDOWN_eq_shift, BitVec.toNat_shiftLeft, BitVec.toNat_ushiftRight,
    Nat.shiftRight_eq_div_pow, Nat.shiftLeft_eq]
  apply Nat.mod_eq_of_lt
  omega

/-- The loop goes on exactly while the frame pointer is not page aligned. -/
theorem gt_PGROUNDDOWN_iff (a : BitVec 64) :
    a > PGROUNDDOWN a ↔ a.toNat % 4096 ≠ 0 := by
  rw [gt_iff_lt, BitVec.lt_def, PGROUNDDOWN_toNat]
  omega

/-! ## Frame chains -/

/-- The frame pointers of a kernel stack whose page starts at `kstack`, the
innermost first: each is saved 16 bytes below the one inside it, and the last is
the end of the page, where the frame of `usertrap` starts. -/
structure FrameChain (mem : Memory) (kstack : Nat) (f : List (BitVec 64)) :
    Prop where
  aligned : kstack % PGSIZE = 0
  rising : f.IsChain fun a b => a < b
  linked : f.IsChain fun a b => mem.word (a - 16) = b
  low : ∀ a ∈ f.head?, kstack + 16 ≤ a.toNat
  top : ∀ a ∈ f.getLast?, a.toNat = kstack + PGSIZE

def InPage (kstack : Nat) (a : BitVec 64) : Prop :=
  ∀ i < 8, kstack ≤ (a + BitVec.ofNat 64 i).toNat ∧
    (a + BitVec.ofNat 64 i).toNat < kstack + PGSIZE

namespace FrameChain

variable {mem : Memory} {kstack : Nat} {a b : BitVec 64} {f : List (BitVec 64)}

theorem tail (h : FrameChain mem kstack (a :: b :: f)) :
    FrameChain mem kstack (b :: f) where
  aligned := h.aligned
  rising := h.rising.tail
  linked := h.linked.tail
  low := by
    rintro c ⟨⟩
    have hab : a < b := (List.isChain_cons_cons.mp h.rising).1
    have ha := h.low a rfl
    rw [BitVec.lt_def] at hab
    omega
  top := by
    intro c hc
    apply h.top c
    rwa [List.getLast?_cons_cons]

theorem next (h : FrameChain mem kstack (a :: b :: f)) : mem.word (a - 16) = b :=
  (List.isChain_cons_cons.mp h.linked).1

theorem le_top (h : FrameChain mem kstack (a :: f)) :
    a.toNat ≤ kstack + PGSIZE := by
  induction f generalizing a with
  | nil => exact (h.top a rfl).le
  | cons b f ih =>
      have hab : a < b := (List.isChain_cons_cons.mp h.rising).1
      rw [BitVec.lt_def] at hab
      have hb := ih h.tail
      omega

/-- Only the last frame pointer is page aligned. -/
theorem inner (h : FrameChain mem kstack (a :: b :: f)) :
    kstack + 16 ≤ a.toNat ∧ a.toNat < kstack + PGSIZE := by
  have hab : a < b := (List.isChain_cons_cons.mp h.rising).1
  have hb := h.tail.le_top
  rw [BitVec.lt_def] at hab
  exact ⟨h.low a rfl, by omega⟩

theorem goes_on (h : FrameChain mem kstack (a :: b :: f)) :
    a > PGROUNDDOWN a := by
  obtain ⟨hlo, hhi⟩ := h.inner
  have hk := h.aligned
  rw [gt_PGROUNDDOWN_iff]
  simp only [PGSIZE] at hk hhi
  omega

theorem stops (h : FrameChain mem kstack [a]) : ¬ a > PGROUNDDOWN a := by
  have ha := h.top a rfl
  have hk := h.aligned
  rw [gt_PGROUNDDOWN_iff]
  simp only [PGSIZE] at hk ha
  omega

theorem inPage (h : FrameChain mem kstack (a :: b :: f)) {d : Nat}
    (h₁ : 8 ≤ d) (h₂ : d ≤ 16) : InPage kstack (a - BitVec.ofNat 64 d) := by
  obtain ⟨hlo, hhi⟩ := h.inner
  have ha := a.isLt
  intro i hi
  have key : (a - BitVec.ofNat 64 d + BitVec.ofNat 64 i).toNat = a.toNat - d + i := by
    rw [BitVec.toNat_add, BitVec.toNat_sub, BitVec.toNat_ofNat, BitVec.toNat_ofNat]
    omega
  rw [key]
  constructor <;> omega

end FrameChain

/-! ## The walk -/

variable {mem : Memory} {kstack : Nat} {f : List (BitVec 64)} {a : BitVec 64}

/-- From any frame of the chain the loop ends after one round per frame above
it, at most. -/
theorem backtraceLoop_walks (h : FrameChain mem kstack (a :: f)) {fuel : Nat}
    (hfuel : (a :: f).length ≤ fuel) :
    ∃ t, backtraceLoop mem fuel a = some t ∧
      t.printed = (a :: f).dropLast.map (fun b => .pointer (mem.word (b - 8))) ∧
      ∀ b ∈ t.read, InPage kstack b := by
  induction f generalizing a fuel with
  | nil =>
      obtain ⟨n, rfl⟩ : ∃ n, fuel = n + 1 := ⟨fuel - 1, by simp at hfuel; omega⟩
      refine ⟨⟨[], []⟩, ?_, rfl, by simp⟩
      rw [backtraceLoop, if_neg h.stops]
  | cons b f ih =>
      obtain ⟨n, rfl⟩ : ∃ n, fuel = n + 1 := ⟨fuel - 1, by simp at hfuel; omega⟩
      obtain ⟨t, hrun, hprinted, hread⟩ := ih h.tail (by simpa using hfuel)
      refine ⟨⟨.pointer (mem.word (a - 8)) :: t.printed,
        (a - 8) :: (a - 16) :: t.read⟩, ?_, ?_, ?_⟩
      · rw [backtraceLoop, if_pos h.goes_on]
        show Option.map _ (backtraceLoop mem n (mem.word (a - 16))) = _
        rw [h.next, hrun]
        rfl
      · rw [hprinted]
        rfl
      · intro c hc
        rcases List.mem_cons.mp hc with rfl | hc
        · exact h.inPage (d := 8) le_rfl (by omega)
        rcases List.mem_cons.mp hc with rfl | hc
        · exact h.inPage (d := 16) (by omega) le_rfl
        · exact hread c hc

/-- **`backtrace` walks the whole kernel stack and stops**: it prints the
return address of every frame below the top of the page, innermost first, and
reads nothing outside the page. -/
theorem backtrace_walks_stack (h : FrameChain mem kstack (a :: f)) {fuel : Nat}
    (hfuel : (a :: f).length ≤ fuel) :
    ∃ t, backtrace mem fuel a = some t ∧
      t.printed = .text "backtrace:\n" ::
        (a :: f).dropLast.map (fun b => .pointer (mem.word (b - 8))) ∧
      ∀ b ∈ t.read, InPage kstack b := by
  obtain ⟨t, hrun, hprinted, hread⟩ := backtraceLoop_walks h hfuel
  refine ⟨{ t with printed := .text "backtrace:\n" :: t.printed }, ?_, ?_, hread⟩
  · rw [backtrace, hrun]
    rfl
  · rw [hprinted]

/-- The stack page at `0x2000`: `0x2020` saves `0x2040`, which saves the top. -/
def threeFrames : Memory := fun a =>
  if a = 0x2010 then 0x40
  else if a = 0x2011 then 0x20
  else if a = 0x2031 then 0x30
  else if a = 0x2018 then 0xf6
  else if a = 0x2019 then 0x1d
  else if a = 0x201b then 0x80
  else if a = 0x2038 then 0xa8
  else if a = 0x2039 then 0x1c
  else if a = 0x203b then 0x80
  else 0

theorem threeFrames_chain :
    FrameChain threeFrames 0x2000 [0x2020, 0x2040, 0x3000] where
  aligned := by decide
  rising := by decide +kernel
  linked := by decide +kernel
  low := by
    rintro a ⟨⟩
    decide +kernel
  top := by
    rintro a ⟨⟩
    rfl

theorem backtrace_walks_stack_threeFrames :
    ∃ t, backtrace threeFrames 3 0x2020 = some t ∧
      t.printed = [.text "backtrace:\n", .pointer 0x80001df6, .pointer 0x80001ca8] ∧
      ∀ b ∈ t.read, InPage 0x2000 b := by
  obtain ⟨t, hrun, hprinted, hread⟩ :=
    backtrace_walks_stack threeFrames_chain (show _ ≤ 3 by decide)
  refine ⟨t, hrun, ?_, hread⟩
  rw [hprinted]
  decide +kernel

end Xv6Labs.Traps
