import Xv6Labs.Lib.Mem
import Xv6Labs.Riscv

/-!
# The reference-counting page allocator

`kalloc.c` of the copy-on-write lab, run by one CPU. `kmem.freelist` is the
list of the pages it links; `memrefc.count` is indexed by page number. `kend`
is the linker's `end`, the first address after the kernel.

The allocator's contract is `Ledger`: against an abstract count `refs` of the
references its users hold, `memrefc.count` is exact, the free pages are
exactly the unreferenced ones, and no page is listed twice. `kalloc`,
`refcadd` and `kfree` move the ledger by one reference (`Ledger.kalloc`,
`Ledger.refcadd`, `Ledger.kfree`); everything above this module reasons with
these three rules and `Ledger.kinit`.
-/

namespace Xv6Labs.Cow

open Xv6Labs.Lib

structure Kmem where
  /-- `kmem.freelist` -/
  freelist : List Nat
  /-- `memrefc.count` -/
  count : Nat → Int
  /-- physical memory -/
  mem : Mem

/-! ## The code -/

def refcadd (km : Kmem) (pa : Nat) : Kmem :=
  { km with
    count := Function.update km.count (pa / 4096) (km.count (pa / 4096) + 1) }

def refcremove (km : Kmem) (pa : Nat) : Kmem :=
  { km with
    count := Function.update km.count (pa / 4096) (km.count (pa / 4096) - 1) }

def refcget (km : Kmem) (pa : Nat) : Int := km.count (pa / 4096)

def kfree (kend : Nat) (km : Kmem) (pa : Nat) : Except String Kmem :=
  if pa % PGSIZE ≠ 0 ∨ pa < kend ∨ PHYSTOP ≤ pa then .error "kfree"
  else
    let km := refcremove km pa
    if refcget km pa > 0 then .ok km
    else .ok { km with
      mem := km.mem.fill pa PGSIZE 1
      freelist := pa :: km.freelist }

/-- The page popped off the free list is counted and filled with junk; `none`
is the null pointer. -/
def kalloc (km : Kmem) : Option Nat × Kmem :=
  match km.freelist with
  | [] => (none, km)
  | r :: rest =>
      let km := refcadd { km with freelist := rest } r
      (some r, { km with mem := km.mem.fill r PGSIZE 5 })

def freerangeLoop (kend : Nat) (km : Kmem) (p : Nat) : Nat → Except String Kmem
  | 0 => .ok km
  | n + 1 =>
      match kfree kend km p with
      | .error e => .error e
      | .ok km => freerangeLoop kend km (p + PGSIZE) n

/-- `p + PGSIZE <= pa_end` holds for `(pa_end - p) / PGSIZE` pages. -/
def freerange (kend : Nat) (km : Kmem) (paStart paEnd : Nat) :
    Except String Kmem :=
  let p := PGROUNDUP paStart
  freerangeLoop kend km p ((paEnd - p) / PGSIZE)

/-- `kinit` over the zeroed globals and the memory contents `mem`. `freerange`
drives every count to -1; the second loop resets them. -/
def kinit (kend : Nat) (mem : Mem) : Except String Kmem :=
  match freerange kend ⟨[], fun _ => 0, mem⟩ kend PHYSTOP with
  | .error e => .error e
  | .ok km => .ok { km with
      count := fun i => if i < PGROUNDUP PHYSTOP / PGSIZE then 0 else km.count i }

/-! ## The contract -/

structure Managed (kend pa : Nat) : Prop where
  aligned : pa % 4096 = 0
  lo : kend ≤ pa
  hi : pa < PHYSTOP

/-- `refs pa` references to `pa` are held, and the allocator knows it. -/
structure Ledger (kend : Nat) (km : Kmem) (refs : Nat → Nat) : Prop where
  count : ∀ pa, Managed kend pa → km.count (pa / 4096) = refs pa
  free : ∀ pa, Managed kend pa → (pa ∈ km.freelist ↔ refs pa = 0)
  nodup : km.freelist.Nodup
  inside : ∀ pa ∈ km.freelist, Managed kend pa
  held : ∀ pa, 0 < refs pa → Managed kend pa

theorem Managed.eq_of_div {kend pa pb : Nat} (ha : Managed kend pa)
    (hb : Managed kend pb) (h : pa / 4096 = pb / 4096) : pa = pb := by
  have h₁ := ha.aligned
  have h₂ := hb.aligned
  omega

theorem Managed.eq_of_mem {kend pa pb x : Nat} (ha : Managed kend pa)
    (hb : Managed kend pb) (h₁ : pa ≤ x ∧ x < pa + PGSIZE)
    (h₂ : pb ≤ x ∧ x < pb + PGSIZE) : pa = pb := by
  have h₃ := ha.aligned
  have h₄ := hb.aligned
  simp only [PGSIZE] at *
  omega

theorem Ledger.notMem_of_pos {kend : Nat} {km : Kmem} {refs : Nat → Nat}
    (h : Ledger kend km refs) {pa : Nat} (hpos : 0 < refs pa) :
    pa ∉ km.freelist := by
  intro hmem
  have := (h.free pa (h.held pa hpos)).mp hmem
  omega

theorem kalloc_eq_none {km km' : Kmem} (h : kalloc km = (none, km')) :
    km' = km := by
  unfold kalloc at h
  split at h
  · exact (congrArg Prod.snd h).symm
  · simp at h

theorem kalloc_eq_some {km km' : Kmem} {r : Nat}
    (h : kalloc km = (some r, km')) :
    ∃ rest, km.freelist = r :: rest ∧
      km' = { refcadd { km with freelist := rest } r with
        mem := km.mem.fill r PGSIZE 5 } := by
  unfold kalloc at h
  split at h
  · simp at h
  · rename_i r' rest hl
    simp only [Prod.mk.injEq, Option.some.injEq] at h
    obtain ⟨rfl, rfl⟩ := h
    exact ⟨rest, hl, rfl⟩

theorem kalloc_mem {km km' : Kmem} {r : Nat} (h : kalloc km = (some r, km')) :
    km'.mem = km.mem.fill r PGSIZE 5 := by
  obtain ⟨rest, -, rfl⟩ := kalloc_eq_some h
  rfl

/-- **`kalloc`** hands out an unreferenced page, which now has one reference. -/
theorem Ledger.kalloc {kend : Nat} {km km' : Kmem} {refs : Nat → Nat} {r : Nat}
    (h : Ledger kend km refs) (hk : kalloc km = (some r, km')) :
    refs r = 0 ∧ Managed kend r ∧
    ∀ refs' : Nat → Nat,
      (∀ pa, refs' pa = refs pa + if pa = r then 1 else 0) →
      Ledger kend km' refs' := by
  obtain ⟨rest, hl, rfl⟩ := kalloc_eq_some hk
  have hr : Managed kend r := h.inside r (by rw [hl]; exact List.mem_cons_self)
  have hr0 : refs r = 0 := (h.free r hr).mp (by rw [hl]; exact List.mem_cons_self)
  have hnd := h.nodup
  rw [hl, List.nodup_cons] at hnd
  refine ⟨hr0, hr, fun refs' hrefs => ⟨?_, ?_, hnd.2, ?_, ?_⟩⟩
  · intro pa hpa
    simp only [refcadd]
    rw [hrefs pa]
    by_cases hpr : pa = r
    · subst hpr
      rw [Function.update_self, h.count pa hpa]
      simp
    · have hne : pa / 4096 ≠ r / 4096 := fun he => hpr (hpa.eq_of_div hr he)
      rw [Function.update_of_ne hne, h.count pa hpa]
      simp [hpr]
  · intro pa hpa
    show pa ∈ rest ↔ _
    rw [hrefs pa]
    have hfree := h.free pa hpa
    rw [hl, List.mem_cons] at hfree
    by_cases hpr : pa = r
    · subst hpr
      simp [hnd.1]
    · simp only [hpr, false_or, if_false, Nat.add_zero] at hfree ⊢
      exact hfree
  · intro pa hpa
    exact h.inside pa (by rw [hl]; exact List.mem_cons_of_mem _ hpa)
  · intro pa hpos
    rw [hrefs pa] at hpos
    by_cases hpr : pa = r
    · rw [hpr]; exact hr
    · exact h.held pa (by simpa [hpr] using hpos)

/-- **`refcadd`** records one more reference to a referenced page. -/
theorem Ledger.refcadd {kend : Nat} {km : Kmem} {refs refs' : Nat → Nat}
    {x : Nat} (h : Ledger kend km refs) (hx : 0 < refs x)
    (hrefs : ∀ pa, refs' pa = refs pa + if pa = x then 1 else 0) :
    Ledger kend (refcadd km x) refs' := by
  have hmx := h.held x hx
  refine ⟨?_, ?_, h.nodup, h.inside, ?_⟩
  · intro pa hpa
    simp only [Cow.refcadd]
    rw [hrefs pa]
    by_cases hpx : pa = x
    · subst hpx
      rw [Function.update_self, h.count pa hpa]
      simp
    · have hne : pa / 4096 ≠ x / 4096 := fun he => hpx (hpa.eq_of_div hmx he)
      rw [Function.update_of_ne hne, h.count pa hpa]
      simp [hpx]
  · intro pa hpa
    show pa ∈ km.freelist ↔ _
    rw [hrefs pa, h.free pa hpa]
    by_cases hpx : pa = x
    · subst hpx
      simp
      omega
    · simp [hpx]
  · intro pa hpos
    rw [hrefs pa] at hpos
    by_cases hpx : pa = x
    · rw [hpx]; exact hmx
    · exact h.held pa (by simpa [hpx] using hpos)

/-- **`kfree`** gives up one held reference. It does not panic, the page is
freed exactly when that was the last reference, and only then is it
overwritten. -/
theorem Ledger.kfree {kend : Nat} {km : Kmem} {refs refs' : Nat → Nat} {x : Nat}
    (h : Ledger kend km refs)
    (hrefs : ∀ pa, refs' pa + (if pa = x then 1 else 0) = refs pa) :
    ∃ km', kfree kend km x = .ok km' ∧ Ledger kend km' refs' ∧
      (∀ y, ¬ (x ≤ y ∧ y < x + PGSIZE) → km'.mem y = km.mem y) ∧
      (0 < refs' x → km'.mem = km.mem) := by
  have hx1 : refs' x + 1 = refs x := by simpa using hrefs x
  have hmx := h.held x (by omega)
  have hother : ∀ pa, pa ≠ x → refs' pa = refs pa := fun pa hne => by
    simpa [hne] using hrefs pa
  have hguard : ¬ (x % PGSIZE ≠ 0 ∨ x < kend ∨ PHYSTOP ≤ x) := by
    have h₁ := hmx.aligned
    have h₂ := hmx.lo
    have h₃ := hmx.hi
    simp only [PGSIZE]
    omega
  have hget : refcget (refcremove km x) x = refs' x := by
    simp only [refcget, refcremove, Function.update_self]
    rw [h.count x hmx, ← hx1]
    push_cast
    omega
  -- the counts after `refcremove`, whichever branch is taken
  have hcount : ∀ pa, Managed kend pa →
      (refcremove km x).count (pa / 4096) = refs' pa := by
    intro pa hpa
    by_cases hpx : pa = x
    · subst hpx
      exact hget
    · have hne : pa / 4096 ≠ x / 4096 := fun he => hpx (hpa.eq_of_div hmx he)
      simp only [refcremove]
      rw [Function.update_of_ne hne, h.count pa hpa, hother pa hpx]
  have hheld : ∀ pa, 0 < refs' pa → Managed kend pa := by
    intro pa hpos
    by_cases hpx : pa = x
    · rw [hpx]; exact hmx
    · exact h.held pa (by rw [← hother pa hpx]; exact hpos)
  have hnot : x ∉ km.freelist := h.notMem_of_pos (by omega)
  unfold Cow.kfree
  rw [if_neg hguard]
  simp only [hget]
  by_cases hlast : refs' x = 0
  · rw [if_neg (by rw [hlast]; simp)]
    refine ⟨_, rfl, ⟨hcount, ?_, ?_, ?_, hheld⟩, ?_, ?_⟩
    · intro pa hpa
      show pa ∈ x :: km.freelist ↔ _
      rw [List.mem_cons]
      by_cases hpx : pa = x
      · subst hpx
        simp [hlast]
      · rw [hother pa hpx, ← h.free pa hpa]
        simp [hpx]
    · exact List.nodup_cons.mpr ⟨hnot, h.nodup⟩
    · intro pa hpa
      rcases List.mem_cons.mp hpa with rfl | hpa
      · exact hmx
      · exact h.inside pa hpa
    · intro y hy
      exact Mem.fill_of_notMem hy
    · intro hpos
      omega
  · rw [if_pos (by omega)]
    refine ⟨_, rfl, ⟨hcount, ?_, h.nodup, h.inside, hheld⟩, fun _ _ => rfl,
      fun _ => rfl⟩
    intro pa hpa
    show pa ∈ km.freelist ↔ _
    by_cases hpx : pa = x
    · subst hpx
      simp [hnot, hlast]
    · rw [hother pa hpx]
      exact h.free pa hpa

/-! ## `kinit` -/

/-- What `freerange` has done once the pages below `p` are freed. -/
structure Freed (kend : Nat) (p : Nat) (km : Kmem) : Prop where
  list : ∀ pa, pa ∈ km.freelist ↔ Managed kend pa ∧ pa < p
  nodup : km.freelist.Nodup
  count : ∀ i, km.count i ≤ 0

/-- `freerange` frees page after page; a count that was 0 drops to -1, which is
not positive, so each page is listed. -/
theorem freerangeLoop_freed {kend : Nat} :
    ∀ (n p : Nat) (km : Kmem), p % 4096 = 0 → kend ≤ p →
      p + n * 4096 ≤ PHYSTOP → Freed kend p km →
      ∃ km', freerangeLoop kend km p n = .ok km' ∧
        Freed kend (p + n * 4096) km'
  | 0, p, km, _, _, _, h => ⟨km, rfl, by simpa using h⟩
  | n + 1, p, km, hal, hlo, hhi, h => by
      have hguard : ¬ (p % PGSIZE ≠ 0 ∨ p < kend ∨ PHYSTOP ≤ p) := by
        simp only [PGSIZE]
        omega
      have hcnt : ∀ i, (refcremove km p).count i ≤ 0 := by
        intro i
        simp only [refcremove]
        by_cases hi : i = p / 4096
        · subst hi
          rw [Function.update_self]
          have := h.count (p / 4096)
          omega
        · rw [Function.update_of_ne hi]
          exact h.count i
      have hget : ¬ refcget (refcremove km p) p > 0 := by
        have := hcnt (p / 4096)
        simp only [refcget]
        omega
      have hfreed : Freed kend (p + 4096)
          { refcremove km p with
            mem := (refcremove km p).mem.fill p PGSIZE 1
            freelist := p :: (refcremove km p).freelist } := by
        refine ⟨fun pa => ?_, ?_, hcnt⟩
        · show pa ∈ p :: km.freelist ↔ _
          rw [List.mem_cons, h.list pa]
          constructor
          · rintro (rfl | ⟨hm, hlt⟩)
            · exact ⟨⟨hal, hlo, by omega⟩, by omega⟩
            · exact ⟨hm, by omega⟩
          · rintro ⟨hm, hlt⟩
            by_cases hpa : pa = p
            · exact .inl hpa
            · have := hm.aligned
              exact .inr ⟨hm, by omega⟩
        · refine List.nodup_cons.mpr ⟨fun hmem => ?_, h.nodup⟩
          have := ((h.list p).mp hmem).2
          omega
      obtain ⟨km', hrun, hkm'⟩ := freerangeLoop_freed n (p + 4096) _ (by omega)
        (by omega) (by omega) hfreed
      refine ⟨km', ?_, ?_⟩
      · simp only [freerangeLoop, kfree, if_neg hguard, if_neg hget]
        exact hrun
      · have harith : p + 4096 + n * 4096 = p + (n + 1) * 4096 := by omega
        rwa [harith] at hkm'

/-- **`kinit`** does not panic and starts the ledger with no reference. -/
theorem Ledger.kinit (kend : Nat) (mem : Mem) :
    ∃ km, kinit kend mem = .ok km ∧ Ledger kend km (fun _ => 0) := by
  have hstart : Freed kend (PGROUNDUP kend) ⟨[], fun _ => 0, mem⟩ := by
    refine ⟨fun pa => ?_, List.nodup_nil, fun _ => Int.le_refl 0⟩
    simp only [List.not_mem_nil, false_iff, not_and]
    intro hm hlt
    have h₁ := hm.aligned
    have h₂ := hm.lo
    simp only [PGROUNDUP] at hlt
    omega
  by_cases hroom : PGROUNDUP kend ≤ PHYSTOP
  · obtain ⟨km, hrun, hfreed⟩ := freerangeLoop_freed
      ((PHYSTOP - PGROUNDUP kend) / 4096) (PGROUNDUP kend) _
      (by simp [PGROUNDUP]) (by simp only [PGROUNDUP]; omega) (by omega) hstart
    have hend : ∀ pa, pa ∈ km.freelist ↔ Managed kend pa := by
      intro pa
      rw [hfreed.list pa]
      refine ⟨fun h => h.1, fun hm => ⟨hm, ?_⟩⟩
      have h₁ := hm.aligned
      have h₂ := hm.hi
      simp only [PGROUNDUP, PHYSTOP] at *
      omega
    refine ⟨{ km with
      count := fun i => if i < PGROUNDUP PHYSTOP / PGSIZE then 0 else km.count i },
      ?_, ?_, ?_, hfreed.nodup, fun pa hpa => (hend pa).mp hpa, ?_⟩
    · simp only [Cow.kinit, freerange]
      rw [show (PHYSTOP - PGROUNDUP kend) / PGSIZE =
        (PHYSTOP - PGROUNDUP kend) / 4096 from rfl, hrun]
    · intro pa hpa
      have := hpa.hi
      have hlt : pa / 4096 < PGROUNDUP PHYSTOP / PGSIZE := by
        simp only [PGROUNDUP, PHYSTOP, PGSIZE] at *
        omega
      simp [hlt]
    · intro pa hpa
      exact ⟨fun _ => rfl, fun _ => (hend pa).mpr hpa⟩
    · intro pa hpos
      exact absurd hpos (by simp)
  · -- no page fits below PHYSTOP
    have hzero : (PHYSTOP - PGROUNDUP kend) / PGSIZE = 0 := by
      simp only [PGSIZE]
      omega
    refine ⟨⟨[], fun i => if i < PGROUNDUP PHYSTOP / PGSIZE then 0 else 0, mem⟩,
      ?_, ?_, ?_, List.nodup_nil, by simp, ?_⟩
    · simp only [Cow.kinit, freerange, hzero, freerangeLoop]
    · intro pa _
      simp
    · intro pa hm
      have h₁ := hm.aligned
      have h₂ := hm.lo
      have h₃ := hm.hi
      simp only [PGROUNDUP] at hroom
      simp only [PHYSTOP] at *
      omega
    · intro pa hpos
      exact absurd hpos (by simp)

end Xv6Labs.Cow
