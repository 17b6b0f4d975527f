import Xv6Labs.Super.Vm
import Xv6Labs.Lib.Blocks
import Xv6Labs.Lib.Run

/-!
# The two allocators

`kalloc.c` of the superpage lab with its free lists where they are: threaded
through the first words of the free blocks, `kmem.freelist` and
`superkmem.freelist` being two addresses. `Rep` relates this allocator to the one
of `Kernel`, whose free lists are lists: it makes the same moves, and agrees with
it on every byte outside the free blocks. That the links survive rests on the
blocks of both sizes, free or handed out, tiling the managed memory.
-/

namespace Xv6Labs.Super

open Xv6Labs.Lib

/-! ## The code -/

structure Heap where
  mem : Mem
  /-- `kmem.freelist`, 0 for the null pointer -/
  freelist : Nat
  /-- `superkmem.freelist` -/
  superfreelist : Nat

namespace Heap

def kfree (kend : Nat) (h : Heap) (pa : Nat) : Except String Heap :=
  if pa % PGSIZE ≠ 0 ∨ pa < kend ∨ PHYSTOP ≤ pa then .error "kfree"
  else .ok { h with mem := link h.mem pa PGSIZE h.freelist, freelist := pa }

def superkfree (kend : Nat) (h : Heap) (pa : Nat) : Except String Heap :=
  if pa % SUPERPGSIZE ≠ 0 then .error "superkfree invalid page alignment"
  else if pa < kend then .error "superkfree address below kernel end"
  else if PHYSTOP ≤ pa then .error "superkfree address beyond physical memory"
  else .ok { h with mem := link h.mem pa SUPERPGSIZE h.superfreelist, superfreelist := pa }

def kalloc (h : Heap) : Option Nat × Heap :=
  if h.freelist = 0 then (none, h)
  else (some h.freelist,
    { h with freelist := h.mem.load64 h.freelist, mem := h.mem.fill h.freelist PGSIZE 5 })

def superkalloc (h : Heap) : Option Nat × Heap :=
  if h.superfreelist = 0 then (none, h)
  else (some h.superfreelist,
    { h with
      superfreelist := h.mem.load64 h.superfreelist
      mem := h.mem.fill h.superfreelist SUPERPGSIZE 7 })

/-- The first loop of `freerange`: it returns `p` as it leaves it. -/
def freerangeSmall (kend : Nat) (h : Heap) (p last : Nat) : Except String (Heap × Nat) :=
  if p + PGSIZE ≤ last then
    match h.kfree kend p with
    | .error e => .error e
    | .ok h => freerangeSmall kend h (p + PGSIZE) last
  else .ok (h, p)
termination_by last - p
decreasing_by
  simp only [PGSIZE] at *
  omega

def freerangeSuper (kend : Nat) (h : Heap) (p paEnd : Nat) : Except String Heap :=
  if p ≤ paEnd - SUPERPGSIZE then
    match h.superkfree kend p with
    | .error e => .error e
    | .ok h => freerangeSuper kend h (p + SUPERPGSIZE) paEnd
  else .ok h
termination_by paEnd + 1 - p
decreasing_by
  simp only [SUPERPGSIZE] at *
  omega

def freerange (kend : Nat) (h : Heap) (paStart paEnd : Nat) : Except String Heap :=
  match freerangeSmall kend h (PGROUNDUP paStart) (paEnd - 52 * SUPERPGSIZE) with
  | .error e => .error e
  | .ok (h, p) => freerangeSuper kend h (PGROUNDUP p) paEnd

/-- `kinit` over null list heads and the memory contents `mem`. -/
def kinit (kend : Nat) (mem : Mem) : Except String Heap :=
  freerange kend ⟨mem, 0, 0⟩ kend PHYSTOP

end Heap

/-! ## The list allocator behind it -/

def blocks (small super : List Nat) : List Block :=
  small.map (fun r => (r, PGSIZE)) ++ super.map (fun r => (r, SUPERPGSIZE))

/-- The linked lists hold the blocks the lists name; outside them the bytes agree. -/
structure Rep (h : Heap) (k : Kernel) : Prop where
  small : Chain h.mem h.freelist k.freelist
  super : Chain h.mem h.superfreelist k.superfreelist
  mem : ∀ x, (∀ b ∈ blocks k.freelist k.superfreelist, ¬ b.has x) → h.mem x = k.mem x

variable {kend : Nat} {h : Heap} {k : Kernel}

theorem mem_blocks_small {small super : List Nat} {r : Nat} (hr : r ∈ small) :
    (r, PGSIZE) ∈ blocks small super :=
  List.mem_append_left _ (List.mem_map_of_mem hr)

theorem mem_blocks_super {small super : List Nat} {r : Nat} (hr : r ∈ super) :
    (r, SUPERPGSIZE) ∈ blocks small super :=
  List.mem_append_right _ (List.mem_map_of_mem hr)

theorem blocks_perm {small small' super super' : List Nat} (h₁ : small.Perm small')
    (h₂ : super.Perm super') : (blocks small super).Perm (blocks small' super') :=
  (h₁.map _).append (h₂.map _)

theorem blocks_super_cons (small super : List Nat) (r : Nat) :
    (blocks small (r :: super)).Perm ((r, SUPERPGSIZE) :: blocks small super) :=
  List.perm_middle

theorem notMem_of_apart {b c : Block} (h : b.apart c) (hc : 8 ≤ c.2) {x : Nat}
    (h₁ : c.1 ≤ x) (h₂ : x < c.1 + 8) : ¬ b.has x := fun hb =>
  h.notMem hb ⟨h₁, by omega⟩

/-- Chains of both kinds survive writes inside a block apart from all of theirs. -/
theorem Rep.chains {mem : Mem} {b : Block} (hrep : Rep h k)
    (hap : ∀ c ∈ blocks k.freelist k.superfreelist, b.apart c)
    (hmem : ∀ x, ¬ b.has x → mem x = h.mem x) :
    Chain mem h.freelist k.freelist ∧ Chain mem h.superfreelist k.superfreelist := by
  refine ⟨hrep.small.congr (fun r hr x h₁ h₂ => hmem x ?_),
    hrep.super.congr (fun r hr x h₁ h₂ => hmem x ?_)⟩
  · exact notMem_of_apart (hap _ (mem_blocks_small hr)) (by show 8 ≤ 4096; omega) h₁ h₂
  · exact notMem_of_apart (hap _ (mem_blocks_super hr)) (by show 8 ≤ 2097152; omega) h₁ h₂

/-! ## The four operations -/

def Bounded (k : Kernel) : Prop :=
  ∀ b ∈ blocks k.freelist k.superfreelist, b.1 < 2 ^ 64

/-- **`kfree`** of a block apart from the free ones. -/
theorem Rep.kfree (kend : Nat) {pa : Nat} (hrep : Rep h k) (hbound : Bounded k) (hpos : 0 < pa)
    (hal : pa % PGSIZE = 0) (hlo : kend ≤ pa) (hhi : pa < PHYSTOP)
    (hap : ∀ c ∈ blocks k.freelist k.superfreelist, Block.apart (pa, PGSIZE) c) :
    ∃ h' k', h.kfree kend pa = .ok h' ∧ Super.kfree kend k pa = .ok k' ∧ Rep h' k' ∧
      k'.freelist = pa :: k.freelist ∧ k'.superfreelist = k.superfreelist := by
  have hok : ¬ (pa % PGSIZE ≠ 0 ∨ pa < kend ∨ PHYSTOP ≤ pa) := by omega
  refine ⟨_, _, if_neg hok, if_neg hok, ⟨?_, ?_, fun x hx => ?_⟩, rfl, rfl⟩
  · refine hrep.small.push (by omega) ?_ (by show 8 ≤ 4096; omega) ?_
    · exact hrep.small.head_lt (by omega) (fun r hr => hbound _ (mem_blocks_small hr))
    · intro r hr x h₁ h₂
      exact notMem_of_apart (hap _ (mem_blocks_small hr)) (by show 8 ≤ 4096; omega) h₁ h₂
  · exact (hrep.chains hap (fun x hx => link_of_notMem (by show 8 ≤ 4096; omega) hx)).2
  · have hpa : ¬ Block.has (pa, PGSIZE) x := hx _ List.mem_cons_self
    show link h.mem pa PGSIZE h.freelist x = k.mem.fill pa PGSIZE 1 x
    rw [link_of_notMem (by show 8 ≤ 4096; omega) hpa, Mem.fill_of_notMem hpa]
    exact hrep.mem x (fun b hb => hx b (List.mem_cons_of_mem _ hb))

/-- **`superkfree`** of a block apart from the free ones. -/
theorem Rep.superkfree (kend : Nat) {pa : Nat} (hrep : Rep h k) (hbound : Bounded k) (hpos : 0 < pa)
    (hal : pa % SUPERPGSIZE = 0) (hlo : kend ≤ pa) (hhi : pa < PHYSTOP)
    (hap : ∀ c ∈ blocks k.freelist k.superfreelist, Block.apart (pa, SUPERPGSIZE) c) :
    ∃ h' k', h.superkfree kend pa = .ok h' ∧ Super.superkfree kend k pa = .ok k' ∧
      Rep h' k' ∧ k'.freelist = k.freelist ∧ k'.superfreelist = pa :: k.superfreelist := by
  have hheap : h.superkfree kend pa = .ok { h with
      mem := link h.mem pa SUPERPGSIZE h.superfreelist, superfreelist := pa } := by
    unfold Heap.superkfree
    rw [if_neg (by omega), if_neg (by omega), if_neg (by omega)]
  have hkern : Super.superkfree kend k pa = .ok { k with
      mem := k.mem.fill pa SUPERPGSIZE 1, superfreelist := pa :: k.superfreelist } := by
    unfold Super.superkfree
    rw [if_neg (by omega), if_neg (by omega), if_neg (by omega)]
  refine ⟨_, _, hheap, hkern, ⟨?_, ?_, fun x hx => ?_⟩, rfl, rfl⟩
  · exact (hrep.chains hap
      (fun x hx => link_of_notMem (by show 8 ≤ 2097152; omega) hx)).1
  · refine hrep.super.push (by omega) ?_ (by show 8 ≤ 2097152; omega) ?_
    · exact hrep.super.head_lt (by omega) (fun r hr => hbound _ (mem_blocks_super hr))
    · intro r hr x h₁ h₂
      exact notMem_of_apart (hap _ (mem_blocks_super hr)) (by show 8 ≤ 2097152; omega) h₁ h₂
  · have hin : ∀ b : Block, b ∈ (pa, SUPERPGSIZE) :: blocks k.freelist k.superfreelist →
        ¬ b.has x := fun b hb =>
      hx b ((blocks_super_cons k.freelist k.superfreelist pa).mem_iff.mpr hb)
    have hpa : ¬ Block.has (pa, SUPERPGSIZE) x := hin _ List.mem_cons_self
    show link h.mem pa SUPERPGSIZE h.superfreelist x = k.mem.fill pa SUPERPGSIZE 1 x
    rw [link_of_notMem (by show 8 ≤ 2097152; omega) hpa, Mem.fill_of_notMem hpa]
    exact hrep.mem x (fun b hb => hin b (List.mem_cons_of_mem _ hb))

/-- **`kalloc`** takes the same block off both lists. -/
theorem Rep.kalloc (hrep : Rep h k)
    (hap : (blocks k.freelist k.superfreelist).Pairwise Block.apart) :
    ∃ o h' k', h.kalloc = (o, h') ∧ Super.kalloc k = (o, k') ∧ Rep h' k' ∧
      ((o = none ∧ k'.freelist = k.freelist) ∨
        ∃ r, o = some r ∧ k.freelist = r :: k'.freelist) ∧
      k'.superfreelist = k.superfreelist := by
  obtain ⟨mem, fl, sfl⟩ := h
  obtain ⟨list, slist, kmem⟩ := k
  have hsmall := hrep.small
  simp only at hsmall hap
  cases hsmall with
  | nil => exact ⟨none, _, _, rfl, rfl, hrep, .inl ⟨rfl, rfl⟩, rfl⟩
  | cons hr hrest =>
      rename_i rest
      -- the block taken is apart from those left
      have hapart : ∀ c ∈ blocks rest slist, Block.apart (fl, PGSIZE) c :=
        (List.pairwise_cons.mp hap).1
      have hout : ∀ x, ¬ Block.has (fl, PGSIZE) x → mem.fill fl PGSIZE 5 x = mem x :=
        fun x hx => Mem.fill_of_notMem hx
      refine ⟨some fl, _, _, if_neg hr, rfl, ⟨?_, ?_, fun x hx => ?_⟩,
        .inr ⟨fl, rfl, rfl⟩, rfl⟩
      · refine hrest.congr (fun r hr' x h₁ h₂ => hout x ?_)
        exact notMem_of_apart (hapart _ (mem_blocks_small hr')) (by show 8 ≤ 4096; omega)
          h₁ h₂
      · refine hrep.super.congr (fun r hr' x h₁ h₂ => hout x ?_)
        exact notMem_of_apart (hapart _ (mem_blocks_super hr')) (by show 8 ≤ 2097152; omega)
          h₁ h₂
      · show mem.fill fl PGSIZE 5 x = kmem.fill fl PGSIZE 5 x
        by_cases hin : Block.has (fl, PGSIZE) x
        · rw [Mem.fill_of_mem hin, Mem.fill_of_mem hin]
        · rw [Mem.fill_of_notMem hin, Mem.fill_of_notMem hin]
          refine hrep.mem x (fun b hb => ?_)
          rcases List.mem_cons.mp hb with rfl | hb
          · exact hin
          · exact hx b hb

/-- **`superkalloc`** takes the same block off both lists. -/
theorem Rep.superkalloc (hrep : Rep h k)
    (hap : (blocks k.freelist k.superfreelist).Pairwise Block.apart) :
    ∃ o h' k', h.superkalloc = (o, h') ∧ Super.superkalloc k = (o, k') ∧ Rep h' k' ∧
      ((o = none ∧ k'.superfreelist = k.superfreelist) ∨
        ∃ r, o = some r ∧ k.superfreelist = r :: k'.superfreelist) ∧
      k'.freelist = k.freelist := by
  obtain ⟨mem, fl, sfl⟩ := h
  obtain ⟨list, slist, kmem⟩ := k
  have hsuper := hrep.super
  simp only at hsuper hap
  cases hsuper with
  | nil => exact ⟨none, _, _, rfl, rfl, hrep, .inl ⟨rfl, rfl⟩, rfl⟩
  | cons hr hrest =>
      rename_i rest
      have hperm := blocks_super_cons list rest sfl
      have hapart : ∀ c ∈ blocks list rest, Block.apart (sfl, SUPERPGSIZE) c :=
        (List.pairwise_cons.mp ((hperm.pairwise_iff Block.apart.symm).mp hap)).1
      have hout : ∀ x, ¬ Block.has (sfl, SUPERPGSIZE) x →
          mem.fill sfl SUPERPGSIZE 7 x = mem x := fun x hx => Mem.fill_of_notMem hx
      refine ⟨some sfl, _, _, if_neg hr, rfl, ⟨?_, ?_, fun x hx => ?_⟩,
        .inr ⟨sfl, rfl, rfl⟩, rfl⟩
      · refine hrep.small.congr (fun r hr' x h₁ h₂ => hout x ?_)
        exact notMem_of_apart (hapart _ (mem_blocks_small hr')) (by show 8 ≤ 4096; omega)
          h₁ h₂
      · refine hrest.congr (fun r hr' x h₁ h₂ => hout x ?_)
        exact notMem_of_apart (hapart _ (mem_blocks_super hr')) (by show 8 ≤ 2097152; omega)
          h₁ h₂
      · show mem.fill sfl SUPERPGSIZE 7 x = kmem.fill sfl SUPERPGSIZE 7 x
        by_cases hin : Block.has (sfl, SUPERPGSIZE) x
        · rw [Mem.fill_of_mem hin, Mem.fill_of_mem hin]
        · rw [Mem.fill_of_notMem hin, Mem.fill_of_notMem hin]
          refine hrep.mem x (fun b hb => ?_)
          rcases List.mem_cons.mp (hperm.mem_iff.mp hb) with rfl | hb
          · exact hin
          · exact hx b hb

/-! ## `kinit` -/

/-- While `freerange` runs, the blocks freed so far tile the memory below `p`. -/
structure FreedTo (kend p : Nat) (h : Heap) (k : Kernel) : Prop where
  rep : Rep h k
  tiles : Tiles (blocks k.freelist k.superfreelist) (PGROUNDUP kend) p
  aligned : ∀ r ∈ k.freelist, r % PGSIZE = 0
  superaligned : ∀ r ∈ k.superfreelist, r % SUPERPGSIZE = 0

theorem FreedTo.bounded {p : Nat} (hf : FreedTo kend p h k) (hp : p ≤ PHYSTOP) :
    Bounded k := by
  rintro ⟨r, size⟩ hb
  have := (hf.tiles.inside _ hb).2
  simp only [PHYSTOP] at *
  omega

theorem FreedTo.apart {p size : Nat} (hf : FreedTo kend p h k) {c : Block}
    (hc : c ∈ blocks k.freelist k.superfreelist) : Block.apart (p, size) c :=
  .inr (hf.tiles.inside c hc).2

theorem FreedTo.kfree {p : Nat} (hf : FreedTo kend p h k) (hend : 0 < kend)
    (hlo : PGROUNDUP kend ≤ p) (hal : p % PGSIZE = 0) (hhi : p < PHYSTOP) :
    ∃ h' k', h.kfree kend p = .ok h' ∧ FreedTo kend (p + PGSIZE) h' k' := by
  have hkend : kend ≤ p := by
    simp only [PGROUNDUP] at hlo
    omega
  obtain ⟨h', k', hh, -, hrep, hl, hsl⟩ := hf.rep.kfree kend (hf.bounded (by omega)) (by omega)
    hal hkend hhi (fun c hc => hf.apart hc)
  refine ⟨h', k', hh, hrep, ?_, ?_, ?_⟩
  · rw [hl, hsl]
    exact hf.tiles.cons hlo
  · rw [hl]
    intro r hr
    rcases List.mem_cons.mp hr with rfl | hr
    · exact hal
    · exact hf.aligned r hr
  · rw [hsl]
    exact hf.superaligned

theorem FreedTo.superkfree {p : Nat} (hf : FreedTo kend p h k) (hend : 0 < kend)
    (hlo : PGROUNDUP kend ≤ p) (hal : p % SUPERPGSIZE = 0) (hhi : p < PHYSTOP) :
    ∃ h' k', h.superkfree kend p = .ok h' ∧ FreedTo kend (p + SUPERPGSIZE) h' k' := by
  have hkend : kend ≤ p := by
    simp only [PGROUNDUP] at hlo
    omega
  obtain ⟨h', k', hh, -, hrep, hl, hsl⟩ := hf.rep.superkfree kend (hf.bounded (by omega))
    (by omega) hal hkend hhi (fun c hc => hf.apart hc)
  refine ⟨h', k', hh, hrep, ?_, ?_, ?_⟩
  · rw [hl, hsl]
    exact (hf.tiles.cons hlo).perm (blocks_super_cons _ _ p).symm
  · rw [hl]
    exact hf.aligned
  · rw [hsl]
    intro r hr
    rcases List.mem_cons.mp hr with rfl | hr
    · exact hal
    · exact hf.superaligned r hr

/-- The first loop reaches `last` exactly: both ends are page boundaries. -/
theorem freerangeSmall_freed (hend : 0 < kend) {last : Nat} (hlast : last % PGSIZE = 0)
    (hstop : last ≤ PHYSTOP) : ∀ (n : Nat) {p : Nat} {h : Heap} {k : Kernel},
    last = p + n * 4096 → PGROUNDUP kend ≤ p → FreedTo kend p h k →
    ∃ h' k', h.freerangeSmall kend p last = .ok (h', last) ∧ FreedTo kend last h' k' := by
  intro n
  induction n with
  | zero =>
      intro p h k hn _ hf
      obtain rfl : last = p := by omega
      refine ⟨h, k, ?_, hf⟩
      rw [Heap.freerangeSmall, if_neg (by simp only [PGSIZE]; omega)]
  | succ n ih =>
      intro p h k hn hlo hf
      have hal : p % PGSIZE = 0 := by
        simp only [PGSIZE] at *
        omega
      obtain ⟨h₁, k₁, hh, hf₁⟩ := hf.kfree hend hlo hal (by omega)
      obtain ⟨h', k', hrun, hf'⟩ := ih (by simp only [PGSIZE]; omega)
        (by simp only [PGSIZE]; omega) hf₁
      refine ⟨h', k', ?_, hf'⟩
      rw [Heap.freerangeSmall, if_pos (by simp only [PGSIZE]; omega), hh]
      exact hrun

/-- The second loop reaches `PHYSTOP` exactly. -/
theorem freerangeSuper_freed (hend : 0 < kend) : ∀ (n : Nat) {p : Nat} {h : Heap}
    {k : Kernel}, PHYSTOP = p + n * SUPERPGSIZE → PGROUNDUP kend ≤ p → FreedTo kend p h k →
    ∃ h' k', h.freerangeSuper kend p PHYSTOP = .ok h' ∧ FreedTo kend PHYSTOP h' k' := by
  intro n
  induction n with
  | zero =>
      intro p h k hn _ hf
      obtain rfl : PHYSTOP = p := by omega
      refine ⟨h, k, ?_, hf⟩
      rw [Heap.freerangeSuper, if_neg (by simp only [PHYSTOP, SUPERPGSIZE]; omega)]
  | succ n ih =>
      intro p h k hn hlo hf
      have hal : p % SUPERPGSIZE = 0 := by
        simp only [PHYSTOP, SUPERPGSIZE] at *
        omega
      have hroom : p + SUPERPGSIZE ≤ PHYSTOP := by
        simp only [SUPERPGSIZE] at *
        omega
      obtain ⟨h₁, k₁, hh, hf₁⟩ := hf.superkfree hend hlo hal
        (by simp only [SUPERPGSIZE] at *; omega)
      obtain ⟨h', k', hrun, hf'⟩ := ih (by simp only [SUPERPGSIZE] at *; omega)
        (by omega) hf₁
      refine ⟨h', k', ?_, hf'⟩
      rw [Heap.freerangeSuper, if_pos (by omega), hh]
      exact hrun

/-- **`kinit`** does not panic and leaves the whole managed memory on the lists. -/
theorem FreedTo.kinit (hend : 0 < kend)
    (hroom : PGROUNDUP kend ≤ PHYSTOP - 52 * SUPERPGSIZE) (mem : Mem) :
    ∃ h k, Heap.kinit kend mem = .ok h ∧ FreedTo kend PHYSTOP h k := by
  have hstart : FreedTo kend (PGROUNDUP kend) ⟨mem, 0, 0⟩ ⟨[], [], mem⟩ := by
    refine ⟨⟨.nil, .nil, fun _ _ => rfl⟩, .nil _, ?_, ?_⟩
    · intro r hr
      cases hr
    · intro r hr
      cases hr
  have hsplit : PHYSTOP - 52 * SUPERPGSIZE =
      PGROUNDUP kend + (PHYSTOP - 52 * SUPERPGSIZE - PGROUNDUP kend) / 4096 * 4096 := by
    simp only [PHYSTOP, SUPERPGSIZE, PGROUNDUP] at *
    omega
  obtain ⟨h₁, k₁, hsmall, hf₁⟩ := freerangeSmall_freed hend (by decide) (by omega) _ hsplit
    (Nat.le_refl _) hstart
  have hround : PGROUNDUP (PHYSTOP - 52 * SUPERPGSIZE) = PHYSTOP - 52 * SUPERPGSIZE := by
    decide
  obtain ⟨h', k', hsuper, hf'⟩ := freerangeSuper_freed hend 52 (by decide) hroom hf₁
  refine ⟨h', k', ?_, hf'⟩
  unfold Heap.kinit Heap.freerange
  rw [hsmall]
  simp only [hround]
  exact hsuper

/-! ## Any sequence of requests -/

/-- The allocators, and the blocks their users hold. -/
structure Alloc where
  heap : Heap
  /-- handed out by `kalloc` and not yet freed -/
  out : List Nat
  /-- handed out by `superkalloc` and not yet freed -/
  superout : List Nat

inductive Req where
  | kalloc
  | superkalloc
  | kfree (pa : Nat)
  | superkfree (pa : Nat)
  /-- the holder of a block writes the byte at `x` -/
  | write (x : Nat) (b : UInt8)

namespace Alloc

def holds (s : Alloc) (x : Nat) : Prop := ∃ b ∈ blocks s.out s.superout, b.has x

instance (s : Alloc) (x : Nat) : Decidable (s.holds x) :=
  inferInstanceAs (Decidable (∃ b ∈ blocks s.out s.superout, b.1 ≤ x ∧ x < b.1 + b.2))

/-- One request. A block that is not handed out is not freed, a byte nobody holds
is not written. -/
def exec (kend : Nat) (s : Alloc) : Req → Except String Alloc
  | .kalloc =>
      match s.heap.kalloc with
      | (none, h) => .ok { s with heap := h }
      | (some r, h) => .ok { s with heap := h, out := r :: s.out }
  | .superkalloc =>
      match s.heap.superkalloc with
      | (none, h) => .ok { s with heap := h }
      | (some r, h) => .ok { s with heap := h, superout := r :: s.superout }
  | .kfree pa =>
      if pa ∈ s.out then
        match s.heap.kfree kend pa with
        | .error e => .error e
        | .ok h => .ok { s with heap := h, out := s.out.erase pa }
      else .ok s
  | .superkfree pa =>
      if pa ∈ s.superout then
        match s.heap.superkfree kend pa with
        | .error e => .error e
        | .ok h => .ok { s with heap := h, superout := s.superout.erase pa }
      else .ok s
  | .write x b =>
      if s.holds x then
        .ok { s with heap := { s.heap with mem := s.heap.mem.store x [b] } }
      else .ok s

def Step (kend : Nat) (s : Alloc) (r : Req) (t : Alloc) : Prop := s.exec kend r = .ok t

/-- The free blocks as the list heads lead to them, `small` and `super`, together
with the blocks handed out: aligned, and tiling the managed memory. -/
structure Tiled (kend : Nat) (s : Alloc) (small super : List Nat) : Prop where
  chain : Chain s.heap.mem s.heap.freelist small
  superchain : Chain s.heap.mem s.heap.superfreelist super
  aligned : ∀ r ∈ small ++ s.out, r % PGSIZE = 0
  superaligned : ∀ r ∈ super ++ s.superout, r % SUPERPGSIZE = 0
  tiles : Tiles (blocks (small ++ s.out) (super ++ s.superout)) (PGROUNDUP kend) PHYSTOP

/-- The invariant: a list allocator stands behind the links. -/
structure Good (kend : Nat) (s : Alloc) (k : Kernel) : Prop extends
    Tiled kend s k.freelist k.superfreelist where
  rep : Rep s.heap k

variable {s : Alloc}

theorem Good.mk' (hrep : Rep s.heap k)
    (hal : ∀ r ∈ k.freelist ++ s.out, r % PGSIZE = 0)
    (hsal : ∀ r ∈ k.superfreelist ++ s.superout, r % SUPERPGSIZE = 0)
    (ht : Tiles (blocks (k.freelist ++ s.out) (k.superfreelist ++ s.superout))
      (PGROUNDUP kend) PHYSTOP) : Good kend s k :=
  ⟨⟨hrep.small, hrep.super, hal, hsal, ht⟩, hrep⟩

theorem blocks_subset {small out super superout : List Nat} {b : Block}
    (hb : b ∈ blocks small super) : b ∈ blocks (small ++ out) (super ++ superout) := by
  rcases List.mem_append.mp hb with hb | hb
  · obtain ⟨r, hr, rfl⟩ := List.mem_map.mp hb
    exact mem_blocks_small (List.mem_append_left _ hr)
  · obtain ⟨r, hr, rfl⟩ := List.mem_map.mp hb
    exact mem_blocks_super (List.mem_append_left _ hr)

theorem blocks_append (small out super superout : List Nat) :
    (blocks (small ++ out) (super ++ superout)).Perm
      (blocks small super ++ blocks out superout) := by
  simp only [blocks, List.map_append, List.append_assoc]
  exact (List.perm_append_comm_assoc _ _ _).append_left _

theorem Good.bounded (hg : Good kend s k) : Bounded k := by
  rintro ⟨r, size⟩ hb
  have := (hg.tiles.inside _ (blocks_subset hb)).2
  simp only [PHYSTOP] at *
  omega

theorem Good.pairwise (hg : Good kend s k) :
    (blocks k.freelist k.superfreelist).Pairwise Block.apart := by
  refine hg.tiles.apart.sublist ?_
  exact ((List.sublist_append_left _ _).map _).append
    ((List.sublist_append_left _ _).map _)

theorem Good.move {s' : Alloc} {k' : Kernel} (hg : Good kend s k) (hrep : Rep s'.heap k')
    (h₁ : (k.freelist ++ s.out).Perm (k'.freelist ++ s'.out))
    (h₂ : (k.superfreelist ++ s.superout).Perm (k'.superfreelist ++ s'.superout)) :
    Good kend s' k' :=
  .mk' hrep (fun r hr => hg.aligned r (h₁.mem_iff.mpr hr))
    (fun r hr => hg.superaligned r (h₂.mem_iff.mpr hr)) (hg.tiles.perm (blocks_perm h₁ h₂))

/-- **One request**: no panic, and the blocks still tile the memory. -/
theorem Good.exec (hend : 0 < kend) (hg : Good kend s k) (r : Req) :
    ∃ t k', Step kend s r t ∧ Good kend t k' := by
  unfold Step
  cases r with
  | kalloc =>
      obtain ⟨o, h', k', hh, -, hrep, hcase, hsl⟩ := hg.rep.kalloc hg.pairwise
      simp only [Alloc.exec, hh]
      rcases hcase with ⟨rfl, hl⟩ | ⟨r, rfl, hl⟩
      · exact ⟨_, k', rfl, hg.move hrep (by rw [hl]) (by rw [hsl])⟩
      · refine ⟨_, k', rfl, hg.move hrep ?_ (by rw [hsl])⟩
        rw [hl]
        exact List.perm_middle.symm
  | superkalloc =>
      obtain ⟨o, h', k', hh, -, hrep, hcase, hsl⟩ := hg.rep.superkalloc hg.pairwise
      simp only [Alloc.exec, hh]
      rcases hcase with ⟨rfl, hl⟩ | ⟨r, rfl, hl⟩
      · exact ⟨_, k', rfl, hg.move hrep (by rw [hsl]) (by rw [hl])⟩
      · refine ⟨_, k', rfl, hg.move hrep (by rw [hsl]) ?_⟩
        rw [hl]
        exact List.perm_middle.symm
  | kfree pa =>
      simp only [Alloc.exec]
      by_cases hpa : pa ∈ s.out
      swap
      · rw [if_neg hpa]
        exact ⟨s, k, rfl, hg⟩
      have hmem : pa ∈ k.freelist ++ s.out := List.mem_append_right _ hpa
      -- the block to the front: it is apart from all others
      have hfront : (k.freelist ++ s.out).Perm (pa :: (k.freelist ++ s.out.erase pa)) :=
        ((List.perm_cons_erase hpa).append_left _).trans List.perm_middle
      have htiles := hg.tiles.perm (blocks_perm hfront (List.Perm.refl _))
      have hin := hg.tiles.inside _ (mem_blocks_small hmem)
      obtain ⟨h', k', hh, -, hrep, hl, hsl⟩ := hg.rep.kfree kend hg.bounded
        (by simp only [PGROUNDUP] at hin; omega) (hg.aligned _ hmem)
        (by simp only [PGROUNDUP] at hin; omega) (by simp only [PGSIZE] at hin; omega)
        (fun c hc => htiles.head_apart (blocks_subset hc))
      rw [if_pos hpa, hh]
      refine ⟨_, k', rfl, hg.move hrep ?_ (by rw [hsl])⟩
      rw [hl]
      exact hfront
  | superkfree pa =>
      simp only [Alloc.exec]
      by_cases hpa : pa ∈ s.superout
      swap
      · rw [if_neg hpa]
        exact ⟨s, k, rfl, hg⟩
      have hmem : pa ∈ k.superfreelist ++ s.superout := List.mem_append_right _ hpa
      have hfront : (k.superfreelist ++ s.superout).Perm
          (pa :: (k.superfreelist ++ s.superout.erase pa)) :=
        ((List.perm_cons_erase hpa).append_left _).trans List.perm_middle
      have htiles := (hg.tiles.perm (blocks_perm (List.Perm.refl _) hfront)).perm
        (blocks_super_cons _ _ pa)
      have hin := hg.tiles.inside _ (mem_blocks_super hmem)
      obtain ⟨h', k', hh, -, hrep, hl, hsl⟩ := hg.rep.superkfree kend hg.bounded
        (by simp only [PGROUNDUP] at hin; omega) (hg.superaligned _ hmem)
        (by simp only [PGROUNDUP] at hin; omega) (by simp only [SUPERPGSIZE] at hin; omega)
        (fun c hc => htiles.head_apart (blocks_subset hc))
      rw [if_pos hpa, hh]
      refine ⟨_, k', rfl, hg.move hrep (by rw [hl]) ?_⟩
      rw [hsl]
      exact hfront
  | write x b =>
      simp only [Alloc.exec]
      by_cases hx : s.holds x
      swap
      · rw [if_neg hx]
        exact ⟨s, k, rfl, hg⟩
      rw [if_pos hx]
      obtain ⟨c, hc, hcx⟩ := hx
      -- the byte lies in a block handed out, so in no free one
      have hapart : ∀ d ∈ blocks k.freelist k.superfreelist, c.apart d := fun d hd =>
        ((List.pairwise_append.mp (((blocks_append _ _ _ _).pairwise_iff
          Block.apart.symm).mp hg.tiles.apart)).2.2 d hd c hc).symm
      have hout : ∀ y, ¬ c.has y → s.heap.mem.store x [b] y = s.heap.mem y := by
        intro y hy
        refine Mem.store_of_notMem (fun hin => hy ?_)
        obtain rfl : y = x := by
          simp only [List.length_singleton] at hin
          omega
        exact hcx
      obtain ⟨h₁, h₂⟩ := hg.rep.chains hapart hout
      refine ⟨_, { k with mem := k.mem.store x [b] }, rfl, hg.move ⟨h₁, h₂, fun y hy => ?_⟩
        (List.Perm.refl _) (List.Perm.refl _)⟩
      show s.heap.mem.store x [b] y = k.mem.store x [b] y
      by_cases hyx : x ≤ y ∧ y < x + [b].length
      · rw [Mem.store_of_mem hyx, Mem.store_of_mem hyx]
      · rw [Mem.store_of_notMem hyx, Mem.store_of_notMem hyx]
        exact hg.rep.mem y hy

/-- **The 4KB and the 2MB allocator never overlap.** For every kernel end address
that leaves room for 52 superpages, `kinit` does not panic, and any requests after
it are served without a panic. In every state reached, the blocks on the two free
lists and the blocks handed out are aligned, lie inside `[PGROUNDUP(end),
PHYSTOP)`, cover it, and are pairwise apart. -/
theorem allocators_never_overlap {kend : Nat} (hend : 0 < kend)
    (hroom : PGROUNDUP kend ≤ PHYSTOP - 52 * SUPERPGSIZE) (mem : Mem) :
    ∃ h, Heap.kinit kend mem = .ok h ∧ ∀ rs : List Req,
      ∃ s small super, Run (Step kend) ⟨h, [], []⟩ rs s ∧ Tiled kend s small super := by
  obtain ⟨h, k, hinit, hf⟩ := FreedTo.kinit hend hroom mem
  refine ⟨h, hinit, fun rs => ?_⟩
  have hstart : ∃ k, Good kend ⟨h, [], []⟩ k := by
    refine ⟨k, .mk' hf.rep ?_ ?_ ?_⟩
    · rw [List.append_nil]
      exact hf.aligned
    · rw [List.append_nil]
      exact hf.superaligned
    · rw [List.append_nil, List.append_nil]
      exact hf.tiles
  obtain ⟨s, hrun, k', hg⟩ := Run.exists_of_total (I := fun s => ∃ k, Good kend s k)
    (fun s r ⟨k, hg⟩ => by
      obtain ⟨t, k', hs, hg'⟩ := hg.exec hend r
      exact ⟨t, hs, k', hg'⟩) rs hstart
  exact ⟨s, k'.freelist, k'.superfreelist, hrun, hg.toTiled⟩

/-- A kernel of 1 MB, and one block of each size taken and given back. -/
theorem allocators_never_overlap_one_of_each :
    ∃ h, Heap.kinit (KERNBASE + 1048576) (fun _ => 0) = .ok h ∧
      ∃ s small super, Run (Step (KERNBASE + 1048576)) ⟨h, [], []⟩
        [.superkalloc, .kalloc, .superkfree (PHYSTOP - 2097152)] s ∧
        Tiled (KERNBASE + 1048576) s small super := by
  obtain ⟨h, hinit, hall⟩ := allocators_never_overlap
    (show 0 < KERNBASE + 1048576 by decide) (by decide) (fun _ => 0)
  exact ⟨h, hinit, hall _⟩

end Alloc

end Xv6Labs.Super
