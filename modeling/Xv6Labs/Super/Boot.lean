import Xv6Labs.Super.Kalloc
import Xv6Labs.Super.Machine

/-!
# The first state

`kinit` leaves 4 KB pages below the 52 superpages at the end of memory and superpages from
there on, each on its own list and each once. With a zeroed process table this is where a
machine starts.
-/

namespace Xv6Labs.Super

open Xv6Labs.Lib

variable {kend : Nat} {h h' : Heap} {k k' : Kernel}

theorem chain_unique {m : Mem} {head : Nat} {l l' : List Nat} (hc : Chain m head l)
    (hc' : Chain m head l') : l = l' := by
  induction hc generalizing l' with
  | nil =>
      cases hc' with
      | nil => rfl
      | cons hr _ => exact absurd rfl hr
  | cons hr _ ih =>
      cases hc' with
      | nil => exact absurd rfl hr
      | cons _ hrest => rw [ih hrest]

theorem freerangeSmall_super {p last q : Nat}
    (hok : h.freerangeSmall kend p last = .ok (h', q)) : h'.superfreelist = h.superfreelist := by
  fun_induction Heap.freerangeSmall kend h p last with
  | case1 h p hlt e hfree => cases hok
  | case2 h p hlt h₁ hfree ih =>
      rw [ih hok]
      unfold Heap.kfree at hfree
      split at hfree
      · cases hfree
      · obtain rfl := Except.ok.inj hfree
        rfl
  | case3 h p hlt =>
      simp only [Except.ok.injEq, Prod.mk.injEq] at hok
      obtain ⟨rfl, -⟩ := hok
      rfl

theorem freerangeSuper_small {p paEnd : Nat} (hok : h.freerangeSuper kend p paEnd = .ok h') :
    h'.freelist = h.freelist ∧ ∀ x < p, h'.mem x = h.mem x := by
  fun_induction Heap.freerangeSuper kend h p paEnd with
  | case1 h p hle e hfree => cases hok
  | case2 h p hle h₁ hfree ih =>
      obtain ⟨hl, hm⟩ := ih hok
      have hstep : h₁.freelist = h.freelist ∧ ∀ x < p, h₁.mem x = h.mem x := by
        unfold Heap.superkfree at hfree
        split at hfree
        · cases hfree
        split at hfree
        · cases hfree
        split at hfree
        · cases hfree
        obtain rfl := Except.ok.inj hfree
        exact ⟨rfl, fun x hx => link_of_notMem (by decide) (by omega)⟩
      refine ⟨hl.trans hstep.1, fun x hx => ?_⟩
      rw [hm x (by omega), hstep.2 x hx]
  | case3 h p hle =>
      obtain rfl := Except.ok.inj hok
      exact ⟨rfl, fun _ _ => rfl⟩

theorem nodup_of_apart {l : List Nat} {size : Nat} (hpos : 0 < size)
    (hap : (l.map (fun r => (r, size))).Pairwise Block.apart) : l.Nodup := by
  rw [List.pairwise_map] at hap
  refine hap.imp (fun hab => ?_)
  rintro rfl
  unfold Block.apart at hab
  omega

/-- **`kinit`** gives each allocator its own part of the memory. -/
theorem kinit_sorted (hram : KERNBASE ≤ kend)
    (hroom : PGROUNDUP kend ≤ PHYSTOP - 52 * SUPERPGSIZE) (mem : Mem) :
    ∃ h k, Heap.kinit kend mem = .ok h ∧ Rep h k ∧
      Tiles (blocks k.freelist k.superfreelist) (PGROUNDUP kend) PHYSTOP ∧ k.Sorted kend ∧
      k.freelist.Nodup ∧ k.superfreelist.Nodup := by
  have hend : 0 < kend := by
    simp only [KERNBASE] at hram
    omega
  have hkend : kend ≤ PGROUNDUP kend := by
    simp only [PGROUNDUP]
    omega
  have hstart : FreedTo kend (PGROUNDUP kend) ⟨mem, 0, 0⟩ ⟨[], [], mem⟩ :=
    ⟨⟨.nil, .nil, fun _ _ => rfl⟩, .nil _, by simp, by simp⟩
  have hn : SPLIT = PGROUNDUP kend + (SPLIT - PGROUNDUP kend) / 4096 * 4096 := by
    simp only [SPLIT, PHYSTOP, SUPERPGSIZE, PGROUNDUP] at *
    omega
  obtain ⟨h₁, k₁, hsmall, hf₁⟩ := freerangeSmall_freed hend (by decide) (by decide) _ hn
    (Nat.le_refl _) hstart
  obtain ⟨h₂, k₂, hsuper, hf₂⟩ := freerangeSuper_freed hend 52 (p := SPLIT) (by decide) hroom hf₁
  have hrun : Heap.kinit kend mem = .ok h₂ := by
    have hround : PGROUNDUP SPLIT = SPLIT := by decide
    unfold Heap.kinit Heap.freerange
    rw [show PHYSTOP - 52 * SUPERPGSIZE = SPLIT from rfl, hsmall]
    simp only [hround]
    exact hsuper
  have hnone : k₁.superfreelist = [] := by
    have hc := hf₁.rep.super
    rw [freerangeSmall_super hsmall] at hc
    exact chain_unique hc .nil
  obtain ⟨hhead, hbelow⟩ := freerangeSuper_small hsuper
  have hinside : ∀ f ∈ k₁.freelist, PGROUNDUP kend ≤ f ∧ f + 4096 ≤ SPLIT := fun f hf =>
    hf₁.tiles.inside _ (mem_blocks_small hf)
  have hsame : k₂.freelist = k₁.freelist := by
    have hc : Chain h₂.mem h₁.freelist k₁.freelist := by
      refine hf₁.rep.small.congr (fun r hr x _ hx => hbelow x ?_)
      have := (hinside r hr).2
      omega
    have hc₂ := hf₂.rep.small
    rw [hhead] at hc₂
    exact chain_unique hc₂ hc
  have hap := hf₂.tiles.apart
  unfold blocks at hap
  rw [List.pairwise_append] at hap
  refine ⟨h₂, k₂, hrun, hf₂.rep, hf₂.tiles, ⟨fun f hf => ?_, fun f hf => ?_⟩,
    nodup_of_apart (by decide) hap.1, nodup_of_apart (by decide) hap.2.1⟩
  · have hal := hf₂.aligned f hf
    rw [hsame] at hf
    have := hinside f hf
    exact ⟨hal, by omega, by omega, by omega⟩
  · have hlo := hf₂.tiles.inside _ (mem_blocks_super hf)
    have hal := hf₂.superaligned f hf
    -- below `SPLIT` every byte is in a 4 KB page, and these are apart from superpages
    have hsplit : SPLIT ≤ f := by
      by_contra hlt
      obtain ⟨b, hb, hin⟩ := hf₁.tiles.cover f hlo.1 (by omega)
      unfold blocks at hb
      rw [hnone, List.map_nil, List.append_nil, ← hsame] at hb
      refine (hap.2.2 b hb _ (List.mem_map_of_mem hf)).notMem hin ?_
      exact ⟨Nat.le_refl f, Nat.lt_add_of_pos_right (show 0 < SUPERPGSIZE by decide)⟩
    have h₂ := hlo.2
    simp only [SUPERPGSIZE] at h₂
    exact ⟨hal, by omega, hsplit, by omega⟩

theorem spare_iff_of_tiles {lo hi : Nat} (h : Tiles (blocks k.freelist k.superfreelist) lo hi)
    (x : Nat) : k.spare x ↔ lo ≤ x ∧ x < hi := by
  constructor
  · rintro (⟨f, hf, hin⟩ | ⟨f, hf, hin⟩)
    · have hb := h.inside _ (mem_blocks_small hf)
      simp only [Block.has] at hin
      omega
    · have hb := h.inside _ (mem_blocks_super hf)
      simp only [Block.has] at hin
      omega
  · rintro ⟨hlo, hhi⟩
    obtain ⟨b, hb, hin⟩ := h.cover x hlo hhi
    rcases List.mem_append.mp hb with hb | hb
    · obtain ⟨f, hf, rfl⟩ := List.mem_map.mp hb
      exact .inl ⟨f, hf, hin⟩
    · obtain ⟨f, hf, rfl⟩ := List.mem_map.mp hb
      exact .inr ⟨f, hf, hin⟩

/-- **The machine after `kinit`**, with a process table that is still zeroed: the memory
behind the kernel is on the free lists. -/
theorem boot_kinit (hram : KERNBASE ≤ kend)
    (hroom : PGROUNDUP kend ≤ PHYSTOP - 52 * SUPERPGSIZE) (mem : Mem) {proc : List Slot}
    (hproc : ∀ p ∈ proc, p.Cleared) (nextpid : BitVec 32) (record : Nat → Nat → Char) :
    ∃ h k, Heap.kinit kend mem = .ok h ∧ Rep h k ∧
      Boot kend ⟨⟨k, proc, nextpid⟩, record, []⟩ ∧
      ∀ x, k.spare x ↔ PGROUNDUP kend ≤ x ∧ x < PHYSTOP := by
  obtain ⟨h, k, hok, hrep, htiles, hsort, hnd, hsnd⟩ := kinit_sorted hram hroom mem
  exact ⟨h, k, hok, hrep, ⟨hsort, hnd, hsnd, hproc, rfl⟩, spare_iff_of_tiles htiles⟩

end Xv6Labs.Super
