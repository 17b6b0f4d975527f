import Xv6Labs.Super.Tree
import Mathlib.Data.Finset.Card

/-!
# The address space of a process

`Space` ties a page table to the physical memory: its shape is a `Tree`, every
user page has a frame of its own, and no frame in use is on a free list. 4 KB
frames lie below the 52 superpages at the end of memory, as `freerange` hands
them out, so the two kinds never overlap.

Unmapping a page or a superpage keeps `Space`, takes that page or that slot
away, and leaves the bytes of all other user pages alone.
-/

namespace Xv6Labs.Super

open Xv6Labs.Lib

/-! ## Frames -/

/-- Where the superpages start: `pa_end - 52 * SUPERPGSIZE` in `freerange`. -/
def SPLIT : Nat := PHYSTOP - 52 * SUPERPGSIZE

structure SmallFrame (kend f : Nat) : Prop where
  aligned : f % 4096 = 0
  lo : kend ≤ f
  ram : KERNBASE ≤ f
  hi : f < SPLIT

structure SuperFrame (kend f : Nat) : Prop where
  aligned : f % 2097152 = 0
  lo : kend ≤ f
  ram : SPLIT ≤ f
  hi : f < PHYSTOP

/-- Number of the first page the kernel maps for itself, `USYSCALL`. -/
def UPAGES : Nat := USYSCALL / PGSIZE

/-- Page table and free lists belong together. -/
structure Space (kend : Nat) (k : Kernel) (pt : PageTable) : Prop
    extends Tree pt where
  root : (pt.ent 2 0).v = true
  small : ∀ q, q < UPAGES → (pt.ent 0 q).v = true →
    SmallFrame kend (PTE2PA (pt.ent 0 q)) ∧ PTE2PA (pt.ent 0 q) ∉ k.freelist
  smallInj : ∀ q q', q < UPAGES → q' < UPAGES → (pt.ent 0 q).v = true →
    (pt.ent 0 q').v = true → PTE2PA (pt.ent 0 q) = PTE2PA (pt.ent 0 q') → q = q'
  super : ∀ j, superAt pt j = true →
    SuperFrame kend (PTE2PA (pt.ent 1 j)) ∧ PTE2PA (pt.ent 1 j) ∉ k.superfreelist
  superInj : ∀ j j', superAt pt j = true → superAt pt j' = true →
    PTE2PA (pt.ent 1 j) = PTE2PA (pt.ent 1 j') → j = j'
  free : ∀ f ∈ k.freelist, SmallFrame kend f
  nodup : k.freelist.Nodup
  superfree : ∀ f ∈ k.superfreelist, SuperFrame kend f
  supernodup : k.superfreelist.Nodup
  /-- table pages can be given to `kfree` -/
  tables : SmallFrame kend (pt.tables.getLastD 0) ∧
    (∀ i, (pt.ent 2 i).v = true → SmallFrame kend (PTE2PA (pt.ent 2 i))) ∧
    ∀ j, tableAt pt j = true → SmallFrame kend (PTE2PA (pt.ent 1 j))

/-! ## Reading -/

def read (mem : Mem) (pt : PageTable) (va : Nat) : Option UInt8 :=
  match sv39 pt va with
  | none => none
  | some (level, j) => some (mem (PTE2PA (pt.ent level j) + va % 2 ^ PXSHIFT level))

def frameOf (pt : PageTable) (q : Nat) : Option Nat :=
  (seen pt q).map (fun e => PTE2PA e.2 + if e.1 = 0 then 0 else q % 512 * 4096)

variable {kend : Nat} {k k' : Kernel} {pt pt' : PageTable}

theorem Tree.read (h : Tree pt) (mem : Mem) (va : Nat) :
    read mem pt va = (frameOf pt (va / 4096)).map (fun b => mem (b + va % 4096)) := by
  unfold Super.read frameOf
  rw [h.sv39 va, ← vpn_zero]
  have hmod : va % 2097152 = vpn 0 va % 512 * 4096 + va % 4096 := by
    rw [vpn_zero]
    omega
  unfold seen
  rw [← vpn_one_eq]
  by_cases hs : superAt pt (vpn 1 va) = true
  · rw [if_pos hs]
    simp only [Option.map_some]
    rw [show PXSHIFT 1 = 21 from rfl, show (2 : Nat) ^ 21 = 2097152 from rfl, hmod,
      if_neg (by omega), Nat.add_assoc]
  · rw [if_neg hs]
    by_cases hv : (pt.ent 0 (vpn 0 va)).v = true
    · rw [if_pos hv]
      simp only [Option.map_some]
      rw [show PXSHIFT 0 = 12 from rfl, show (2 : Nat) ^ 12 = 4096 from rfl,
        if_pos trivial, Nat.add_zero]
    · rw [if_neg hv]
      rfl

theorem frameOf_cases {q b : Nat} (h : frameOf pt q = some b) :
    (superAt pt (q / 512) = true ∧ b = PTE2PA (pt.ent 1 (q / 512)) + q % 512 * 4096) ∨
      (superAt pt (q / 512) = false ∧ (pt.ent 0 q).v = true ∧
        b = PTE2PA (pt.ent 0 q)) := by
  unfold frameOf seen at h
  split at h
  · rename_i hs
    simp only [Option.map_some, Option.some.injEq] at h
    exact .inl ⟨hs, by rw [← h]; simp⟩
  · rename_i hs
    split at h
    · rename_i hv
      simp only [Option.map_some, Option.some.injEq] at h
      exact .inr ⟨by simpa using hs, hv, by rw [← h]; simp⟩
    · cases h

theorem frameOf_congr {q : Nat} (h : seen pt' q = seen pt q) :
    frameOf pt' q = frameOf pt q := by
  unfold frameOf
  rw [h]

/-- **Frames are not shared**: two user pages with overlapping frames are one
page. -/
theorem Space.frame_inj (h : Space kend k pt) {q q' b b' x : Nat}
    (hq : q < UPAGES) (hq' : q' < UPAGES) (hb : frameOf pt q = some b)
    (hb' : frameOf pt q' = some b') (hx : b ≤ x ∧ x < b + 4096)
    (hx' : b' ≤ x ∧ x < b' + 4096) : q = q' := by
  rcases frameOf_cases hb with ⟨hs, rfl⟩ | ⟨hs, hv, rfl⟩ <;>
    rcases frameOf_cases hb' with ⟨hs', rfl⟩ | ⟨hs', hv', rfl⟩
  · have h₁ := (h.super _ hs).1.aligned
    have h₂ := (h.super _ hs').1.aligned
    have hj : q / 512 = q' / 512 := h.superInj _ _ hs hs' (by omega)
    rw [← hj] at hx'
    omega
  · have h₁ := (h.super _ hs).1.ram
    have h₂ := (h.small _ hq' hv').1.hi
    have h₃ := (h.small _ hq' hv').1.aligned
    simp only [SPLIT, PHYSTOP, SUPERPGSIZE] at h₁ h₂
    omega
  · have h₁ := (h.super _ hs').1.ram
    have h₂ := (h.small _ hq hv).1.hi
    have h₃ := (h.small _ hq hv).1.aligned
    simp only [SPLIT, PHYSTOP, SUPERPGSIZE] at h₁ h₂
    omega
  · have h₁ := (h.small _ hq hv).1.aligned
    have h₂ := (h.small _ hq' hv').1.aligned
    exact h.smallInj q q' hq hq' hv hv' (by omega)

theorem Space.frame_bounds (h : Space kend k pt) {q b : Nat} (hq : q < UPAGES)
    (hb : frameOf pt q = some b) :
    b % 4096 = 0 ∧ KERNBASE ≤ b ∧ b < PHYSTOP := by
  rcases frameOf_cases hb with ⟨hs, rfl⟩ | ⟨hs, hv, rfl⟩
  · obtain ⟨⟨h₁, h₂, h₃, h₄⟩, -⟩ := h.super _ hs
    simp only [SPLIT, PHYSTOP, SUPERPGSIZE, KERNBASE] at *
    omega
  · obtain ⟨⟨h₁, h₂, h₃, h₄⟩, -⟩ := h.small _ hq hv
    simp only [SPLIT, PHYSTOP, SUPERPGSIZE, KERNBASE] at *
    omega

theorem Space.free_frame (h : Space kend k pt) {q b f x : Nat} (hq : q < UPAGES)
    (hb : frameOf pt q = some b) (hf : f ∈ k.freelist) (hx : b ≤ x ∧ x < b + 4096) :
    ¬ (f ≤ x ∧ x < f + 4096) := by
  intro hx'
  have h₀ := h.free f hf
  have h₁ := h₀.aligned
  have h₂ := h₀.hi
  rcases frameOf_cases hb with ⟨hs, rfl⟩ | ⟨hs, hv, rfl⟩
  · have h₃ := (h.super _ hs).1.ram
    have h₄ := (h.super _ hs).1.aligned
    simp only [SPLIT, PHYSTOP, SUPERPGSIZE] at *
    omega
  · have h₃ := (h.small _ hq hv).1.aligned
    refine (h.small _ hq hv).2 ?_
    rwa [show PTE2PA (pt.ent 0 q) = f by omega]

theorem Space.superfree_frame (h : Space kend k pt) {q b f x : Nat}
    (hq : q < UPAGES) (hb : frameOf pt q = some b) (hf : f ∈ k.superfreelist)
    (hx : b ≤ x ∧ x < b + 4096) : ¬ (f ≤ x ∧ x < f + 2097152) := by
  intro hx'
  have h₀ := h.superfree f hf
  have h₁ := h₀.aligned
  have h₂ := h₀.ram
  rcases frameOf_cases hb with ⟨hs, rfl⟩ | ⟨hs, hv, rfl⟩
  · have h₃ := (h.super _ hs).1.aligned
    refine (h.super _ hs).2 ?_
    rwa [show PTE2PA (pt.ent 1 (q / 512)) = f by omega]
  · have h₃ := (h.small _ hq hv).1.aligned
    have h₄ := (h.small _ hq hv).1.hi
    simp only [SPLIT, PHYSTOP, SUPERPGSIZE] at *
    omega

/-- A page that shows the same entry and whose bytes were left alone reads the
same. -/
theorem read_congr (h : Tree pt) (h' : Tree pt') {mem mem' : Mem} {va : Nat}
    (hseen : seen pt' (va / 4096) = seen pt (va / 4096))
    (hmem : ∀ b x, frameOf pt (va / 4096) = some b → b ≤ x ∧ x < b + 4096 →
      mem' x = mem x) :
    read mem' pt' va = read mem pt va := by
  rw [h.read, h'.read, frameOf_congr hseen]
  cases hb : frameOf pt (va / 4096) with
  | none => rfl
  | some b =>
      have hlt : va % 4096 < 4096 := Nat.mod_lt _ (by omega)
      simp only [Option.map_some]
      rw [hmem b _ hb (by omega)]

/-! ## Memory is finite -/

/-- **Memory bounds the address space**: pages have different frames, and there
are 32768 of them. -/
theorem Space.pages_le (h : Space kend k pt) {N : Nat}
    (hN : ∀ q < N, (seen pt q).isSome = true) : N ≤ 32768 := by
  by_contra hgt
  have hmapped : ∀ q ∈ Finset.range 32769, ∃ b, frameOf pt q = some b := by
    intro q hq
    obtain ⟨e, he⟩ := Option.isSome_iff_exists.mp
      (hN q (by have := Finset.mem_range.mp hq; omega))
    exact ⟨_, by unfold frameOf; rw [he]; rfl⟩
  have hup : (32769 : Nat) ≤ UPAGES := by decide
  have hle := Finset.card_le_card_of_injOn
    (s := Finset.range 32769) (t := Finset.range 32768)
    (fun q => ((frameOf pt q).getD 0 - KERNBASE) / 4096) ?_ ?_
  · simp at hle
  · intro q hq
    obtain ⟨b, hb⟩ := hmapped q hq
    have hq' : q < UPAGES := by
      have := Finset.mem_range.mp hq
      omega
    have := h.frame_bounds hq' hb
    simp only [hb, Option.getD_some, Finset.coe_range, Set.mem_Iio]
    simp only [PHYSTOP, KERNBASE] at *
    omega
  · intro q hq q' hq' heq
    obtain ⟨b, hb⟩ := hmapped q hq
    obtain ⟨b', hb'⟩ := hmapped q' hq'
    have hq₁ : q < UPAGES := by
      have := Finset.mem_range.mp hq
      omega
    have hq₂ : q' < UPAGES := by
      have := Finset.mem_range.mp hq'
      omega
    have h₁ := h.frame_bounds hq₁ hb
    have h₂ := h.frame_bounds hq₂ hb'
    simp only [hb, hb', Option.getD_some] at heq
    have hbb : b = b' := by omega
    exact h.frame_inj hq₁ hq₂ hb hb' (x := b) (by omega) (by omega)

/-! ## Unmapping -/

theorem seen_small {q : Nat} (h : Tree pt) (hv : (pt.ent 0 q).v = true) :
    seen pt q = some (0, pt.ent 0 q) := by
  have hs := (tableAt_iff.mp (h.bot q hv).1).2
  simp [seen, superAt, hs, hv]

/-- **Unmapping a page**: it goes back to `kmem`. -/
theorem Space.unmapSmall (h : Space kend k pt) {q : Nat} (hq : q < UPAGES)
    (hv : (pt.ent 0 q).v = true) :
    ∃ k', kfree kend k (PTE2PA (pt.ent 0 q)) = .ok k' ∧
      Space kend k' (pt.set 0 q .zero) ∧
      (∀ q', seen (pt.set 0 q .zero) q' = if q' = q then none else seen pt q') ∧
      (∀ j, tableAt (pt.set 0 q .zero) j = tableAt pt j) ∧
      k'.freelist.length = k.freelist.length + 1 ∧
      k'.superfreelist = k.superfreelist ∧
      ∀ va, va / 4096 ≠ q → va / 4096 < UPAGES →
        read k'.mem (pt.set 0 q .zero) va = read k.mem pt va := by
  obtain ⟨hfr, hnf⟩ := h.small q hq hv
  have hguard : ¬ (PTE2PA (pt.ent 0 q) % PGSIZE ≠ 0 ∨ PTE2PA (pt.ent 0 q) < kend ∨
      PHYSTOP ≤ PTE2PA (pt.ent 0 q)) := by
    obtain ⟨h₁, h₂, h₃, h₄⟩ := hfr
    simp only [PGSIZE, SPLIT, SUPERPGSIZE, PHYSTOP] at *
    omega
  obtain ⟨htab, -⟩ := h.bot q hv
  obtain ⟨hT, hS⟩ := h.toTree.set_bot (e := .zero) htab (by simp [Pte.zero])
  have e₂ : ∀ i, (pt.set 0 q .zero).ent 2 i = pt.ent 2 i := fun i => by simp
  have e₁ : ∀ j, (pt.set 0 q .zero).ent 1 j = pt.ent 1 j := fun j => by simp
  have e₀ : ∀ q', ((pt.set 0 q .zero).ent 0 q').v = true →
      q' ≠ q ∧ (pt.set 0 q .zero).ent 0 q' = pt.ent 0 q' := by
    intro q' hv'
    by_cases hqq : q' = q
    · subst hqq
      rw [PageTable.set_ent_self] at hv'
      cases hv'
    · exact ⟨hqq, pt.set_ent_of_ne _ (fun hh => hqq hh.2)⟩
  have hsup : ∀ j, superAt (pt.set 0 q .zero) j = superAt pt j := fun j => by
    unfold superAt
    rw [e₁]
  have htabs : ∀ j, tableAt (pt.set 0 q .zero) j = tableAt pt j := fun j => by
    unfold tableAt
    rw [e₁]
  refine ⟨_, if_neg hguard, ⟨hT, ?_, ?_, ?_, ?_, ?_, ?_, ?_,
    h.superfree, h.supernodup, ?_⟩, fun q' => by simpa [Pte.zero] using hS q', htabs,
    by simp, rfl, fun va hne hva => ?_⟩
  · rw [e₂]
    exact h.root
  · intro q' hq' hv'
    obtain ⟨hne, heq⟩ := e₀ q' hv'
    rw [heq] at hv' ⊢
    refine ⟨(h.small q' hq' hv').1, fun hmem => ?_⟩
    rcases List.mem_cons.mp hmem with hsame | hmem
    · exact hne (h.smallInj q' q hq' hq hv' hv hsame)
    · exact (h.small q' hq' hv').2 hmem
  · intro q₁ q₂ h₁ h₂ hv₁ hv₂ heq
    rw [(e₀ q₁ hv₁).2, (e₀ q₂ hv₂).2] at heq
    rw [(e₀ q₁ hv₁).2] at hv₁
    rw [(e₀ q₂ hv₂).2] at hv₂
    exact h.smallInj q₁ q₂ h₁ h₂ hv₁ hv₂ heq
  · intro j hj
    rw [hsup] at hj
    rw [e₁]
    exact h.super j hj
  · intro j j' hj hj' heq
    rw [hsup] at hj hj'
    rw [e₁, e₁] at heq
    exact h.superInj j j' hj hj' heq
  · intro f hf
    rcases List.mem_cons.mp hf with rfl | hf
    · exact hfr
    · exact h.free f hf
  · exact List.nodup_cons.mpr ⟨hnf, h.nodup⟩
  · obtain ⟨ht, ht₂, ht₁⟩ := h.tables
    refine ⟨ht, fun i hi => ?_, fun j hj => ?_⟩
    · rw [e₂] at hi ⊢
      exact ht₂ i hi
    · rw [htabs] at hj
      rw [e₁]
      exact ht₁ j hj
  · -- the junk goes into the frame of `q` only
    have hseen : seen (pt.set 0 q .zero) (va / 4096) = seen pt (va / 4096) := by
      rw [hS, if_neg hne]
    refine read_congr h.toTree hT hseen (fun b x hb hx => ?_)
    refine Mem.fill_of_notMem (fun hin => hne ?_)
    have hbq : frameOf pt q = some (PTE2PA (pt.ent 0 q)) := by
      unfold frameOf
      rw [seen_small h.toTree hv]
      simp
    exact h.frame_inj hva hq hb hbq hx hin

/-- **Unmapping a superpage**: it goes back to `superkmem`, with its whole
slot. -/
theorem Space.unmapSuper (h : Space kend k pt) {j : Nat}
    (hs : superAt pt j = true) (hup : j * 512 + 512 ≤ UPAGES) :
    ∃ k', superkfree kend k (PTE2PA (pt.ent 1 j)) = .ok k' ∧
      Space kend k' (pt.set 1 j .zero) ∧
      (∀ q, seen (pt.set 1 j .zero) q = if q / 512 = j then none else seen pt q) ∧
      (∀ j', tableAt (pt.set 1 j .zero) j' = tableAt pt j') ∧
      k'.freelist = k.freelist ∧
      ∀ va, va / 4096 / 512 ≠ j → va / 4096 < UPAGES →
        read k'.mem (pt.set 1 j .zero) va = read k.mem pt va := by
  obtain ⟨hfr, hnf⟩ := h.super j hs
  have hg₁ : ¬ PTE2PA (pt.ent 1 j) % SUPERPGSIZE ≠ 0 := by
    have := hfr.aligned
    simp only [SUPERPGSIZE]
    omega
  have hg₂ : ¬ PTE2PA (pt.ent 1 j) < kend := Nat.not_lt.mpr hfr.lo
  have hg₃ : ¬ PHYSTOP ≤ PTE2PA (pt.ent 1 j) := Nat.not_le.mpr hfr.hi
  have hnt : tableAt pt j = false := by
    have := (superAt_iff.mp hs).2
    simp [tableAt, this]
  obtain ⟨hT, hS⟩ := h.toTree.set_mid (e := .zero) hnt (by simp [Pte.zero])
  have e₂ : ∀ i, (pt.set 1 j .zero).ent 2 i = pt.ent 2 i := fun i => by simp
  have e₀ : ∀ q, (pt.set 1 j .zero).ent 0 q = pt.ent 0 q := fun q => by simp
  have e₁ : ∀ j', ((pt.set 1 j .zero).ent 1 j').v = true →
      j' ≠ j ∧ (pt.set 1 j .zero).ent 1 j' = pt.ent 1 j' := by
    intro j' hv'
    by_cases hjj : j' = j
    · subst hjj
      rw [PageTable.set_ent_self] at hv'
      cases hv'
    · exact ⟨hjj, pt.set_ent_of_ne _ (fun hh => hjj hh.2)⟩
  have hsup : ∀ j', superAt (pt.set 1 j .zero) j' = true →
      j' ≠ j ∧ superAt pt j' = true ∧ (pt.set 1 j .zero).ent 1 j' = pt.ent 1 j' := by
    intro j' hj'
    obtain ⟨hne, heq⟩ := e₁ j' (superAt_iff.mp hj').1
    unfold superAt at hj'
    rw [heq] at hj'
    exact ⟨hne, hj', heq⟩
  have htabs : ∀ j', tableAt (pt.set 1 j .zero) j' = tableAt pt j' := by
    intro j'
    by_cases hjj : j' = j
    · subst hjj
      rw [hnt]
      simp [tableAt, Pte.zero]
    · unfold tableAt
      rw [pt.set_ent_of_ne _ (fun hh => hjj hh.2)]
  refine ⟨_, (if_neg hg₁).trans ((if_neg hg₂).trans (if_neg hg₃)), ⟨hT, ?_, ?_, ?_, ?_, ?_, h.free, h.nodup, ?_, ?_, ?_⟩,
    fun q => by simpa [Pte.zero] using hS q, htabs, rfl, fun va hne hva => ?_⟩
  · rw [e₂]
    exact h.root
  · intro q hq hv
    rw [e₀] at hv ⊢
    exact h.small q hq hv
  · intro q₁ q₂ h₁ h₂ hv₁ hv₂ heq
    rw [e₀] at hv₁ hv₂
    rw [e₀, e₀] at heq
    exact h.smallInj q₁ q₂ h₁ h₂ hv₁ hv₂ heq
  · intro j' hj'
    obtain ⟨hne, hj'', heq⟩ := hsup j' hj'
    rw [heq]
    refine ⟨(h.super j' hj'').1, fun hmem => ?_⟩
    rcases List.mem_cons.mp hmem with hsame | hmem
    · exact hne (h.superInj j' j hj'' hs hsame)
    · exact (h.super j' hj'').2 hmem
  · intro j₁ j₂ h₁ h₂ heq
    obtain ⟨-, hj₁, he₁⟩ := hsup j₁ h₁
    obtain ⟨-, hj₂, he₂⟩ := hsup j₂ h₂
    rw [he₁, he₂] at heq
    exact h.superInj j₁ j₂ hj₁ hj₂ heq
  · intro f hf
    rcases List.mem_cons.mp hf with rfl | hf
    · exact hfr
    · exact h.superfree f hf
  · exact List.nodup_cons.mpr ⟨hnf, h.supernodup⟩
  · obtain ⟨ht, ht₂, ht₁⟩ := h.tables
    refine ⟨ht, fun i hi => ?_, fun j' hj' => ?_⟩
    · rw [e₂] at hi ⊢
      exact ht₂ i hi
    · rw [(e₁ j' (tableAt_iff.mp hj').1).2]
      rw [htabs] at hj'
      exact ht₁ j' hj'
  · have hseen : seen (pt.set 1 j .zero) (va / 4096) = seen pt (va / 4096) := by
      rw [hS, if_neg hne]
    refine read_congr h.toTree hT hseen (fun b x hb hx => ?_)
    refine Mem.fill_of_notMem (fun hin => hne ?_)
    -- the byte lies in some page of slot `j`
    simp only [SUPERPGSIZE] at hin
    have hal := hfr.aligned
    let q := j * 512 + (x - PTE2PA (pt.ent 1 j)) / 4096
    have hqj : q / 512 = j := by omega
    have hbq : frameOf pt q = some (PTE2PA (pt.ent 1 j) + q % 512 * 4096) := by
      unfold frameOf seen
      rw [hqj, if_pos hs]
      simp
    have := h.frame_inj hva (by omega : q < UPAGES) hb hbq hx (by omega)
    rw [this]
    exact hqj

end Xv6Labs.Super
