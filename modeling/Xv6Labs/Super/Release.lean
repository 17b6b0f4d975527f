import Xv6Labs.Super.Unmap
import Xv6Labs.Super.View

/-!
# What `uvmunmap` releases

`uvmunmap` with `do_free` over a range of mapped pages that cuts no superpage, on any
page table: it clears the leaves of the range and no other entry, and hands every
frame to its own allocator, in the order of the pages (`Released`).
-/

namespace Xv6Labs.Super

/-- What `kfree` accepts, and so what `kalloc` hands out. -/
structure KallocFrame (kend f : Nat) : Prop where
  aligned : f % PGSIZE = 0
  lo : kend ≤ f
  hi : f < PHYSTOP

structure SuperkallocFrame (kend f : Nat) : Prop where
  aligned : f % SUPERPGSIZE = 0
  lo : kend ≤ f
  hi : f < PHYSTOP

def pageFrame (pt : PageTable) (q : Nat) : Option Nat :=
  match leafAt pt q with
  | some (0, e) => some (PTE2PA e)
  | _ => none

def slotFrame (pt : PageTable) (q : Nat) : Option Nat :=
  match leafAt pt q with
  | some (1, e) => if q % 512 = 0 then some (PTE2PA e) else none
  | _ => none

def pageFrames (pt : PageTable) (lo hi : Nat) : List Nat :=
  (List.Ico lo hi).filterMap (pageFrame pt)

def slotFrames (pt : PageTable) (lo hi : Nat) : List Nat :=
  (List.Ico lo hi).filterMap (slotFrame pt)

/-- What unmapping the pages `[lo, hi)` does, and all it does. -/
structure Released (k : Kernel) (pt : PageTable) (k' : Kernel) (pt' : PageTable)
    (lo hi : Nat) : Prop where
  cleared : ∀ q c, lo ≤ q → q < hi → sv39 pt (q * 4096) = some c →
    pt'.ent c.1 c.2 = .zero
  kept : ∀ c : PtePtr, (∀ q, lo ≤ q → q < hi → sv39 pt (q * 4096) ≠ some c) →
    pt'.ent c.1 c.2 = pt.ent c.1 c.2
  leaf : ∀ q, leafAt pt' q = if lo ≤ q ∧ q < hi then none else leafAt pt q
  tables : pt'.tables = pt.tables
  freelist : k'.freelist = (pageFrames pt lo hi).reverse ++ k.freelist
  superfreelist : k'.superfreelist = (slotFrames pt lo hi).reverse ++ k.superfreelist

/-- Page `q` is mapped, to a frame its allocator accepts. -/
def Backed (kend : Nat) (pt : PageTable) (q : Nat) : Prop :=
  (SmallAt pt q ∧ KallocFrame kend (PTE2PA (pt.ent 0 q))) ∨
    (SlotAt pt (q / 512) ∧ SuperkallocFrame kend (PTE2PA (pt.ent 1 (q / 512))))

variable {kend : Nat} {k k' : Kernel} {pt pt' : PageTable} {lo hi : Nat}

theorem KallocFrame.kfree {f : Nat} (h : KallocFrame kend f) (k : Kernel) :
    kfree kend k f = .ok { k with
      mem := k.mem.fill f PGSIZE 1
      freelist := f :: k.freelist } := by
  obtain ⟨h₁, h₂, h₃⟩ := h
  exact if_neg (by omega)

theorem SuperkallocFrame.superkfree {f : Nat} (h : SuperkallocFrame kend f) (k : Kernel) :
    superkfree kend k f = .ok { k with
      mem := k.mem.fill f SUPERPGSIZE 1
      superfreelist := f :: k.superfreelist } := by
  obtain ⟨h₁, h₂, h₃⟩ := h
  unfold Super.superkfree
  rw [if_neg (by omega), if_neg (by omega), if_neg (by omega)]

theorem pageFrame_congr {q : Nat} (h : leafAt pt' q = leafAt pt q) :
    pageFrame pt' q = pageFrame pt q := by
  unfold pageFrame
  rw [h]

theorem slotFrame_congr {q : Nat} (h : leafAt pt' q = leafAt pt q) :
    slotFrame pt' q = slotFrame pt q := by
  unfold slotFrame
  rw [h]

theorem pageFrames_congr (h : ∀ q, lo ≤ q → q < hi → leafAt pt' q = leafAt pt q) :
    pageFrames pt' lo hi = pageFrames pt lo hi :=
  filterMap_Ico_congr (fun q h₁ h₂ => pageFrame_congr (h q h₁ h₂))

theorem slotFrames_congr (h : ∀ q, lo ≤ q → q < hi → leafAt pt' q = leafAt pt q) :
    slotFrames pt' lo hi = slotFrames pt lo hi :=
  filterMap_Ico_congr (fun q h₁ h₂ => slotFrame_congr (h q h₁ h₂))

/-! ## One page or one superpage -/

theorem SmallAt.frames (h : SmallAt pt lo) (hlt : lo < hi) :
    pageFrames pt lo hi = PTE2PA (pt.ent 0 lo) :: pageFrames pt (lo + 1) hi ∧
      slotFrames pt lo hi = slotFrames pt (lo + 1) hi := by
  have hp : pageFrame pt lo = some (PTE2PA (pt.ent 0 lo)) := by
    unfold pageFrame
    rw [h.leafAt_eq]
    rfl
  have hs : slotFrame pt lo = none := by
    unfold slotFrame
    rw [h.leafAt_eq]
    rfl
  unfold pageFrames slotFrames
  rw [List.Ico.eq_cons hlt]
  exact ⟨List.filterMap_cons_some hp, List.filterMap_cons_none hs⟩

theorem SlotAt.frames {j : Nat} (h : SlotAt pt j) (hhi : j * 512 + 512 ≤ hi) :
    pageFrames pt (j * 512) hi = pageFrames pt (j * 512 + 512) hi ∧
      slotFrames pt (j * 512) hi =
        PTE2PA (pt.ent 1 j) :: slotFrames pt (j * 512 + 512) hi := by
  have hleaf : ∀ q, q / 512 = j → leafAt pt q = some (1, pt.ent 1 j) := by
    rintro q rfl
    exact h.leafAt_eq
  have hnone : (List.Ico (j * 512) (j * 512 + 512)).filterMap (pageFrame pt) = [] := by
    rw [List.filterMap_eq_nil_iff]
    intro q hq
    rw [List.Ico.mem] at hq
    unfold pageFrame
    rw [hleaf q (by omega)]
    rfl
  have hone : (List.Ico (j * 512) (j * 512 + 512)).filterMap (slotFrame pt) =
      [PTE2PA (pt.ent 1 j)] := by
    have hfirst : slotFrame pt (j * 512) = some (PTE2PA (pt.ent 1 j)) := by
      unfold slotFrame
      rw [hleaf _ (by omega)]
      exact if_pos (by omega)
    have hrest : (List.Ico (j * 512 + 1) (j * 512 + 512)).filterMap (slotFrame pt) = [] := by
      rw [List.filterMap_eq_nil_iff]
      intro q hq
      rw [List.Ico.mem] at hq
      unfold slotFrame
      rw [hleaf q (by omega)]
      exact if_neg (by omega)
    have hsplit := @filterMap_Ico_split (slotFrame pt) (j * 512) (j * 512 + 1) (j * 512 + 512)
      (Nat.le_succ _) (Nat.add_le_add_left (by decide) _)
    rw [List.Ico.succ_singleton, hrest] at hsplit
    rw [hsplit, List.append_nil]
    exact List.filterMap_cons_some hfirst
  unfold pageFrames slotFrames
  have hp := @filterMap_Ico_split (pageFrame pt) _ _ _ (Nat.le_add_right (j * 512) 512) hhi
  have hs := @filterMap_Ico_split (slotFrame pt) _ _ _ (Nat.le_add_right (j * 512) 512) hhi
  rw [hnone] at hp
  rw [hone] at hs
  rw [hp, hs]
  exact ⟨List.nil_append _, List.singleton_append⟩

theorem SmallAt.mem_frames {q : Nat} (h : SmallAt pt q) (h₁ : lo ≤ q) (h₂ : q < hi) :
    PTE2PA (pt.ent 0 q) ∈ pageFrames pt lo hi := by
  refine List.mem_filterMap.mpr ⟨q, List.Ico.mem.mpr ⟨h₁, h₂⟩, ?_⟩
  unfold pageFrame
  rw [h.leafAt_eq]
  rfl

theorem SlotAt.mem_frames {j : Nat} (h : SlotAt pt j) (h₁ : lo ≤ j * 512)
    (h₂ : j * 512 < hi) : PTE2PA (pt.ent 1 j) ∈ slotFrames pt lo hi := by
  have hj : j * 512 / 512 = j := Nat.mul_div_cancel j (by decide)
  refine List.mem_filterMap.mpr ⟨j * 512, List.Ico.mem.mpr ⟨h₁, h₂⟩, ?_⟩
  unfold slotFrame
  rw [SlotAt.leafAt_eq (by rw [hj]; exact h), hj]
  exact if_pos (Nat.mul_mod_left j 512)

theorem SmallAt.clear {q : Nat} (h : SmallAt pt q) :
    leafAt (pt.set 0 q .zero) q = none ∧
      ∀ q', q' ≠ q → sv39 (pt.set 0 q .zero) (q' * 4096) = sv39 pt (q' * 4096) ∧
        leafAt (pt.set 0 q .zero) q' = leafAt pt q' := by
  have e₂ : ∀ i, (pt.set 0 q .zero).ent 2 i = pt.ent 2 i := fun i => by simp
  have e₁ : ∀ j, (pt.set 0 q .zero).ent 1 j = pt.ent 1 j := fun j => by simp
  refine ⟨?_, fun q' hne => leafAt_congr (e₂ _) (e₁ _) (pt.set_ent_of_ne _ (by omega))⟩
  rw [leafAt_eq_none, sv39_page, e₂, e₁, PageTable.set_ent_self]
  simp [h.region.v, h.region.table, h.v₁, h.table, Pte.zero]

theorem SlotAt.clear {j : Nat} (h : SlotAt pt j) :
    (∀ q, q / 512 = j → leafAt (pt.set 1 j .zero) q = none) ∧
      ∀ q, q / 512 ≠ j → sv39 (pt.set 1 j .zero) (q * 4096) = sv39 pt (q * 4096) ∧
        leafAt (pt.set 1 j .zero) q = leafAt pt q := by
  have e₂ : ∀ i, (pt.set 1 j .zero).ent 2 i = pt.ent 2 i := fun i => by simp
  have e₀ : ∀ q, (pt.set 1 j .zero).ent 0 q = pt.ent 0 q := fun q => by simp
  refine ⟨fun q hq => ?_, fun q hne =>
    leafAt_congr (e₂ _) (pt.set_ent_of_ne _ (by omega)) (e₀ _)⟩
  rw [leafAt_eq_none, sv39_page, e₂, hq, PageTable.set_ent_self]
  simp [h.region.v, h.region.table, Pte.zero]

theorem Released.nothing (k : Kernel) (pt : PageTable) (h : hi ≤ lo) :
    Released k pt k pt lo hi := by
  have hnil : List.Ico lo hi = [] := List.Ico.eq_nil_of_le h
  refine ⟨fun q c h₁ h₂ => by omega, fun _ _ => rfl, fun q => by rw [if_neg (by omega)], rfl,
    ?_, ?_⟩
  · unfold pageFrames
    rw [hnil]
    rfl
  · unfold slotFrames
    rw [hnil]
    rfl

theorem Released.page {mem : Lib.Mem} (h : SmallAt pt lo) (hlt : lo < hi)
    (hrest : Released ⟨PTE2PA (pt.ent 0 lo) :: k.freelist, k.superfreelist, mem⟩
      (pt.set 0 lo .zero) k' pt' (lo + 1) hi) : Released k pt k' pt' lo hi := by
  obtain ⟨hnone, hother⟩ := h.clear
  have hne : ∀ q, lo + 1 ≤ q → sv39 pt (q * 4096) ≠ some (0, lo) := fun q hq hsv => by
    have := (sv39_path hsv).1 rfl
    simp only at this
    omega
  obtain ⟨hpf, hsf⟩ := h.frames hlt
  have hsame : ∀ q, lo + 1 ≤ q → q < hi → leafAt (pt.set 0 lo .zero) q = leafAt pt q :=
    fun q hq _ => (hother q (by omega)).2
  refine ⟨fun q c h₁ h₂ hsv => ?_, fun c hc => ?_, fun q => ?_, hrest.tables, ?_, ?_⟩
  · by_cases hq : q = lo
    · subst hq
      rw [h.sv39_eq, Option.some.injEq] at hsv
      subst hsv
      rw [hrest.kept (0, q) (fun q' h₁' _ => by
        rw [(hother q' (by omega)).1]
        exact hne q' h₁')]
      exact pt.set_ent_self 0 q .zero
    · refine hrest.cleared q c (by omega) h₂ ?_
      rw [(hother q hq).1]
      exact hsv
  · rw [hrest.kept c (fun q h₁ h₂ => by
      rw [(hother q (by omega)).1]
      exact hc q (by omega) h₂)]
    refine pt.set_ent_of_ne _ (fun hh => hc lo (Nat.le_refl _) hlt ?_)
    rw [h.sv39_eq]
    exact congrArg some (Prod.ext hh.1.symm hh.2.symm)
  · rw [hrest.leaf]
    by_cases hq : q = lo
    · rw [if_neg (by omega), if_pos (by omega), hq]
      exact hnone
    · rw [(hother q hq).2]
      split_ifs <;> first | rfl | omega
  · rw [hrest.freelist, pageFrames_congr hsame, hpf, List.reverse_cons, List.append_assoc]
    rfl
  · rw [hrest.superfreelist, slotFrames_congr hsame, hsf]

theorem Released.slot {mem : Lib.Mem} {j : Nat} (h : SlotAt pt j)
    (hhi : j * 512 + 512 ≤ hi)
    (hrest : Released ⟨k.freelist, PTE2PA (pt.ent 1 j) :: k.superfreelist, mem⟩
      (pt.set 1 j .zero) k' pt' (j * 512 + 512) hi) :
    Released k pt k' pt' (j * 512) hi := by
  obtain ⟨hnone, hother⟩ := h.clear
  have hsv : ∀ q, q / 512 = j → sv39 pt (q * 4096) = some (1, j) := by
    rintro q rfl
    exact h.sv39_eq
  have hne : ∀ q, j * 512 + 512 ≤ q → sv39 pt (q * 4096) ≠ some (1, j) := fun q hq hh => by
    have := (sv39_path hh).2 rfl
    simp only at this
    omega
  obtain ⟨hpf, hsf⟩ := h.frames hhi
  have hsame : ∀ q, j * 512 + 512 ≤ q → q < hi →
      leafAt (pt.set 1 j .zero) q = leafAt pt q := fun q hq _ => (hother q (slot_ne hq)).2
  refine ⟨fun q c h₁ h₂ hc => ?_, fun c hc => ?_, fun q => ?_, hrest.tables, ?_, ?_⟩
  · by_cases hq : q / 512 = j
    · rw [hsv q hq, Option.some.injEq] at hc
      subst hc
      rw [hrest.kept (1, j) (fun q' h₁' _ => by
        rw [(hother q' (by omega)).1]
        exact hne q' h₁')]
      exact pt.set_ent_self 1 j .zero
    · refine hrest.cleared q c ?_ h₂ ?_
      · by_contra hlt
        exact absurd (lt_slot (Nat.not_le.mp hlt) hq) (Nat.not_lt.mpr h₁)
      · rw [(hother q hq).1]
        exact hc
  · rw [hrest.kept c (fun q h₁ h₂ => by
      rw [(hother q (slot_ne h₁)).1]
      exact hc q (Nat.le_of_add_right_le h₁) h₂)]
    have hlt : j * 512 < hi := Nat.lt_of_lt_of_le (Nat.lt_add_of_pos_right (by decide)) hhi
    refine pt.set_ent_of_ne _ (fun hh => hc (j * 512) (Nat.le_refl _) hlt ?_)
    rw [hsv _ (Nat.mul_div_cancel j (by decide))]
    exact congrArg some (Prod.ext hh.1.symm hh.2.symm)
  · rw [hrest.leaf]
    by_cases hq : q / 512 = j
    · have hin : j * 512 ≤ q ∧ q < j * 512 + 512 := by
        rw [← hq]
        omega
      rw [if_neg (fun hh => Nat.not_lt.mpr hh.1 hin.2),
        if_pos ⟨hin.1, Nat.lt_of_lt_of_le hin.2 hhi⟩]
      exact hnone q hq
    · rw [(hother q hq).2]
      have hiff : (j * 512 + 512 ≤ q ∧ q < hi) ↔ (j * 512 ≤ q ∧ q < hi) := by
        refine ⟨fun hh => ⟨Nat.le_of_add_right_le hh.1, hh.2⟩, fun hh => ⟨?_, hh.2⟩⟩
        by_contra hlt
        exact absurd (lt_slot (Nat.not_le.mp hlt) hq) (Nat.not_lt.mpr hh.1)
      simp only [hiff]
  · rw [hrest.freelist, pageFrames_congr hsame, hpf]
  · rw [hrest.superfreelist, slotFrames_congr hsame, hsf, List.reverse_cons,
      List.append_assoc]
    rfl

/-! ## The loop -/

/-- **The loop of `uvmunmap`** over `[lo, hi)`, backed pages that cut no superpage. -/
theorem uvmunmapLoop_released (fuel : Nat) : ∀ {k : Kernel} {pt : PageTable} (lo : Nat),
    (∀ q, lo ≤ q → q < hi → Backed kend pt q) →
    (lo < hi → SlotAt pt (lo / 512) → lo % 512 = 0) →
    (∀ j, lo ≤ j * 512 → j * 512 < hi → SlotAt pt j → j * 512 + 512 ≤ hi) →
    hi ≤ lo + fuel →
    ∃ k' pt', uvmunmapLoop kend k pt (lo * 4096) (hi * 4096) true fuel = .ok (k', pt') ∧
      Released k pt k' pt' lo hi := by
  induction fuel with
  | zero =>
      intro k pt lo _ _ _ hfuel
      exact ⟨k, pt, rfl, .nothing k pt hfuel⟩
  | succ fuel ih =>
      intro k pt lo hback hon hend hfuel
      by_cases hlt : lo < hi
      swap
      · exact ⟨k, pt, uvmunmapLoop_of_le kend k pt (by omega) true _, .nothing k pt (by omega)⟩
      rw [Super.uvmunmapLoop, if_pos (by omega)]
      rcases hback lo (Nat.le_refl _) hlt with ⟨hp, hf⟩ | ⟨hs, hf⟩
      · -- a page of its own
        have e₂ : ∀ i, (pt.set 0 lo .zero).ent 2 i = pt.ent 2 i := fun i => by simp
        have e₁ : ∀ j, (pt.set 0 lo .zero).ent 1 j = pt.ent 1 j := fun j => by simp
        have hslot : ∀ {j}, SlotAt (pt.set 0 lo .zero) j → SlotAt pt j := fun h =>
          h.congr (e₂ _).symm (e₁ _).symm
        obtain ⟨k', pt', hloop, hR⟩ := @ih
          ⟨PTE2PA (pt.ent 0 lo) :: k.freelist, k.superfreelist, k.mem.fill
            (PTE2PA (pt.ent 0 lo)) PGSIZE 1⟩ (pt.set 0 lo .zero) (lo + 1)
          (fun q h₁ h₂ => by
            have e₀ : (pt.set 0 lo .zero).ent 0 q = pt.ent 0 q :=
              pt.set_ent_of_ne _ (by omega)
            rcases hback q (by omega) h₂ with ⟨hp', hf'⟩ | ⟨hs', hf'⟩
            · exact .inl ⟨hp'.congr (e₂ _) (e₁ _) e₀, by rw [e₀]; exact hf'⟩
            · exact .inr ⟨hs'.congr (e₂ _) (e₁ _), by rw [e₁]; exact hf'⟩)
          (fun hlt' hs' => by
            by_contra hne
            rw [show (lo + 1) / 512 = lo / 512 by omega] at hs'
            exact hp.not_slot (hslot hs'))
          (fun j h₁ h₂ hs' => hend j (by omega) h₂ (hslot hs'))
          (by omega)
        refine ⟨k', pt', ?_, .page hp hlt hR⟩
        rw [hp.region.walk]
        simp only [hp.v₁, hp.plain, hp.table, hp.v, hp.small, flags_ne_of_leaf hp.leaf,
          hf.kfree, if_true, if_false, Bool.or_self, Bool.false_eq_true, Bool.true_eq_false]
        rw [show lo * 4096 + PGSIZE = (lo + 1) * 4096 by
          simp only [PGSIZE]
          omega]
        exact hloop
      · -- a superpage: it starts at `lo` and ends before `hi`
        have hal := hon hlt hs
        have hnext : (lo + 512) % 512 = 0 := by omega
        have hfuel' : hi ≤ lo + 512 + fuel := by omega
        obtain ⟨j, rfl⟩ : ∃ j, lo = j * 512 := ⟨lo / 512, by omega⟩
        have hj : j * 512 / 512 = j := Nat.mul_div_cancel j (by omega)
        rw [hj] at hs hf
        have hfits := hend j (Nat.le_refl _) hlt hs
        have e₂ : ∀ i, (pt.set 1 j .zero).ent 2 i = pt.ent 2 i := fun i => by simp
        have e₁ : ∀ j', j' ≠ j → (pt.set 1 j .zero).ent 1 j' = pt.ent 1 j' := fun j' hne =>
          pt.set_ent_of_ne _ (fun hh => hne hh.2)
        have e₀ : ∀ q, (pt.set 1 j .zero).ent 0 q = pt.ent 0 q := fun q => by simp
        obtain ⟨k', pt', hloop, hR⟩ := @ih
          ⟨k.freelist, PTE2PA (pt.ent 1 j) :: k.superfreelist, k.mem.fill
            (PTE2PA (pt.ent 1 j)) SUPERPGSIZE 1⟩ (pt.set 1 j .zero) (j * 512 + 512)
          (fun q h₁ h₂ => by
            have e₁' := e₁ (q / 512) (slot_ne h₁)
            rcases hback q (Nat.le_of_add_right_le h₁) h₂ with ⟨hp', hf'⟩ | ⟨hs', hf'⟩
            · exact .inl ⟨hp'.congr (e₂ _) e₁' (e₀ _), by rw [e₀]; exact hf'⟩
            · exact .inr ⟨hs'.congr (e₂ _) e₁', by rw [e₁']; exact hf'⟩)
          (fun _ _ => hnext)
          (fun j' h₁ h₂ hs' => hend j' (Nat.le_of_add_right_le h₁) h₂
            (hs'.congr (e₂ _).symm (e₁ j' (slot_lt h₁).ne').symm))
          hfuel'
        refine ⟨k', pt', ?_, .slot hs hfits hR⟩
        have hreg : Region pt (j * 512 / 512 / 512) := by
          rw [hj]
          exact hs.region
        rw [hreg.walk, hj]
        simp only [hs.v, hs.super, hs.leaf, flags_ne_of_leaf hs.leaf, hf.superkfree, if_true,
          if_false, Bool.or_self, Bool.true_eq_false]
        rw [show j * 512 * 4096 + SUPERPGSIZE = (j * 512 + 512) * 4096 by
          rw [Nat.add_mul]
          rfl]
        exact hloop

/-! ## The call -/

def InTable (pt : PageTable) : PtePtr → Prop
  | (0, q) => ((pt.ent 2 (q / 512 / 512)).v = true ∧
      (pt.ent 2 (q / 512 / 512)).leaf = false) ∧
      (pt.ent 1 (q / 512)).v = true ∧ (pt.ent 1 (q / 512)).leaf = false
  | (1, j) => (pt.ent 2 (j / 512)).v = true ∧ (pt.ent 2 (j / 512)).leaf = false
  | (2, _) => True
  | _ => False

/-- The pages `[lo, hi)` are mapped, each to a frame of its own from the right
allocator, by a table on which only level-1 leaves carry `PTE_S`, and no superpage
reaches over an end of the range. -/
structure FullyMapped (kend : Nat) (pt : PageTable) (lo hi : Nat) : Prop where
  marks : ∀ c, InTable pt c → (pt.ent c.1 c.2).v = true → (pt.ent c.1 c.2).s = true →
    c.1 = 1 ∧ (pt.ent c.1 c.2).leaf = true
  below : hi ≤ entries 0
  mapped : ∀ q, lo ≤ q → q < hi →
    (∃ e, leafAt pt q = some (0, e) ∧ KallocFrame kend (PTE2PA e)) ∨
      ∃ e, leafAt pt q = some (1, e) ∧ e.s = true ∧ SuperkallocFrame kend (PTE2PA e)
  start : ∀ e, leafAt pt lo = some (1, e) → lo % 512 = 0
  stop : ∀ e, leafAt pt hi = some (1, e) → hi % 512 = 0
  distinct : ∀ q q' c c', lo ≤ q → q < hi → lo ≤ q' → q' < hi →
    sv39 pt (q * 4096) = some c → sv39 pt (q' * 4096) = some c' →
    PTE2PA (pt.ent c.1 c.2) = PTE2PA (pt.ent c'.1 c'.2) → c = c'

theorem entries_zero : entries 0 = 67108864 := by decide

theorem FullyMapped.backed (h : FullyMapped kend pt lo hi) {q : Nat} (h₁ : lo ≤ q)
    (h₂ : q < hi) : Backed kend pt q := by
  have hbelow := h.below
  rw [entries_zero] at hbelow
  have hlt : q / 512 / 512 < entries 2 := by
    rw [entries_two]
    omega
  have hplain : (pt.ent 2 (q / 512 / 512)).v = true →
      (pt.ent 2 (q / 512 / 512)).s = false := by
    intro hv
    by_contra hs
    have := (h.marks (2, q / 512 / 512) trivial hv (by simpa using hs)).1
    cases this
  rcases h.mapped q h₁ h₂ with ⟨e, hleaf, hf⟩ | ⟨e, hleaf, hs, hf⟩
  · obtain ⟨hv₂, hl₂, hv₁, hl₁, hv₀, hl₀, rfl⟩ := leafAt_small hleaf
    refine .inl ⟨⟨⟨hlt, hv₂, hplain hv₂, hl₂⟩, hv₁, ?_, hl₁, hv₀, ?_, hl₀⟩, hf⟩
    · by_contra hs
      have := (h.marks (1, q / 512) ⟨hv₂, hl₂⟩ hv₁ (by simpa using hs)).2
      rw [hl₁] at this
      cases this
    · by_contra hs
      have := (h.marks (0, q) ⟨⟨hv₂, hl₂⟩, hv₁, hl₁⟩ hv₀ (by simpa using hs)).1
      cases this
  · obtain ⟨hv₂, hl₂, hv₁, hl₁, rfl⟩ := leafAt_super hleaf
    exact .inr ⟨⟨⟨hlt, hv₂, hplain hv₂, hl₂⟩, hv₁, hs, hl₁⟩, hf⟩

theorem nodup_filterMap_Ico {f : Nat → Option Nat}
    (h : ∀ q q' b, lo ≤ q → q < hi → lo ≤ q' → q' < hi → f q = some b → f q' = some b →
      q = q') : ((List.Ico lo hi).filterMap f).Nodup := by
  have hcongr : (List.Ico lo hi).filterMap f =
      (List.Ico lo hi).filterMap (fun q => if lo ≤ q ∧ q < hi then f q else none) :=
    filterMap_Ico_congr (fun q h₁ h₂ => (if_pos ⟨h₁, h₂⟩).symm)
  rw [hcongr]
  refine List.Nodup.filterMap (fun q q' b hb hb' => ?_) (List.Ico.nodup lo hi)
  simp only [Option.mem_def, Option.ite_none_right_eq_some] at hb hb'
  exact h q q' b hb.1.1 hb.1.2 hb'.1.1 hb'.1.2 hb.2 hb'.2

theorem pageFrame_eq_some {q f : Nat} (h : pageFrame pt q = some f) :
    sv39 pt (q * 4096) = some (0, q) ∧ PTE2PA (pt.ent 0 q) = f := by
  unfold pageFrame at h
  split at h
  · rename_i e hleaf
    obtain ⟨c, hc, he⟩ := leafAt_eq_some.mp hleaf
    obtain ⟨h₀, rfl⟩ := Prod.mk.inj he
    have hq := (sv39_path hc).1 h₀
    obtain ⟨l, i⟩ := c
    simp only at h₀ hq
    subst h₀ hq
    exact ⟨hc, Option.some.inj h⟩
  · cases h

theorem slotFrame_eq_some {q f : Nat} (h : slotFrame pt q = some f) :
    sv39 pt (q * 4096) = some (1, q / 512) ∧ q % 512 = 0 ∧
      PTE2PA (pt.ent 1 (q / 512)) = f := by
  unfold slotFrame at h
  split at h
  · rename_i e hleaf
    obtain ⟨c, hc, he⟩ := leafAt_eq_some.mp hleaf
    obtain ⟨h₁, rfl⟩ := Prod.mk.inj he
    have hq := (sv39_path hc).2 h₁
    obtain ⟨l, i⟩ := c
    simp only at h₁ hq
    subst h₁ hq
    rw [Option.ite_none_right_eq_some] at h
    exact ⟨hc, h.1, Option.some.inj h.2⟩
  · cases h

/-- **`uvmunmap` with `do_free`** of a fully mapped range. -/
theorem FullyMapped.uvmunmap {npages : Nat} (h : FullyMapped kend pt lo (lo + npages))
    (k : Kernel) :
    ∃ k' pt', uvmunmap kend k pt (lo * PGSIZE) npages true = .ok (k', pt') ∧
      Released k pt k' pt' lo (lo + npages) ∧ (pageFrames pt lo (lo + npages)).Nodup ∧
      (slotFrames pt lo (lo + npages)).Nodup := by
  obtain ⟨k', pt', hloop, hR⟩ := @uvmunmapLoop_released kend (lo + npages) npages k pt lo
    (fun q h₁ h₂ => h.backed h₁ h₂)
    (fun _ hs => h.start _ hs.leafAt_eq)
    (fun j h₁ h₂ hs => by
      by_contra hlt
      have hslot : (lo + npages) / 512 = j := by omega
      have := h.stop _ (SlotAt.leafAt_eq (by rw [hslot]; exact hs))
      omega)
    (Nat.le_refl _)
  refine ⟨k', pt', ?_, hR, ?_, ?_⟩
  · unfold Super.uvmunmap
    have hend : lo * PGSIZE + npages * PGSIZE = (lo + npages) * 4096 :=
      (Nat.add_mul lo npages 4096).symm
    rw [if_neg (not_not.mpr (Nat.mul_mod_left _ _)), hend]
    exact hloop
  · refine nodup_filterMap_Ico (fun q q' f h₁ h₂ h₁' h₂' hf hf' => ?_)
    obtain ⟨hc, hpa⟩ := pageFrame_eq_some hf
    obtain ⟨hc', hpa'⟩ := pageFrame_eq_some hf'
    have := h.distinct q q' _ _ h₁ h₂ h₁' h₂' hc hc' (hpa.trans hpa'.symm)
    exact (Prod.mk.inj this).2
  · refine nodup_filterMap_Ico (fun q q' f h₁ h₂ h₁' h₂' hf hf' => ?_)
    obtain ⟨hc, hm, hpa⟩ := slotFrame_eq_some hf
    obtain ⟨hc', hm', hpa'⟩ := slotFrame_eq_some hf'
    have := (Prod.mk.inj (h.distinct q q' _ _ h₁ h₂ h₁' h₂' hc hc' (hpa.trans hpa'.symm))).2
    omega

end Xv6Labs.Super
