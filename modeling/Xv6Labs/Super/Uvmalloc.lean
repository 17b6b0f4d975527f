import Xv6Labs.Super.Kalloc
import Xv6Labs.Super.Release
import Xv6Labs.Super.Rounds

/-!
# What `uvmalloc` allocates

On any page table whose touched regions have their level-1 tables, a round of
`uvmalloc` fills the pages of its chunk and leaves every other page looking the same
(`Filled`), and so does a run of rounds. When memory runs out, `uvmdealloc` takes
exactly those pages back.
-/

namespace Xv6Labs.Super

open Xv6Labs.Lib

/-- The 2 MB slot of page `q` lies wholly between page `N` and `newsz`. -/
def SlotInside (N newsz q : Nat) : Prop :=
  N ≤ q / 512 * 512 ∧ (q / 512 + 1) * 2097152 ≤ newsz

instance (N newsz q : Nat) : Decidable (SlotInside N newsz q) :=
  inferInstanceAs (Decidable (_ ∧ _))

structure ValidFree (kend : Nat) (k : Kernel) : Prop where
  free : ∀ f ∈ k.freelist, KallocFrame kend f
  superfree : ∀ f ∈ k.superfreelist, SuperkallocFrame kend f

/-- Distinct disjoint blocks on the free lists, all of them handed back to the right
allocator before. -/
structure FreeLists (kend : Nat) (k : Kernel) : Prop extends ValidFree kend k where
  apart : (blocks k.freelist k.superfreelist).Pairwise Block.apart

/-- What a growth from `s` to `t` does, and all it does; `ts` are the pages it took
for level-0 tables. -/
structure Filled (newsz : Nat) (xperm : Flags) (s t : Growth) (ts : List Nat) : Prop where
  le : s.page ≤ t.page
  quiet : ∀ q, ¬ (s.page ≤ q ∧ q < t.page) → Quiet s.pt t.pt q
  slots : ∀ j, t.page ≤ j * 512 → t.pt.ent 1 j = s.pt.ent 1 j
  vacant : ∀ q, s.page ≤ q → q < t.page → Vacant s.pt q
  pages : ∀ q, s.page ≤ q → q < t.page → ¬ SlotInside s.page newsz q → SmallAt t.pt q ∧
    (t.pt.ent 0 q).toFlags = { xperm with v := true, r := true, u := true }
  supers : ∀ q, s.page ≤ q → q < t.page → SlotInside s.page newsz q →
    SlotAt t.pt (q / 512) ∧ q / 512 * 512 + 512 ≤ t.page ∧
    (t.pt.ent 1 (q / 512)).toFlags =
      { xperm with v := true, r := true, u := true, s := true }
  tables : t.pt.tables = ts ++ s.pt.tables
  free : s.k.freelist.Perm (ts ++ pageFrames t.pt s.page t.page ++ t.k.freelist)
  superfree : s.k.superfreelist.Perm
    (slotFrames t.pt s.page t.page ++ t.k.superfreelist)
  mem : ∀ x, (∀ b ∈ blocks s.k.freelist s.k.superfreelist, ¬ b.has x) →
    t.k.mem x = s.k.mem x
  zero : (blocks s.k.freelist s.k.superfreelist).Pairwise Block.apart →
    (∀ f ∈ pageFrames t.pt s.page t.page, ∀ x, f ≤ x → x < f + PGSIZE → t.k.mem x = 0) ∧
    ∀ f ∈ slotFrames t.pt s.page t.page, ∀ x, f ≤ x → x < f + SUPERPGSIZE → t.k.mem x = 0

variable {kend newsz : Nat} {xperm : Flags} {k k' : Kernel} {pt pt' : PageTable}
  {s m t : Growth} {ts ts' : List Nat}

theorem frames_nil (pt : PageTable) (lo : Nat) :
    pageFrames pt lo lo = [] ∧ slotFrames pt lo lo = [] := by
  unfold pageFrames slotFrames
  rw [List.Ico.eq_nil_of_le (Nat.le_refl lo)]
  exact ⟨rfl, rfl⟩

theorem Filled.nothing (newsz : Nat) (xperm : Flags) (s : Growth) :
    Filled newsz xperm s s [] := by
  obtain ⟨hp, hs⟩ := frames_nil s.pt s.page
  refine ⟨Nat.le_refl _, fun q _ => .refl _ q, fun _ _ => rfl, fun q h₁ h₂ => by omega,
    fun q h₁ h₂ => by omega, fun q h₁ h₂ => by omega, rfl, ?_, ?_, fun _ _ => rfl,
    fun _ => ⟨?_, ?_⟩⟩
  · rw [hp]
    exact .refl _
  · rw [hs]
    exact .refl _
  · rw [hp]
    intro f hf
    cases hf
  · rw [hs]
    intro f hf
    cases hf

/-! ## One round -/

theorem Quiet.vacant {q : Nat} (h : Quiet pt pt' q) (hv : Vacant pt' q) : Vacant pt q := by
  refine ⟨hv.region.congr h.top.symm, ?_⟩
  rcases h.rest with ⟨h₁, h₀⟩ | ⟨hinv, -⟩
  · rw [← h₁, ← h₀]
    exact hv.empty
  · exact .inl hinv

theorem quiet_newTable {j r : Nat} (hinv : (pt.ent 1 j).v = false) (q : Nat) :
    Quiet pt (pt.newTable 1 j r { v := true }) q := by
  obtain ⟨e₂, e₁, e₁', e₀, e₀'⟩ := newTable_one_ent pt j r { v := true }
  refine ⟨e₂ _, ?_⟩
  by_cases hq : q / 512 = j
  · rw [hq, e₁, e₀ q hq]
    exact .inr ⟨hinv, rfl, rfl, rfl, rfl⟩
  · exact .inl ⟨e₁' _ hq, e₀' q hq⟩

theorem filled_small {P r : Nat} {pt₁ : PageTable} (hx : xperm.s = false)
    (hno : ¬ SlotInside P newsz P) (hr : r % 4096 = 0)
    (hquiet : ∀ q, Quiet pt pt₁ q)
    (hslots : ∀ j, j ≠ P / 512 → pt₁.ent 1 j = pt.ent 1 j)
    (hreg : Region pt₁ (P / 512 / 512)) (hv₁ : (pt₁.ent 1 (P / 512)).v = true)
    (hs₁ : (pt₁.ent 1 (P / 512)).s = false) (hl₁ : (pt₁.ent 1 (P / 512)).leaf = false)
    (hinv : (pt₁.ent 0 P).v = false) (htab : pt₁.tables = ts ++ pt.tables)
    (hfree : k.freelist = r :: ts ++ k'.freelist)
    (hsuper : k.superfreelist = k'.superfreelist)
    (hmem : ∀ x, (∀ f ∈ k.freelist, ¬ (f ≤ x ∧ x < f + PGSIZE)) → k'.mem x = k.mem x)
    (hzero : ∀ x, r ≤ x → x < r + PGSIZE → k'.mem x = 0) :
    Filled newsz xperm ⟨P, k, pt⟩ ⟨P + 1, k', pt₁.set 0 P (PA2PTE r
      { ({ xperm with r := true, u := true } : Flags) with v := true })⟩ ts := by
  have e₂ : ∀ e i, (pt₁.set 0 P e).ent 2 i = pt₁.ent 2 i := fun e i => by simp
  have e₁ : ∀ e j, (pt₁.set 0 P e).ent 1 j = pt₁.ent 1 j := fun e j => by simp
  generalize he : PA2PTE r { ({ xperm with r := true, u := true } : Flags) with v := true } = e
  have hpa : PTE2PA e = r := by
    rw [← he]
    exact PTE2PA_PA2PTE hr _
  have hat : SmallAt (pt₁.set 0 P e) P := by
    refine ⟨hreg.congr (e₂ e _), ?_, ?_, ?_, ?_, ?_, ?_⟩
    · rw [e₁]
      exact hv₁
    · rw [e₁]
      exact hs₁
    · rw [e₁]
      exact hl₁
    · rw [PageTable.set_ent_self, ← he]
      rfl
    · rw [PageTable.set_ent_self, ← he]
      exact hx
    · rw [PageTable.set_ent_self, ← he]
      rfl
  obtain ⟨hpf, hsf⟩ := hat.frames (Nat.lt_succ_self P)
  obtain ⟨hpn, hsn⟩ := frames_nil (pt₁.set 0 P e) (P + 1)
  rw [PageTable.set_ent_self, hpa, hpn] at hpf
  rw [hsn] at hsf
  have hself : ∀ q, P ≤ q → q < P + 1 → q = P := fun q h₁ h₂ => by omega
  refine ⟨Nat.le_succ P, fun q hq => (hquiet q).trans ⟨e₂ e _, .inl ⟨e₁ e _, ?_⟩⟩,
    fun j hj => ?_, fun q h₁ h₂ => ?_, fun q h₁ h₂ _ => ?_, fun q h₁ h₂ hin => ?_, htab, ?_,
    ?_, fun x hx => hmem x (fun f hf => hx _ (mem_blocks_small hf)), fun _ => ⟨?_, ?_⟩⟩
  · simp only at hq
    exact pt₁.set_ent_of_ne e (by omega)
  · simp only at hj
    show (pt₁.set 0 P e).ent 1 j = pt.ent 1 j
    rw [e₁]
    exact hslots j (by omega)
  · rw [hself q h₁ h₂]
    exact (hquiet P).vacant ⟨hreg, .inr ⟨hv₁, hs₁, hl₁, hinv⟩⟩
  · rw [hself q h₁ h₂]
    refine ⟨hat, ?_⟩
    rw [PageTable.set_ent_self, ← he]
    rfl
  · rw [hself q h₁ h₂] at hin
    exact absurd hin hno
  · show k.freelist.Perm (ts ++ pageFrames (pt₁.set 0 P e) P (P + 1) ++ k'.freelist)
    rw [hpf, hfree]
    exact (List.perm_append_singleton r ts).symm.append_right _
  · show k.superfreelist.Perm (slotFrames (pt₁.set 0 P e) P (P + 1) ++ k'.superfreelist)
    rw [hsf, hsuper]
    exact .refl _
  · show ∀ f ∈ pageFrames (pt₁.set 0 P e) P (P + 1), _
    rw [hpf]
    intro f hf x h₁ h₂
    rw [List.mem_singleton.mp hf] at h₁ h₂
    exact hzero x h₁ h₂
  · show ∀ f ∈ slotFrames (pt₁.set 0 P e) P (P + 1), _
    rw [hsf]
    intro f hf
    cases hf

theorem filled_super {j r : Nat} (hin : (j + 1) * 2097152 ≤ newsz) (hr : r % 4096 = 0)
    (hreg : Region pt (j / 512)) (hinv : (pt.ent 1 j).v = false)
    (hfree : k.freelist = k'.freelist) (hsuper : k.superfreelist = r :: k'.superfreelist)
    (hmem : ∀ x, (∀ f ∈ k.superfreelist, ¬ (f ≤ x ∧ x < f + SUPERPGSIZE)) →
      k'.mem x = k.mem x)
    (hzero : ∀ x, r ≤ x → x < r + SUPERPGSIZE → k'.mem x = 0) :
    Filled newsz xperm ⟨j * 512, k, pt⟩ ⟨j * 512 + 512, k', pt.set 1 j (PA2PTE r
      { ({ xperm with r := true, u := true } : Flags) with v := true, s := true })⟩ [] := by
  have e₂ : ∀ e i, (pt.set 1 j e).ent 2 i = pt.ent 2 i := fun e i => by simp
  have e₀ : ∀ e q, (pt.set 1 j e).ent 0 q = pt.ent 0 q := fun e q => by simp
  generalize he : PA2PTE r
    { ({ xperm with r := true, u := true } : Flags) with v := true, s := true } = e
  have hpa : PTE2PA e = r := by
    rw [← he]
    exact PTE2PA_PA2PTE hr _
  have hat : SlotAt (pt.set 1 j e) j := by
    refine ⟨hreg.congr (e₂ e _), ?_, ?_, ?_⟩
    all_goals
      rw [PageTable.set_ent_self, ← he]
      rfl
  obtain ⟨hpf, hsf⟩ := hat.frames (Nat.le_refl _)
  obtain ⟨hpn, hsn⟩ := frames_nil (pt.set 1 j e) (j * 512 + 512)
  rw [hpn] at hpf
  rw [PageTable.set_ent_self, hpa, hsn] at hsf
  have hself : ∀ q, j * 512 ≤ q → q < j * 512 + 512 → q / 512 = j := by
    intro q h₁ h₂
    by_contra hne
    exact absurd (lt_slot h₂ hne) (Nat.not_lt.mpr h₁)
  refine ⟨Nat.le_add_right _ _, fun q hq => ⟨e₂ e _, .inl ⟨?_, e₀ e _⟩⟩, fun j' hj' => ?_,
    fun q h₁ h₂ => ?_, fun q h₁ h₂ hno => ?_, fun q h₁ h₂ _ => ?_, rfl, ?_, ?_,
    fun x hx => hmem x (fun f hf => hx _ (mem_blocks_super hf)), fun _ => ⟨?_, ?_⟩⟩
  · exact pt.set_ent_of_ne e (fun hh => hq (mem_slot hh.2))
  · exact pt.set_ent_of_ne e (fun hh => absurd hh.2 (slot_lt hj').ne')
  · have hq := hself q h₁ h₂
    exact ⟨by rw [hq]; exact hreg, .inl (by rw [hq]; exact hinv)⟩
  · refine absurd ⟨?_, ?_⟩ hno
    · rw [hself q h₁ h₂]
    · rw [hself q h₁ h₂]
      exact hin
  · rw [hself q h₁ h₂]
    refine ⟨hat, Nat.le_refl _, ?_⟩
    show ((pt.set 1 j e).ent 1 j).toFlags = _
    rw [PageTable.set_ent_self, ← he]
    rfl
  · show k.freelist.Perm ([] ++ pageFrames (pt.set 1 j e) (j * 512) (j * 512 + 512) ++
      k'.freelist)
    rw [hpf, hfree]
    exact .refl _
  · show k.superfreelist.Perm (slotFrames (pt.set 1 j e) (j * 512) (j * 512 + 512) ++
      k'.superfreelist)
    rw [hsf, hsuper]
    exact .refl _
  · show ∀ f ∈ pageFrames (pt.set 1 j e) (j * 512) (j * 512 + 512), _
    rw [hpf]
    intro f hf
    cases hf
  · show ∀ f ∈ slotFrames (pt.set 1 j e) (j * 512) (j * 512 + 512), _
    rw [hsf]
    intro f hf x h₁ h₂
    rw [List.mem_singleton.mp hf] at h₁ h₂
    exact hzero x h₁ h₂

/-- **One round** in a region that has its level-1 table. -/
theorem Round.filled {c : PtePtr × Nat} (h : Round newsz xperm s c t)
    (hx : xperm.s = false) (hreg : Region s.pt (s.page / 512 / 512))
    (hfree : ValidFree kend s.k) : ∃ ts, Filled newsz xperm s t ts := by
  cases h with
  | @small P mem k k₁ k' pt pt' hlt hno hk hmap =>
      obtain ⟨hl, hsl, hm⟩ := kalloc_some hk
      simp only at hreg
      have hr : mem % 4096 = 0 :=
        (hfree.free mem (by show mem ∈ k.freelist; rw [hl]; exact List.mem_cons_self)).aligned
      have hin : ¬ SlotInside P newsz P := by
        unfold SlotInside
        omega
      rw [hreg.mappages] at hmap
      cases hv : (pt.ent 1 (P / 512)).v with
      | true =>
          -- the slot has its table
          rw [hv, if_pos rfl] at hmap
          split at hmap
          · cases hmap
          rename_i hclear
          simp only [Bool.or_eq_true, not_or, Bool.not_eq_true] at hclear
          obtain ⟨⟨hs, hleaf⟩, hinv⟩ := hclear
          simp only [Except.ok.injEq, Prod.mk.injEq, and_true] at hmap
          obtain ⟨rfl, rfl⟩ := hmap
          refine ⟨[], filled_small hx hin hr (fun q => .refl pt q) (fun _ _ => rfl) hreg hv hs
            hleaf hinv rfl hl hsl.symm (fun x hfar => ?_) (fun x h₁ h₂ => ?_)⟩
          · have hout := hfar mem (by rw [hl]; exact List.mem_cons_self)
            show k₁.mem.fill mem PGSIZE 0 x = k.mem x
            rw [Mem.fill_of_notMem hout, hm, Mem.fill_of_notMem hout]
          · exact Mem.fill_of_mem ⟨h₁, h₂⟩
      | false =>
          -- its table is taken next
          rw [hv, if_neg Bool.false_ne_true] at hmap
          split at hmap
          · simp at hmap
          rename_i r k₂ hk₂
          obtain ⟨hl₂, hsl₂, hm₂⟩ := kalloc_some hk₂
          simp only [Except.ok.injEq, Prod.mk.injEq, and_true] at hmap
          obtain ⟨rfl, rfl⟩ := hmap
          simp only at hl₂ hsl₂ hm₂
          obtain ⟨e₂, e₁, e₁', e₀, -⟩ := newTable_one_ent pt (P / 512) r { v := true }
          have hlist : k.freelist = mem :: [r] ++ k₂.freelist := by
            rw [hl, hl₂]
            rfl
          refine ⟨[r], filled_small hx hin hr (quiet_newTable hv) e₁' (hreg.congr (e₂ _))
            (by rw [e₁]; rfl) (by rw [e₁]; rfl) (by rw [e₁]; rfl) (by rw [e₀ _ rfl]; rfl) rfl
            hlist (hsl.symm.trans hsl₂.symm) (fun x hfar => ?_) (fun x h₁ h₂ => ?_)⟩
          · have hout := hfar mem (by rw [hl]; exact List.mem_cons_self)
            have hout' := hfar r (by rw [hlist]; simp)
            show k₂.mem.fill r PGSIZE 0 x = k.mem x
            rw [Mem.fill_of_notMem hout', hm₂, Mem.fill_of_notMem hout',
              Mem.fill_of_notMem hout, hm, Mem.fill_of_notMem hout]
          · show k₂.mem.fill r PGSIZE 0 x = 0
            by_cases hxr : r ≤ x ∧ x < r + PGSIZE
            · exact Mem.fill_of_mem hxr
            · rw [Mem.fill_of_notMem hxr, hm₂, Mem.fill_of_notMem hxr]
              exact Mem.fill_of_mem ⟨h₁, h₂⟩
  | @super P mem k k₁ k' pt pt' hal hbig hk hmap =>
      obtain ⟨hl, hfl, hm⟩ := superkalloc_some hk
      obtain ⟨j, rfl⟩ : ∃ j, P = j * 512 := ⟨P / 512, by omega⟩
      have hj : j * 512 / 512 = j := Nat.mul_div_cancel j (by decide)
      simp only [hj] at hreg ⊢
      have hr : mem % 4096 = 0 := by
        have := (hfree.superfree mem (by
          show mem ∈ k.superfreelist
          rw [hl]
          exact List.mem_cons_self)).aligned
        simp only [SUPERPGSIZE] at this
        omega
      have hin : (j + 1) * 2097152 ≤ newsz := by omega
      rw [hreg.supermappages] at hmap
      split at hmap
      · cases hmap
      rename_i hinv
      rw [Bool.not_eq_true] at hinv
      simp only [Except.ok.injEq, Prod.mk.injEq, and_true] at hmap
      obtain ⟨rfl, rfl⟩ := hmap
      refine ⟨[], filled_super hin hr hreg hinv hfl.symm hl (fun x hfar => ?_)
        (fun x h₁ h₂ => ?_)⟩
      · have hout := hfar mem (by rw [hl]; exact List.mem_cons_self)
        show k₁.mem.fill mem SUPERPGSIZE 0 x = k.mem x
        rw [Mem.fill_of_notMem hout, hm, Mem.fill_of_notMem hout]
      · exact Mem.fill_of_mem ⟨h₁, h₂⟩

/-! ## A run of rounds -/

theorem SmallAt.quiet {q : Nat} (h : SmallAt pt q) (hq : Quiet pt pt' q) :
    SmallAt pt' q ∧ pt'.ent 0 q = pt.ent 0 q := by
  rcases hq.rest with ⟨h₁, h₀⟩ | ⟨hinv, -⟩
  · exact ⟨h.congr hq.top h₁ h₀, h₀⟩
  · rw [h.v₁] at hinv
    cases hinv

theorem SlotAt.quiet {q : Nat} (h : SlotAt pt (q / 512)) (hq : Quiet pt pt' q) :
    SlotAt pt' (q / 512) ∧ pt'.ent 1 (q / 512) = pt.ent 1 (q / 512) := by
  rcases hq.rest with ⟨h₁, -⟩ | ⟨hinv, -⟩
  · exact ⟨h.congr hq.top h₁, h₁⟩
  · rw [h.v] at hinv
    cases hinv

theorem ValidFree.filled (h : ValidFree kend s.k) (hF : Filled newsz xperm s m ts) :
    ValidFree kend m.k :=
  ⟨fun f hf => h.free f (hF.free.mem_iff.mpr (List.mem_append_right _ hf)),
    fun f hf => h.superfree f (hF.superfree.mem_iff.mpr (List.mem_append_right _ hf))⟩

theorem Filled.blocks (h : Filled newsz xperm s m ts) :
    (blocks s.k.freelist s.k.superfreelist).Perm
      (blocks (ts ++ pageFrames m.pt s.page m.page) (slotFrames m.pt s.page m.page) ++
        blocks m.k.freelist m.k.superfreelist) :=
  (blocks_perm h.free h.superfree).trans (Alloc.blocks_append ..)

theorem Filled.trans (h : Filled newsz xperm s m ts) (h' : Filled newsz xperm m t ts')
    (hsame : ∀ q, m.page ≤ q → (SlotInside s.page newsz q ↔ SlotInside m.page newsz q)) :
    Filled newsz xperm s t (ts' ++ ts) := by
  have hle := h.le
  have hle' := h'.le
  have hquiet : ∀ q, q < m.page → Quiet m.pt t.pt q := fun q hq => h'.quiet q (by omega)
  have hpf : pageFrames t.pt s.page t.page =
      pageFrames m.pt s.page m.page ++ pageFrames t.pt m.page t.page := by
    rw [← pageFrames_congr (fun q _ hq => (hquiet q hq).leafAt_eq)]
    exact filterMap_Ico_split _ hle hle'
  have hsf : slotFrames t.pt s.page t.page =
      slotFrames m.pt s.page m.page ++ slotFrames t.pt m.page t.page := by
    rw [← slotFrames_congr (fun q _ hq => (hquiet q hq).leafAt_eq)]
    exact filterMap_Ico_split _ hle hle'
  refine ⟨by omega, fun q hq => (h.quiet q (by omega)).trans (h'.quiet q (by omega)),
    fun j hj => (h'.slots j hj).trans (h.slots j (by omega)), fun q h₁ h₂ => ?_,
    fun q h₁ h₂ hno => ?_, fun q h₁ h₂ hin => ?_, ?_, ?_, ?_, fun x hx => ?_,
    fun hap => ?_⟩
  · by_cases hq : q < m.page
    · exact h.vacant q h₁ hq
    · exact (h.quiet q (by omega)).vacant (h'.vacant q (by omega) h₂)
  · by_cases hq : q < m.page
    · obtain ⟨hat, hflags⟩ := h.pages q h₁ hq hno
      obtain ⟨hat', he⟩ := hat.quiet (hquiet q hq)
      exact ⟨hat', by rw [he]; exact hflags⟩
    · exact h'.pages q (by omega) h₂ (fun hh => hno ((hsame q (by omega)).mpr hh))
  · by_cases hq : q < m.page
    · obtain ⟨hat, hwhole, hflags⟩ := h.supers q h₁ hq hin
      obtain ⟨hat', he⟩ := hat.quiet (hquiet q hq)
      exact ⟨hat', Nat.le_trans hwhole hle', by rw [he]; exact hflags⟩
    · exact h'.supers q (by omega) h₂ ((hsame q (by omega)).mp hin)
  · rw [h'.tables, h.tables, List.append_assoc]
  · rw [hpf]
    refine h.free.trans ((h'.free.append_left _).trans ?_)
    rw [List.append_assoc ts' _ t.k.freelist]
    refine (List.perm_append_comm_assoc _ ts' _).trans ?_
    simp only [List.append_assoc]
    exact .refl _
  · rw [hsf]
    refine h.superfree.trans ?_
    rw [List.append_assoc]
    exact h'.superfree.append_left _
  · rw [h'.mem x (fun b hb => hx b (h.blocks.mem_iff.mpr (List.mem_append_right _ hb)))]
    exact h.mem x hx
  · have hparts := List.pairwise_append.mp ((h.blocks.pairwise_iff Block.apart.symm).mp hap)
    obtain ⟨-, hrest, hacross⟩ := hparts
    obtain ⟨hz₁, hz₂⟩ := h.zero hap
    obtain ⟨hz₁', hz₂'⟩ := h'.zero hrest
    -- the frames taken first lie apart from what is taken later
    have hkeep : ∀ b x, b ∈ Super.blocks (ts ++ pageFrames m.pt s.page m.page)
        (slotFrames m.pt s.page m.page) → Block.has b x → t.k.mem x = m.k.mem x :=
      fun b x hb hx => h'.mem x (fun b' hb' => (hacross b hb b' hb').notMem hx)
    rw [hpf, hsf]
    refine ⟨fun f hf x h₁ h₂ => ?_, fun f hf x h₁ h₂ => ?_⟩
    · rcases List.mem_append.mp hf with hf | hf
      · rw [hkeep (f, PGSIZE) x (mem_blocks_small (List.mem_append_right _ hf)) ⟨h₁, h₂⟩]
        exact hz₁ f hf x h₁ h₂
      · exact hz₁' f hf x h₁ h₂
    · rcases List.mem_append.mp hf with hf | hf
      · rw [hkeep (f, SUPERPGSIZE) x (mem_blocks_super hf) ⟨h₁, h₂⟩]
        exact hz₂ f hf x h₁ h₂
      · exact hz₂' f hf x h₁ h₂

theorem Round.slotInside {c : PtePtr × Nat} (h : Round newsz xperm s c t) {q : Nat}
    (hq : t.page ≤ q) : SlotInside s.page newsz q ↔ SlotInside t.page newsz q := by
  cases h with
  | @small P _ _ _ _ _ _ hlt hno _ _ =>
      have hq' : P + 1 ≤ q := hq
      unfold SlotInside
      simp only
      omega
  | @super P _ _ _ _ _ _ hal hbig _ _ =>
      have hq' : P + 512 ≤ q := hq
      unfold SlotInside
      simp only
      omega

theorem Round.page_lt {c : PtePtr × Nat} (h : Round newsz xperm s c t) :
    s.page < pages newsz := by
  cases h with
  | small hlt hno hk hmap => exact lt_pages.mpr hlt
  | super hal hbig hk hmap => exact lt_pages.mpr (by simp only; omega)

/-- **A run of rounds.** -/
theorem Round.run_filled {cs : List (PtePtr × Nat)} (h : Run (Round newsz xperm) s cs t)
    (hx : xperm.s = false) :
    (∀ q, s.page ≤ q → q < pages newsz → Region s.pt (q / 512 / 512)) →
    ValidFree kend s.k → ∃ ts, Filled newsz xperm s t ts := by
  induction h with
  | nil s => exact fun _ _ => ⟨[], .nothing newsz xperm s⟩
  | cons hround _ ih =>
      intro hreg hfree
      obtain ⟨ts, hF⟩ := hround.filled hx (hreg _ (Nat.le_refl _) hround.page_lt) hfree
      obtain ⟨ts', hF'⟩ := ih (fun q h₁ h₂ => by
        have := hF.le
        exact (hreg q (by omega) h₂).congr (hF.quiet q (by omega)).top) (hfree.filled hF)
      exact ⟨ts' ++ ts, hF.trans hF' (fun q hq => hround.slotInside hq)⟩

/-! ## The rollback -/

theorem Filled.unmap (h : Filled newsz xperm s t ts) (hfree : ValidFree kend s.k)
    (k₁ : Kernel) :
    ∃ k' pt', uvmunmapLoop kend k₁ t.pt (s.page * 4096) (t.page * 4096) true
        (t.page - s.page) = .ok (k', pt') ∧ Released k₁ t.pt k' pt' s.page t.page := by
  have hle := h.le
  -- a superpage that starts in the range is one of the growth
  have hslot : ∀ q, s.page ≤ q → q < t.page → SlotAt t.pt (q / 512) →
      SlotInside s.page newsz q := fun q h₁ h₂ hs => by
    by_contra hno
    exact (h.pages q h₁ h₂ hno).1.not_slot hs
  refine uvmunmapLoop_released _ _ (fun q h₁ h₂ => ?_) (fun hlt hs => ?_)
    (fun j h₁ h₂ hs => ?_) (by omega)
  · by_cases hin : SlotInside s.page newsz q
    · obtain ⟨hat, hwhole, -⟩ := h.supers q h₁ h₂ hin
      refine .inr ⟨hat, hfree.superfree _ (h.superfree.mem_iff.mpr
        (List.mem_append_left _ (hat.mem_frames hin.1 ?_)))⟩
      omega
    · obtain ⟨hat, -⟩ := h.pages q h₁ h₂ hin
      exact .inl ⟨hat, hfree.free _ (h.free.mem_iff.mpr (List.mem_append_left _
        (List.mem_append_right _ (hat.mem_frames h₁ h₂))))⟩
  · have := (hslot s.page (Nat.le_refl _) hlt hs).1
    omega
  · have hj : j * 512 / 512 = j := Nat.mul_div_cancel j (by decide)
    have hin := hslot (j * 512) h₁ h₂ (by rw [hj]; exact hs)
    have := (h.supers (j * 512) h₁ h₂ hin).2.1
    rwa [hj] at this

/-- **The pages a growth filled are taken back**: what is left of it are its level-0
tables, empty. -/
theorem Filled.rollback (h : Filled newsz xperm s t ts) (hfree : ValidFree kend s.k)
    {k₁ : Kernel} (hl : k₁.freelist = t.k.freelist)
    (hsl : k₁.superfreelist = t.k.superfreelist) {a b : Nat} (hle : b ≤ a)
    (ha : PGROUNDUP a = t.page * 4096) (hb : PGROUNDUP b = s.page * 4096) :
    ∃ k' pt', uvmdealloc kend k₁ t.pt a b = .ok (k', pt', b) ∧
      (∀ q, leafAt pt' q = leafAt s.pt q) ∧ pt'.tables = ts ++ s.pt.tables ∧
      s.k.freelist.Perm (ts ++ k'.freelist) ∧ s.k.superfreelist.Perm k'.superfreelist := by
  obtain ⟨k', pt', hloop, hR⟩ := h.unmap hfree k₁
  have hleaf : ∀ q, leafAt pt' q = leafAt s.pt q := by
    intro q
    rw [hR.leaf]
    by_cases hq : s.page ≤ q ∧ q < t.page
    · rw [if_pos hq, (h.vacant q hq.1 hq.2).leafAt_eq]
    · rw [if_neg hq, (h.quiet q hq).leafAt_eq]
  have hperm : s.k.freelist.Perm (ts ++ k'.freelist) := by
    rw [hR.freelist, hl]
    refine h.free.trans ?_
    rw [List.append_assoc]
    exact ((List.reverse_perm _).symm.append_right _).append_left _
  have hsuper : s.k.superfreelist.Perm k'.superfreelist := by
    rw [hR.superfreelist, hsl]
    exact h.superfree.trans ((List.reverse_perm _).symm.append_right _)
  have htab : pt'.tables = ts ++ s.pt.tables := hR.tables.trans h.tables
  unfold uvmdealloc
  rw [ha, hb]
  by_cases heq : a ≤ b
  · obtain rfl : a = b := Nat.le_antisymm heq hle
    have hpage : s.page = t.page := by omega
    rw [if_pos (Nat.le_refl _)]
    rw [hpage, uvmunmapLoop_of_le _ _ _ (Nat.le_refl _), Except.ok.injEq,
      Prod.mk.injEq] at hloop
    obtain ⟨rfl, rfl⟩ := hloop
    exact ⟨k₁, t.pt, rfl, hleaf, htab, hperm, hsuper⟩
  · refine ⟨k', pt', ?_, hleaf, htab, hperm, hsuper⟩
    rw [if_neg heq]
    by_cases hlt : s.page * 4096 < t.page * 4096
    · have hcount : (t.page * 4096 - s.page * 4096) / PGSIZE = t.page - s.page := by
        simp only [PGSIZE]
        omega
      have hend : s.page * 4096 + (t.page - s.page) * PGSIZE = t.page * 4096 := by
        simp only [PGSIZE]
        omega
      rw [if_pos hlt, hcount]
      unfold uvmunmap
      rw [if_neg (by simp only [PGSIZE]; omega), hend, hloop]
    · rw [if_neg hlt]
      rw [uvmunmapLoop_of_le _ _ _ (Nat.not_lt.mp hlt), Except.ok.injEq,
        Prod.mk.injEq] at hloop
      obtain ⟨rfl, rfl⟩ := hloop
      rfl

/-! ## The calls -/

theorem Round.page_le {c : PtePtr × Nat} (h : Round newsz xperm s c t) :
    t.page ≤ pages newsz := by
  cases h with
  | small hlt hno hk hmap => exact lt_pages.mpr hlt
  | @super P _ _ _ _ _ _ hal hbig hk hmap =>
      show P + 512 ≤ pages newsz
      unfold pages
      omega

theorem Round.page_succ {c : PtePtr × Nat} (h : Round newsz xperm s c t) :
    s.page + 1 ≤ t.page := by
  cases h with
  | small hlt hno hk hmap => exact Nat.le_refl _
  | @super P _ _ _ _ _ _ hal hbig hk hmap =>
      show P + 1 ≤ P + 512
      omega

/-- **A `uvmalloc` that returned `newsz`** is a run of rounds up to the last page. -/
theorem uvmalloc_run {oldsz : Nat} (hle : oldsz ≤ newsz)
    (hok : uvmalloc kend k pt oldsz newsz xperm = .ok (k', pt', newsz)) :
    ∃ cs, Run (Round newsz xperm) ⟨pages oldsz, k, pt⟩ cs ⟨pages newsz, k', pt'⟩ := by
  have hpages : pages oldsz ≤ pages newsz := by
    unfold pages
    omega
  have hfuel : pages newsz ≤ pages oldsz + (PGROUNDUP newsz - PGROUNDUP oldsz) / PGSIZE := by
    simp only [PGROUNDUP_eq, PGSIZE]
    omega
  unfold uvmalloc at hok
  rw [if_neg (Nat.not_lt.mpr hle), uvmallocLoop_eq _ _ _ _ _ _ _ _ {}] at hok
  split at hok
  · cases hok
  rename_i k₁ pt₁ help hloop
  simp only [Except.ok.injEq, Prod.mk.injEq] at hok
  obtain ⟨rfl, rfl, hret⟩ := hok
  have hstate : help.state = true := by
    by_contra hne
    rw [if_neg hne] at hret
    subst hret
    rw [sbrksuperuvmallocLoop_zero] at hloop
    simp only [Except.ok.injEq, Prod.mk.injEq] at hloop
    rw [← hloop.2.2] at hne
    exact hne rfl
  rw [PGROUNDUP_eq oldsz] at hloop
  obtain ⟨cs, P', hrun, hend, -⟩ := sbrksuperuvmallocLoop_run _ hfuel hloop hstate
  have hP' : P' ≤ pages newsz := Run.invariant (I := fun g => g.page ≤ pages newsz)
    (fun _ _ _ _ hround => hround.page_le) hrun hpages
  have hlast : P' = pages newsz := by
    have := mt lt_pages.mp (Nat.not_lt.mpr hend)
    omega
  rw [hlast] at hrun
  exact ⟨cs, hrun⟩

/-- **`uvmunmap` returns each frame to its own allocator exactly once.** First, a fully
mapped range: no panic, its leaves and no other entry are cleared, and the frames go,
one for each page or superpage and none twice, onto the list of their kind. Then,
`uvmdealloc` after a successful `uvmalloc`: the leaves are as before, and so are the
free lists but for the pages `ts` of the new level-0 tables. -/
theorem uvmunmap_frees_each_once (kend : Nat) (k : Kernel) (pt : PageTable) :
    (∀ lo npages, FullyMapped kend pt lo (lo + npages) →
      ∃ k' pt', uvmunmap kend k pt (lo * PGSIZE) npages true = .ok (k', pt') ∧
        Released k pt k' pt' lo (lo + npages) ∧ (pageFrames pt lo (lo + npages)).Nodup ∧
        (slotFrames pt lo (lo + npages)).Nodup) ∧
    ∀ oldsz newsz xperm k₁ pt₁, oldsz ≤ newsz → xperm.s = false →
      (∀ q, pages oldsz ≤ q → q < pages newsz → Region pt (q / 512 / 512)) →
      ValidFree kend k → uvmalloc kend k pt oldsz newsz xperm = .ok (k₁, pt₁, newsz) →
      ∃ k₂ pt₂ ts, uvmdealloc kend k₁ pt₁ newsz oldsz = .ok (k₂, pt₂, oldsz) ∧
        (∀ q, leafAt pt₂ q = leafAt pt q) ∧ pt₂.tables = ts ++ pt.tables ∧
        k.freelist.Perm (ts ++ k₂.freelist) ∧ k.superfreelist.Perm k₂.superfreelist := by
  refine ⟨fun lo npages h => h.uvmunmap k, ?_⟩
  intro oldsz newsz xperm k₁ pt₁ hle hx hreg hfree hok
  obtain ⟨cs, hrun⟩ := uvmalloc_run hle hok
  obtain ⟨ts, hF⟩ := Round.run_filled hrun hx hreg hfree
  obtain ⟨k₂, pt₂, hdealloc, hrest⟩ := hF.rollback hfree rfl rfl hle (PGROUNDUP_eq newsz)
    (PGROUNDUP_eq oldsz)
  exact ⟨k₂, pt₂, ts, hdealloc, hrest⟩

def oneRegion : PageTable := (PageTable.empty 4096).newTable 2 0 8192 { v := true }

/-- `oneRegion` with a superpage at 0 and the page behind it. -/
def mixedPages : PageTable :=
  ((oneRegion.set 1 0 (PA2PTE 2097152 { v := true, r := true, u := true, s := true })).newTable
    1 1 12288 { v := true }).set 0 512 (PA2PTE 16384 { v := true, r := true, u := true })

def mixedFrames : Kernel := ⟨[12288, 16384], [2097152], fun _ => 0⟩

theorem mixedFrames_free : FreeLists 0 mixedFrames := by
  refine ⟨⟨fun f hf => ?_, fun f hf => ?_⟩, ?_⟩
  · simp only [mixedFrames, List.mem_cons, List.not_mem_nil, or_false] at hf
    rcases hf with rfl | rfl
    all_goals exact ⟨by decide, by decide, by decide⟩
  · obtain rfl := List.mem_singleton.mp hf
    exact ⟨by decide, by decide, by decide⟩
  · simp [mixedFrames, blocks, Block.apart, PGSIZE, SUPERPGSIZE]

theorem oneRegion_region {q : Nat} (hq : q < 513) : Region oneRegion (q / 512 / 512) := by
  have hzero : q / 512 / 512 = 0 := by omega
  rw [hzero]
  refine ⟨?_, rfl, rfl, rfl⟩
  rw [entries_two]
  decide

theorem oneRegion_slot (j : Nat) : (oneRegion.ent 1 j).v = false := by
  simp [oneRegion, PageTable.newTable, PageTable.empty, Pte.zero]

theorem mixedPages_sv39 {q : Nat} (hq : q < 513) :
    sv39 mixedPages (q * 4096) = some (if q < 512 then (1, 0) else (0, 512)) := by
  have hzero : q / 512 / 512 = 0 := by omega
  rw [sv39_page, hzero]
  by_cases hlt : q < 512
  · have hslot : q / 512 = 0 := by omega
    rw [hslot, if_pos hlt]
    rfl
  · obtain rfl : q = 512 := by omega
    rfl

theorem mixedPages_fullyMapped : FullyMapped 0 mixedPages 0 513 := by
  refine ⟨fun c _ hv hs => ?_, by rw [entries_zero]; decide, fun q _ hq => ?_,
    fun e _ => rfl, fun e he => (by cases he), fun q q' c c' _ hq _ hq' hc hc' heq => ?_⟩
  · -- the superpage is the one entry with the mark
    unfold mixedPages oneRegion PageTable.set PageTable.newTable PageTable.empty at hs ⊢
    simp only at hs ⊢
    split_ifs at hs ⊢ with h₁ h₂ h₃ h₄
    all_goals try cases hs
    exact ⟨h₄.1, by decide⟩
  · have hleaf := mixedPages_sv39 hq
    unfold leafAt
    rw [hleaf]
    by_cases hlt : q < 512
    · rw [if_pos hlt]
      exact .inr ⟨_, rfl, rfl, by decide, by decide, by decide⟩
    · rw [if_neg hlt]
      exact .inl ⟨_, rfl, by decide, by decide, by decide⟩
  · rw [mixedPages_sv39 hq] at hc
    rw [mixedPages_sv39 hq'] at hc'
    obtain rfl := Option.some.inj hc
    obtain rfl := Option.some.inj hc'
    split_ifs at heq ⊢
    · rfl
    · revert heq
      decide
    · revert heq
      decide
    · rfl

/-- A superpage and a page: unmapped, and allocated and taken back. -/
theorem uvmunmap_frees_each_once_mixed :
    (∃ k' pt', uvmunmap 0 ⟨[], [], fun _ => 0⟩ mixedPages (0 * PGSIZE) 513 true = .ok (k', pt') ∧
      Released ⟨[], [], fun _ => 0⟩ mixedPages k' pt' 0 513) ∧
    ∃ k₁ pt₁ k₂ pt₂ ts,
      uvmalloc 0 mixedFrames oneRegion 0 2101248 { w := true } =
        .ok (k₁, pt₁, 2101248) ∧
      uvmdealloc 0 k₁ pt₁ 2101248 0 = .ok (k₂, pt₂, 0) ∧
      (∀ q, leafAt pt₂ q = leafAt oneRegion q) ∧
      mixedFrames.freelist.Perm (ts ++ k₂.freelist) ∧
      mixedFrames.superfreelist.Perm k₂.superfreelist := by
  refine ⟨?_, ?_⟩
  · obtain ⟨k', pt', hok, hR, -⟩ := (uvmunmap_frees_each_once 0 ⟨[], [], fun _ => 0⟩
      mixedPages).1 0 513 mixedPages_fullyMapped
    exact ⟨k', pt', hok, hR⟩
  · obtain ⟨⟨k₁, pt₁, ret⟩, hok⟩ : ∃ res, uvmalloc 0 mixedFrames
        oneRegion 0 2101248 { w := true } = .ok res := ⟨_, rfl⟩
    have hret : ret = 2101248 := by
      have hsize : (uvmalloc 0 mixedFrames oneRegion 0 2101248
          { w := true }).map (fun res => res.2.2) = .ok 2101248 := rfl
      rw [hok] at hsize
      exact Except.ok.inj hsize
    rw [hret] at hok
    obtain ⟨k₂, pt₂, ts, hdealloc, hleaf, -, hperm, hsuper⟩ := (uvmunmap_frees_each_once 0
      mixedFrames oneRegion).2 0 2101248 { w := true } k₁ pt₁ (by decide)
      rfl (fun q _ hq => oneRegion_region hq) mixedFrames_free.toValidFree hok
    exact ⟨k₁, pt₁, k₂, pt₂, ts, hok, hdealloc, hleaf, hperm, hsuper⟩

/-- Nothing is mapped from page `P` to `newsz`, and the slots that get a superpage have
no level-0 table either. -/
structure Untouched (pt : PageTable) (P newsz : Nat) : Prop where
  vacant : ∀ q, P ≤ q → q < pages newsz → Vacant pt q
  slots : ∀ j, P ≤ j * 512 → (j + 1) * 2097152 ≤ newsz → (pt.ent 1 j).v = false

theorem Untouched.filled (h : Untouched s.pt s.page newsz) (hF : Filled newsz xperm s t ts) :
    Untouched t.pt t.page newsz := by
  have hle := hF.le
  refine ⟨fun q h₁ h₂ => (h.vacant q (by omega) h₂).quiet (hF.quiet q (by omega)),
    fun j h₁ h₂ => ?_⟩
  rw [hF.slots j h₁]
  exact h.slots j (by omega) h₂

/-- **A round over fresh pages** maps its chunk, or memory has run out and nothing has
been taken. -/
theorem Untouched.round {P : Nat} (h : Untouched pt P newsz) (hfree : ValidFree kend k)
    (hlt : P * 4096 < newsz) (xperm : Flags) (oldsz n : Nat) :
    (∃ c t, Round newsz xperm ⟨P, k, pt⟩ c t ∧
      uvmallocLoop kend k pt oldsz (P * 4096) newsz xperm (n + 1) =
        uvmallocLoop kend t.k t.pt oldsz (t.page * 4096) newsz xperm n) ∨
    ∃ k₁, k₁.freelist = k.freelist ∧ k₁.superfreelist = k.superfreelist ∧
      uvmallocLoop kend k pt oldsz (P * 4096) newsz xperm (n + 1) =
        match uvmdealloc kend k₁ pt (P * 4096) oldsz with
        | .error e => .error e
        | .ok (k, pt, _) => .ok (k, pt, 0) := by
  have hvac := h.vacant P (Nat.le_refl _) (lt_pages.mpr hlt)
  rw [uvmallocLoop, if_pos hlt]
  by_cases hbig : P % 512 = 0 ∧ 2097152 ≤ newsz - P * 4096
  · have hcode : P * 4096 % SUPERPGSIZE = 0 ∧ newsz - P * 4096 ≥ SUPERPGSIZE := by
      simp only [SUPERPGSIZE]
      omega
    rw [if_pos hcode]
    have hnext : P * 4096 + SUPERPGSIZE = (P + 512) * 4096 := by
      rw [Nat.add_mul]
      rfl
    rcases hk : superkalloc k with ⟨_ | mem, k₁⟩
    · obtain ⟨rfl, -⟩ := superkalloc_none hk
      exact .inr ⟨k₁, rfl, rfl, rfl⟩
    · obtain ⟨j, rfl⟩ : ∃ j, P = j * 512 := ⟨P / 512, by omega⟩
      have hj : j * 512 / 512 = j := Nat.mul_div_cancel j (by decide)
      have hreg := hvac.region
      rw [hj] at hreg
      have hinv := h.slots j (Nat.le_refl _) (by omega)
      have hmap := hreg.supermappages { k₁ with mem := k₁.mem.fill mem SUPERPGSIZE 0 } mem
        { xperm with r := true, u := true }
      rw [hinv, if_neg Bool.false_ne_true] at hmap
      refine .inl ⟨_, _, .super hbig.1 hbig.2 hk hmap, ?_⟩
      simp only [hmap, ne_eq, not_true_eq_false, if_false, hnext]
  · have hcode : ¬ (P * 4096 % SUPERPGSIZE = 0 ∧ newsz - P * 4096 ≥ SUPERPGSIZE) := by
      simp only [SUPERPGSIZE]
      omega
    rw [if_neg hcode]
    have hnext : P * 4096 + PGSIZE = (P + 1) * 4096 := (Nat.succ_mul P 4096).symm
    rcases hk : kalloc k with ⟨_ | mem, k₁⟩
    · obtain ⟨rfl, -⟩ := kalloc_none hk
      exact .inr ⟨k₁, rfl, rfl, rfl⟩
    · obtain ⟨hl, hsl, -⟩ := kalloc_some hk
      have hmap := hvac.region.mappages { k₁ with mem := k₁.mem.fill mem PGSIZE 0 } mem
        { xperm with r := true, u := true }
      rcases hvac.empty with hinv | ⟨hv, hs, hleaf, hinv⟩
      · -- the level-0 table is missing
        rw [hinv, if_neg Bool.false_ne_true] at hmap
        rcases hk₂ : kalloc { k₁ with mem := k₁.mem.fill mem PGSIZE 0 } with ⟨_ | r, k₂⟩
        · obtain ⟨rfl, -⟩ := kalloc_none hk₂
          rw [hk₂] at hmap
          have hback := (hfree.free mem (by rw [hl]; exact List.mem_cons_self)).kfree
            { k₁ with mem := k₁.mem.fill mem PGSIZE 0 }
          refine .inr ⟨⟨mem :: k₁.freelist, k₁.superfreelist,
            (k₁.mem.fill mem PGSIZE 0).fill mem PGSIZE 1⟩, hl.symm, hsl, ?_⟩
          simp only [hmap, hback]
          rfl
        · rw [hk₂] at hmap
          refine .inl ⟨_, _, .small hlt hbig hk hmap, ?_⟩
          simp only [hmap, ne_eq, not_true_eq_false, if_false, hnext]
      · rw [hv, hs, hleaf, hinv, if_pos rfl, if_neg (by simp)] at hmap
        refine .inl ⟨_, _, .small hlt hbig hk hmap, ?_⟩
        simp only [hmap, ne_eq, not_true_eq_false, if_false, hnext]

/-- **The loop over fresh pages**: it runs through, or memory runs out at some page and
the pages before it are unmapped. -/
theorem Untouched.run (hx : xperm.s = false) (oldsz n : Nat) : ∀ {s : Growth},
    Untouched s.pt s.page newsz → ValidFree kend s.k → s.page ≤ pages newsz →
    pages newsz ≤ s.page + n →
    ∃ cs t, Run (Round newsz xperm) s cs t ∧ t.page ≤ pages newsz ∧
      ((t.page = pages newsz ∧
          uvmallocLoop kend s.k s.pt oldsz (s.page * 4096) newsz xperm n =
            .ok (t.k, t.pt, newsz)) ∨
        ∃ k₁, k₁.freelist = t.k.freelist ∧ k₁.superfreelist = t.k.superfreelist ∧
          uvmallocLoop kend s.k s.pt oldsz (s.page * 4096) newsz xperm n =
            match uvmdealloc kend k₁ t.pt (t.page * 4096) oldsz with
            | .error e => .error e
            | .ok (k, pt, _) => .ok (k, pt, 0)) := by
  induction n with
  | zero =>
      intro s _ _ hpage hfuel
      exact ⟨[], s, .nil s, hpage, .inl ⟨by omega, rfl⟩⟩
  | succ n ih =>
      intro s h hfree hpage hfuel
      by_cases hlt : s.page * 4096 < newsz
      swap
      · have hlast := mt lt_pages.mp hlt
        refine ⟨[], s, .nil s, hpage, .inl ⟨by omega, ?_⟩⟩
        rw [uvmallocLoop, if_neg hlt]
      rcases h.round hfree hlt xperm oldsz n with ⟨c, m, hround, hloop⟩ | ⟨k₁, hl, hsl, hloop⟩
      · have hreg := (h.vacant s.page (Nat.le_refl _) hround.page_lt).region
        obtain ⟨ts, hF⟩ := hround.filled hx hreg hfree
        have hstep : s.page + 1 ≤ m.page := hround.page_succ
        obtain ⟨cs, t, hrun, hpage', hres⟩ := ih (h.filled hF) (hfree.filled hF) hround.page_le
          (by omega)
        refine ⟨c :: cs, t, .cons hround hrun, hpage', ?_⟩
        rw [hloop]
        exact hres
      · exact ⟨[], s, .nil s, hpage, .inr ⟨k₁, hl, hsl, hloop⟩⟩

/-- What a successful `uvmalloc` from page `N` to `newsz` leaves; `ts` are the pages it
took for level-0 tables. -/
structure Allocated (newsz : Nat) (xperm : Flags) (N : Nat) (k : Kernel) (pt : PageTable)
    (k' : Kernel) (pt' : PageTable) (ts : List Nat) : Prop where
  outside : ∀ q, ¬ (N ≤ q ∧ q < pages newsz) → leafAt pt' q = leafAt pt q
  small : ∀ q, N ≤ q → q < pages newsz → ¬ SlotInside N newsz q →
    ∃ e, leafAt pt' q = some (0, e) ∧
      e.toFlags = { xperm with v := true, r := true, u := true }
  super : ∀ q, N ≤ q → q < pages newsz → SlotInside N newsz q →
    ∃ e, leafAt pt' q = some (1, e) ∧
      e.toFlags = { xperm with v := true, r := true, u := true, s := true }
  tables : pt'.tables = ts ++ pt.tables
  free : k.freelist.Perm (ts ++ pageFrames pt' N (pages newsz) ++ k'.freelist)
  superfree : k.superfreelist.Perm
    (slotFrames pt' N (pages newsz) ++ k'.superfreelist)
  distinct : (pageFrames pt' N (pages newsz)).Nodup ∧
    (slotFrames pt' N (pages newsz)).Nodup
  zero : (∀ f ∈ pageFrames pt' N (pages newsz), ∀ x, f ≤ x → x < f + PGSIZE →
      k'.mem x = 0) ∧
    ∀ f ∈ slotFrames pt' N (pages newsz), ∀ x, f ≤ x → x < f + SUPERPGSIZE →
      k'.mem x = 0

/-- What a `uvmalloc` that ran out of memory leaves; `ts` are the pages it took for
level-0 tables. -/
structure RolledBack (k : Kernel) (pt : PageTable) (k' : Kernel) (pt' : PageTable)
    (ts : List Nat) : Prop where
  leaf : ∀ q, leafAt pt' q = leafAt pt q
  tables : pt'.tables = ts ++ pt.tables
  free : k.freelist.Perm (ts ++ k'.freelist)
  superfree : k.superfreelist.Perm k'.superfreelist

theorem FreeLists.nodup (h : FreeLists kend k) :
    k.freelist.Nodup ∧ k.superfreelist.Nodup := by
  obtain ⟨h₁, h₂, -⟩ := List.pairwise_append.mp h.apart
  rw [List.pairwise_map] at h₁ h₂
  refine ⟨h₁.imp (fun {a b} hap heq => ?_), h₂.imp (fun {a b} hap heq => ?_)⟩
  all_goals
    subst heq
    unfold Block.apart at hap
    simp only [PGSIZE, SUPERPGSIZE] at hap
    omega

/-- **`uvmalloc` covers exactly the new range or rolls back.** -/
theorem uvmalloc_covers_or_rolls_back {oldsz : Nat} (hle : oldsz ≤ newsz)
    (hx : xperm.s = false) (hfresh : Untouched pt (pages oldsz) newsz)
    (hfree : FreeLists kend k) :
    ∃ k' pt' ts, (uvmalloc kend k pt oldsz newsz xperm = .ok (k', pt', newsz) ∧
        Allocated newsz xperm (pages oldsz) k pt k' pt' ts) ∨
      (uvmalloc kend k pt oldsz newsz xperm = .ok (k', pt', 0) ∧
        RolledBack k pt k' pt' ts) := by
  have hpages : pages oldsz ≤ pages newsz := by
    unfold pages
    omega
  have hfuel : pages newsz ≤ pages oldsz + (PGROUNDUP newsz - PGROUNDUP oldsz) / PGSIZE := by
    simp only [PGROUNDUP_eq, PGSIZE]
    omega
  obtain ⟨cs, t, hrun, hpage, hres⟩ := Untouched.run (s := ⟨pages oldsz, k, pt⟩) hx
    (PGROUNDUP oldsz) _ hfresh hfree.toValidFree hpages hfuel
  obtain ⟨ts, hF⟩ := Round.run_filled hrun hx
    (fun q h₁ h₂ => (hfresh.vacant q h₁ h₂).region) hfree.toValidFree
  unfold uvmalloc
  rw [if_neg (Nat.not_lt.mpr hle)]
  rcases hres with ⟨hlast, hloop⟩ | ⟨k₁, hl, hsl, hloop⟩
  · obtain ⟨hn, hsn⟩ := hfree.nodup
    have hnodup := (hF.free.nodup_iff.mp hn)
    have hsnodup := (hF.superfree.nodup_iff.mp hsn)
    have hzero := hF.zero hfree.apart
    obtain ⟨P', k', pt'⟩ := t
    simp only at hlast
    subst hlast
    refine ⟨k', pt', ts, .inl ⟨hloop, ?_⟩⟩
    refine ⟨fun q hq => (hF.quiet q hq).leafAt_eq, fun q h₁ h₂ hno => ?_,
      fun q h₁ h₂ hin => ?_, hF.tables, hF.free, hF.superfree, ⟨?_, ?_⟩, hzero⟩
    · obtain ⟨hat, hflags⟩ := hF.pages q h₁ h₂ hno
      exact ⟨_, hat.leafAt_eq, hflags⟩
    · obtain ⟨hat, -, hflags⟩ := hF.supers q h₁ h₂ hin
      exact ⟨_, hat.leafAt_eq, hflags⟩
    · exact (List.nodup_append.mp (List.nodup_append.mp hnodup).1).2.1
    · exact (List.nodup_append.mp hsnodup).1
  · have hpg : ∀ P, PGROUNDUP (P * 4096) = P * 4096 := fun P => by
      unfold PGROUNDUP
      omega
    have hle' := hF.le
    obtain ⟨k', pt', hdealloc, hleaf, htab, hperm, hsuper⟩ := hF.rollback
      hfree.toValidFree hl hsl (Nat.mul_le_mul_right 4096 hle') (hpg _) (hpg _)
    refine ⟨k', pt', ts, .inr ⟨?_, hleaf, htab, hperm, hsuper⟩⟩
    rw [PGROUNDUP_eq oldsz] at hloop ⊢
    rw [hdealloc] at hloop
    exact hloop

/-- A superpage and a page, for which there is memory. -/
theorem uvmalloc_covers_or_rolls_back_mixed :
    ∃ k' pt' ts, uvmalloc 0 mixedFrames oneRegion 0 2101248
        { w := true } = .ok (k', pt', 2101248) ∧
      Allocated 2101248 { w := true } 0 mixedFrames oneRegion k' pt' ts ∧
      ∃ e, leafAt pt' 0 = some (1, e) := by
  have hfresh : Untouched oneRegion (pages 0) 2101248 := by
    exact ⟨fun q _ hq => ⟨oneRegion_region hq, .inl (oneRegion_slot _)⟩,
      fun j _ _ => oneRegion_slot j⟩
  obtain ⟨k', pt', ts, ⟨hok, hA⟩ | ⟨hok, -⟩⟩ := uvmalloc_covers_or_rolls_back
    (show 0 ≤ 2101248 by decide) (show ({ w := true } : Flags).s = false from rfl) hfresh
    mixedFrames_free
  · obtain ⟨e, he, -⟩ := hA.super 0 (by decide) (by decide) ⟨by decide, by decide⟩
    exact ⟨k', pt', ts, hok, hA, e, he⟩
  · have hsize : (uvmalloc 0 mixedFrames oneRegion 0 2101248
        { w := true }).map (fun res => res.2.2) = .ok 2101248 := rfl
    rw [hok] at hsize
    cases Except.ok.inj hsize

end Xv6Labs.Super
