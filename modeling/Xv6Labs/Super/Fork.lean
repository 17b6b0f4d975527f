import Xv6Labs.Super.Copy

/-!
# Fork with superpages

What `uvmcopy` promises, in terms of what the hardware sees. A successful copy
gives the child the parent's address space in frames of its own. A copy that
runs out of 4 KB pages leaves nothing behind; one that runs out of superpages
panics, so the failure is clean exactly when no superpage is reached without a
frame for it.
-/

namespace Xv6Labs.Super

open Xv6Labs.Lib

def phys (pt : PageTable) (va : Nat) : Option Nat :=
  (sv39 pt va).map (fun p => PTE2PA (pt.ent p.1 p.2) + va % 2 ^ PXSHIFT p.1)

/-- `new` is a table that `proc_pagetable` returned. -/
def FreshChild (kend : Nat) (new : PageTable) : Prop :=
  ∃ k k' trampoline trapframe usyscall, (∀ f ∈ k.freelist, SmallFrame kend f) ∧
    proc_pagetable kend k trampoline trapframe usyscall = .ok (k', some new)

/-- The child has the parent's address space, in frames of its own. -/
structure Forked (k : Kernel) (old : PageTable) (k' : Kernel) (old' new' : PageTable)
    (sz : Nat) : Prop where
  same : ∀ va, va < sz → ∃ level j, sv39 old va = some (level, j) ∧
    sv39 new' va = some (level, j) ∧ (new'.ent level j).toFlags = (old.ent level j).toFlags
  bytes : ∀ va, va < sz → read k'.mem new' va = read k.mem old va
  free : ∀ va level j, va < sz → sv39 new' va = some (level, j) →
    PTE2PA (new'.ent level j) ∈ if level = 0 then k.freelist else k.superfreelist
  distinct : ∀ va va', va < sz → va' < sz → phys new' va = phys new' va' → va = va'
  disjoint : ∀ va va', va < sz → va' < sz → phys new' va ≠ phys old va'
  nothing : ∀ va, PGROUNDUP sz ≤ va → va < USYSCALL → sv39 new' va = none
  parent : old' = old ∧ ∀ va, va < USYSCALL → read k'.mem old va = read k.mem old va

/-- Nothing is left of the copy but table pages of the child, which go with its
page table; every other frame is free again, once. -/
structure Unforked (k : Kernel) (old new : PageTable) (k' : Kernel)
    (old' new' : PageTable) : Prop where
  child : ∀ va, va < USYSCALL → sv39 new' va = none
  small : ∃ ts, new'.tables = ts ++ new.tables ∧ k.freelist.Perm (ts ++ k'.freelist)
  super : k.superfreelist.Perm k'.superfreelist
  parent : old' = old ∧ ∀ va, va < USYSCALL → read k'.mem old va = read k.mem old va

variable {kend : Nat} {k k' : Kernel} {pt old new old' new' : PageTable} {sz : Nat}

theorem FreshChild.bare (h : FreshChild kend new) : Bare kend new := by
  obtain ⟨k, k', trampoline, trapframe, usyscall, hfree, hok⟩ := h
  exact proc_pagetable_bare hfree hok

/-! ## Physical addresses -/

theorem Tree.phys (h : Tree pt) (va : Nat) :
    phys pt va = (frameOf pt (va / 4096)).map (fun b => b + va % 4096) := by
  unfold Super.phys frameOf
  rw [h.sv39 va, ← vpn_zero]
  have hmod : va % 2097152 = vpn 0 va % 512 * 4096 + va % 4096 := by
    rw [vpn_zero]
    omega
  unfold seen
  rw [← vpn_one_eq]
  by_cases hs : superAt pt (vpn 1 va) = true
  · rw [if_pos hs]
    simp only [Option.map_some]
    rw [show PXSHIFT 1 = 21 from rfl, show (2 : Nat) ^ 21 = 2097152 from rfl, hmod,
      if_neg (by omega), Nat.add_assoc]
  · rw [if_neg hs]
    by_cases hv : (pt.ent 0 (vpn 0 va)).v = true
    · rw [if_pos hv]
      simp only [Option.map_some]
      rw [show PXSHIFT 0 = 12 from rfl, show (2 : Nat) ^ 12 = 4096 from rfl,
        if_pos trivial, Nat.add_zero]
    · rw [if_neg hv]
      rfl

theorem Tree.phys_some (h : Tree pt) {va x : Nat} (hx : Super.phys pt va = some x) :
    ∃ b, frameOf pt (va / 4096) = some b ∧ x = b + va % 4096 := by
  rw [h.phys] at hx
  cases hb : frameOf pt (va / 4096) with
  | none =>
      rw [hb] at hx
      cases hx
  | some b =>
      rw [hb] at hx
      exact ⟨b, rfl, (Option.some.inj hx).symm⟩

theorem Space.phys_inj (h : Space kend k pt) {va va' x : Nat} (hva : va / 4096 < UPAGES)
    (hva' : va' / 4096 < UPAGES) (hx : Super.phys pt va = some x)
    (hx' : Super.phys pt va' = some x) : va = va' := by
  obtain ⟨b, hb, hxb⟩ := h.toTree.phys_some hx
  obtain ⟨b', hb', hxb'⟩ := h.toTree.phys_some hx'
  have hlt : va % 4096 < 4096 := Nat.mod_lt _ (by omega)
  have hlt' : va' % 4096 < 4096 := Nat.mod_lt _ (by omega)
  have hq : va / 4096 = va' / 4096 :=
    h.frame_inj hva hva' hb hb' (x := x) (by omega) (by omega)
  rw [hq, hb'] at hb
  have := Option.some.inj hb
  omega

theorem page_lt {va : Nat} (h : va < sz) : va / 4096 < pages sz :=
  lt_pages.mpr (by omega)

theorem user_page {va : Nat} (h : va < USYSCALL) : va / 4096 < UPAGES := by
  have hu : USYSCALL = UPAGES * 4096 := by decide
  omega

/-! ## What the copy means -/

theorem Tree.sv39_of_seen (h : Tree pt) {va level : Nat} {e : Pte}
    (hs : seen pt (va / 4096) = some (level, e)) :
    Super.sv39 pt va = some (level, vpn level va) ∧ pt.ent level (vpn level va) = e := by
  rw [← vpn_zero] at hs
  refine ⟨by rw [h.sv39, hs]; rfl, ?_⟩
  unfold seen at hs
  rw [← vpn_one_eq] at hs
  split at hs
  · simp only [Option.some.injEq, Prod.mk.injEq] at hs
    rw [← hs.1]
    exact hs.2
  · split at hs
    · simp only [Option.some.injEq, Prod.mk.injEq] at hs
      rw [← hs.1]
      exact hs.2
    · cases hs

theorem Tree.sv39_of_none (h : Tree pt) {va : Nat} (hs : seen pt (va / 4096) = none) :
    Super.sv39 pt va = none := by
  rw [h.sv39, vpn_zero, hs]
  rfl

theorem Copying.frame_free {new₀ : PageTable} {P : Nat} {ts held : List Nat}
    (h : Copying kend k old new₀ k' new P ts held) {q level : Nat} {e : Pte} (hq : q < P)
    (hs : seen new q = some (level, e)) :
    (level = 0 ∧ PTE2PA e ∈ k.freelist) ∨ (level ≠ 0 ∧ PTE2PA e ∈ k.superfreelist) := by
  have hs' := hs
  unfold seen at hs'
  split at hs'
  · rename_i hsup
    simp only [Option.some.injEq, Prod.mk.injEq] at hs'
    obtain ⟨rfl, he⟩ := hs'
    refine .inr ⟨Nat.one_ne_zero, h.super.mem_iff.mpr (List.mem_append_left _ ?_)⟩
    -- the slot starts at a page that was copied too
    have hlo : q / 512 * 512 < P := by omega
    have hslot : q / 512 * 512 / 512 = q / 512 := Nat.mul_div_cancel _ (by decide)
    unfold superFrames superFrame
    refine List.mem_filterMap.mpr ⟨q / 512 * 512, List.Ico.mem.mpr ⟨Nat.zero_le _, hlo⟩, ?_⟩
    rw [if_pos (Nat.mul_mod_left _ _), seen_super (by rw [hslot]; exact hsup), hslot, he]
    rfl
  · split at hs'
    · simp only [Option.some.injEq, Prod.mk.injEq] at hs'
      obtain ⟨rfl, -⟩ := hs'
      refine .inl ⟨rfl, h.small.mem_iff.mpr (List.mem_append_left _
        (List.mem_append_right _ ?_))⟩
      exact mem_smallFrames.mpr ⟨q, e, Nat.zero_le _, hq, hs, rfl⟩
    · cases hs'

theorem Copying.phys_ne {new₀ : PageTable} {P : Nat} {ts held : List Nat}
    (h : Copying kend k old new₀ k' new P ts held) (hp : Space kend k old)
    {va va' x : Nat} (hva : va / 4096 < P) (hva' : va' / 4096 < UPAGES)
    (hx : Super.phys new va = some x) : Super.phys old va' ≠ some x := by
  intro hx'
  obtain ⟨b, hb, hxb⟩ := h.space.toTree.phys_some hx
  obtain ⟨b', hb', hxb'⟩ := hp.toTree.phys_some hx'
  have hlt : va % 4096 < 4096 := Nat.mod_lt _ (by omega)
  have hlt' : va' % 4096 < 4096 := Nat.mod_lt _ (by omega)
  have hblock : b' ≤ x ∧ x < b' + 4096 := by omega
  cases hs : seen new (va / 4096) with
  | none =>
      unfold frameOf at hb
      rw [hs] at hb
      cases hb
  | some le =>
      obtain ⟨level, e⟩ := le
      rcases h.frame_free hva hs with ⟨rfl, hf⟩ | ⟨hne, hf⟩
      · rw [frameOf_small hs, Option.some.injEq] at hb
        exact hp.free_frame hva' hb' hf hblock (by omega)
      · have hslot : va / 4096 % 512 < 512 := Nat.mod_lt _ (by omega)
        unfold frameOf at hb
        rw [hs] at hb
        simp only [Option.map_some, if_neg hne, Option.some.injEq] at hb
        exact hp.superfree_frame hva' hb' hf hblock (by omega)

/-- **What a finished copy means.** -/
theorem Copying.forked {ts : List Nat} (hp : Parent kend k old (pages sz))
    (hb : Bare kend new) (h : Copying kend k old new k' new' (pages sz) ts []) :
    Forked k old k' old new' sz := by
  have hN := hp.le
  have hup := UPAGES_eq
  have hpage : ∀ va, va < sz → va / 4096 < UPAGES := fun va hva => by
    have := page_lt hva
    omega
  have hseen : ∀ va, va < sz → ∃ level e e', seen old (va / 4096) = some (level, e) ∧
      seen new' (va / 4096) = some (level, e') ∧ e'.toFlags = e.toFlags := by
    intro va hva
    obtain ⟨⟨level, e⟩, he⟩ := Option.isSome_iff_exists.mp (hp.mapped _ (page_lt hva))
    have hlow := h.low _ (page_lt hva)
    rw [he] at hlow
    cases hn : seen new' (va / 4096) with
    | none =>
        rw [hn] at hlow
        cases hlow
    | some le =>
        obtain ⟨level', e'⟩ := le
        rw [hn] at hlow
        simp only [Option.map_some, shape, Option.some.injEq, Prod.mk.injEq] at hlow
        obtain ⟨rfl, hflags⟩ := hlow
        exact ⟨level', e, e', he, rfl, hflags⟩
  refine ⟨fun va hva => ?_, fun va hva => h.bytes va (page_lt hva), fun va level j hva hj => ?_,
    fun va va' hva hva' heq => ?_, fun va va' hva hva' heq => ?_, fun va hlo hhi => ?_,
    rfl, fun va hva => ?_⟩
  · obtain ⟨level, e, e', hs, hs', hflags⟩ := hseen va hva
    obtain ⟨h₁, h₂⟩ := hp.space.toTree.sv39_of_seen hs
    obtain ⟨h₁', h₂'⟩ := h.space.toTree.sv39_of_seen hs'
    exact ⟨level, vpn level va, h₁, h₁', by rw [h₂, h₂', hflags]⟩
  · obtain ⟨level', e, e', -, hs', -⟩ := hseen va hva
    obtain ⟨h₁, h₂⟩ := h.space.toTree.sv39_of_seen hs'
    rw [h₁] at hj
    simp only [Option.some.injEq, Prod.mk.injEq] at hj
    obtain ⟨rfl, rfl⟩ := hj
    rw [h₂]
    rcases h.frame_free (page_lt hva) hs' with ⟨hz, hf⟩ | ⟨hne, hf⟩
    · rwa [if_pos hz]
    · rwa [if_neg hne]
  · obtain ⟨level, e, e', -, hs', -⟩ := hseen va hva
    have hx : ∃ x, Super.phys new' va = some x := by
      unfold Super.phys
      rw [(h.space.toTree.sv39_of_seen hs').1]
      exact ⟨_, rfl⟩
    obtain ⟨x, hx⟩ := hx
    exact h.space.phys_inj (hpage va hva) (hpage va' hva') hx (by rw [← heq]; exact hx)
  · obtain ⟨level, e, e', -, hs', -⟩ := hseen va hva
    have hx : ∃ x, Super.phys new' va = some x := by
      unfold Super.phys
      rw [(h.space.toTree.sv39_of_seen hs').1]
      exact ⟨_, rfl⟩
    obtain ⟨x, hx⟩ := hx
    rw [hx] at heq
    exact h.phys_ne hp.space (page_lt hva) (hpage va' hva') hx heq.symm
  · refine h.space.toTree.sv39_of_none ?_
    rw [PGROUNDUP_eq] at hlo
    rw [h.high _ (by omega)]
    exact hb.unmapped _ (user_page hhi)
  · exact read_congr hp.space.toTree hp.space.toTree rfl (fun b x hb hx =>
      h.parent hp.space (user_page hva) hb hx)

/-- **What an undone copy means.** -/
theorem Unwound.unforked (hp : Space kend k old) (h : Unwound k new k' new') :
    Unforked k old new k' old new' := by
  refine ⟨fun va hva => ?_, h.small, h.super, rfl, fun va hva => ?_⟩
  · exact h.tree.sv39_of_none (h.child _ (user_page hva))
  · exact read_congr hp.toTree hp.toTree rfl (fun b x hb hx =>
      h.mem x (fun _ hf => hp.free_frame (user_page hva) hb hf hx)
        (fun _ hf => hp.superfree_frame (user_page hva) hb hf hx))

theorem forked_empty (hb : Bare kend new) : Forked k old k old new 0 :=
  ⟨fun va hva => absurd hva (Nat.not_lt_zero va), fun va hva => absurd hva (Nat.not_lt_zero va),
    fun va _ _ hva => absurd hva (Nat.not_lt_zero va),
    fun va _ hva => absurd hva (Nat.not_lt_zero va),
    fun va _ hva => absurd hva (Nat.not_lt_zero va),
    fun _ _ hva => hb.toTree.sv39_of_none (hb.unmapped _ (user_page hva)), rfl, fun _ _ => rfl⟩

/-- **Fork copies exactly.** When `uvmcopy` returns 0 the child maps every address
below `sz` as the parent does, with the same page size, flags and byte, in frames
that were free, are pairwise distinct and disjoint from the parent's. Nothing else
is mapped in its user range, and the parent is unchanged. -/
theorem uvmcopy_copies_exactly (hp : Parent kend k old (pages sz))
    (hc : FreshChild kend new)
    (hok : uvmcopy kend k old new sz = .ok (k', old', new', 0)) :
    Forked k old k' old' new' sz := by
  have hb := hc.bare
  rcases Nat.eq_zero_or_pos sz with rfl | hpos
  · have hzero : uvmcopy kend k old new 0 = .ok (k, old, new, 0) := rfl
    rw [hzero] at hok
    simp only [Except.ok.injEq, Prod.mk.injEq] at hok
    obtain ⟨rfl, rfl, rfl, -⟩ := hok
    exact forked_empty hb
  · have hout := hp.uvmcopy hb rfl hpos
    rw [hok] at hout
    cases hout with
    | done h => exact h.forked hp hb

/-! ## When the failure is clean -/

/-- The superpages of the parent that are reached have a frame, or memory for the
4 KB pages before them runs out first. -/
def SuperpagesSuffice (k : Kernel) (old : PageTable) (sz : Nat) : Prop :=
  ∀ j, superAt old j = true → j * 512 < pages sz →
    supersBefore old (j * 512) < k.superfreelist.length ∨
      k.freelist.length < copyNeed old (j * 512)

/-- A superpage that is reached without a frame for it ends in a panic. -/
theorem Outcome.panics {N : Nat} {res} (h : Outcome kend k old new N res)
    (hin : ∀ j, superAt old j = true → j * 512 < N → j * 512 + 512 ≤ N) {j : Nat}
    (hs : superAt old j = true) (hj : j * 512 < N)
    (hshort : k.superfreelist.length ≤ supersBefore old (j * 512))
    (hreach : copyNeed old (j * 512) ≤ k.freelist.length) :
    res = .error "uvmunmap: walk" := by
  have hstep := supersBefore_super hs
  cases h with
  | done h =>
      have hlen := h.superlength
      have hmono : supersBefore old (j * 512 + 512) ≤ supersBefore old N :=
        supersBefore_mono (hin j hs hj)
      omega
  | failed Q hQ hsQ short supers h =>
      exfalso
      by_cases hle : j * 512 ≤ Q
      · have hpast : j * 512 + 512 ≤ Q := by
          by_contra hlt
          have hslot : Q / 512 = j := by
            have h₁ : j ≤ Q / 512 := (Nat.le_div_iff_mul_le (by decide)).mpr hle
            have h₂ : Q / 512 < j + 1 := by
              rw [Nat.div_lt_iff_lt_mul (by decide), Nat.add_mul, Nat.one_mul]
              exact Nat.not_le.mp hlt
            omega
          rw [hslot, hs] at hsQ
          cases hsQ
        have hmono : supersBefore old (j * 512 + 512) ≤ supersBefore old Q :=
          supersBefore_mono hpast
        omega
      · have hmono : copyNeed old (Q + 1) ≤ copyNeed old (j * 512) :=
          copyNeed_mono (by omega)
        omega
  | panicked => rfl

/-- **Fork fails cleanly, exactly when superpages suffice**: `uvmcopy` returns,
with 0 or with -1 and everything given back, if and only if no superpage of the
parent is reached without a frame for it. -/
theorem uvmcopy_unwinds_iff (hp : Parent kend k old (pages sz))
    (hc : FreshChild kend new) :
    (∃ k' old' new' ret, uvmcopy kend k old new sz = .ok (k', old', new', ret) ∧
      (ret ≠ 0 → ret = -1 ∧ Unforked k old new k' old' new')) ↔
      SuperpagesSuffice k old sz := by
  have hb := hc.bare
  rcases Nat.eq_zero_or_pos sz with rfl | hpos
  · refine ⟨fun _ j _ hj => ?_, fun _ => ⟨k, old, new, 0, rfl, fun hne => absurd rfl hne⟩⟩
    exact absurd hj (Nat.not_lt_zero _)
  have hout := hp.uvmcopy hb rfl hpos
  constructor
  · rintro ⟨k', old', new', ret, hok, -⟩ j hs hj
    by_contra hnot
    rw [not_or, Nat.not_lt, Nat.not_lt] at hnot
    rw [hout.panics hp.inside hs hj hnot.1 hnot.2] at hok
    cases hok
  · intro hsuff
    generalize uvmcopy kend k old new sz = res at hout ⊢
    cases hout with
    | done h => exact ⟨_, _, _, _, rfl, fun hne => absurd rfl hne⟩
    | failed Q hQ hs short supers h =>
        exact ⟨_, _, _, _, rfl, fun _ => ⟨rfl, h.unforked hp.space⟩⟩
    | panicked j hj hs short reached =>
        rcases hsuff j hs hj with h | h
        · omega
        · omega

/-! ## A parent of one slot of pages and one superpage -/

def twoSlots : PageTable where
  tables := [0x80600000]
  ent := fun level j =>
    if level = 2 then if j = 0 then PA2PTE 0x80601000 { v := true } else .zero
    else if level = 1 then
      if j = 0 then PA2PTE 0x80602000 { v := true }
      else if j = 1 then superPte SPLIT else .zero
    else if level = 0 ∧ j < 512 then userPte (0x80400000 + j * 4096)
    else .zero

def pageRange (base n : Nat) : List Nat := (List.range n).map (fun i => base + i * 4096)

/-- `n` free pages, and the free superpages `supers`. -/
def twoSlotsKernel (n : Nat) (supers : List Nat) : Kernel where
  freelist := pageRange 0x80700000 n
  superfreelist := supers
  mem := fun _ => 0

theorem twoSlots_frame {q : Nat} (hq : q < 512) :
    SmallFrame 0x80200000 (0x80400000 + q * 4096) := by
  have hsplit : SPLIT = 0x81800000 := by decide
  have hbase : KERNBASE = 0x80000000 := rfl
  constructor <;> omega

theorem twoSlots_free {n f : Nat} {supers : List Nat} (hn : n ≤ 520)
    (hf : f ∈ (twoSlotsKernel n supers).freelist) :
    SmallFrame 0x80200000 f ∧ 0x80700000 ≤ f := by
  simp only [twoSlotsKernel, pageRange, List.mem_map, List.mem_range] at hf
  obtain ⟨i, hi, rfl⟩ := hf
  have hsplit : SPLIT = 0x81800000 := by decide
  have hbase : KERNBASE = 0x80000000 := rfl
  refine ⟨?_, by omega⟩
  constructor <;> omega

theorem pageRange_nodup (base n : Nat) : (pageRange base n).Nodup := by
  refine List.Nodup.map (fun i j hij => ?_) List.nodup_range
  have hij' : base + i * 4096 = base + j * 4096 := hij
  omega

theorem twoSlots_super {j : Nat} : superAt twoSlots j = true ↔ j = 1 := by
  by_cases h₀ : j = 0
  · subst h₀
    decide
  · by_cases h₁ : j = 1
    · subst h₁
      decide
    · simp [superAt, twoSlots, h₀, h₁, Pte.zero]

theorem twoSlots_page {q : Nat} : (twoSlots.ent 0 q).v = true ↔ q < 512 := by
  by_cases hq : q < 512
  · simp [twoSlots, hq, userPte, PA2PTE]
  · simp [twoSlots, hq, Pte.zero]

theorem twoSlots_ent {q : Nat} (hq : q < 512) :
    twoSlots.ent 0 q = userPte (0x80400000 + q * 4096) := by
  simp [twoSlots, hq]

theorem twoSlots_tree : Tree twoSlots := by
  refine ⟨fun i hv => ?_, fun j hv => ?_, fun q hv => ?_⟩
  · by_cases h₀ : i = 0
    · subst h₀
      decide
    · simp [twoSlots, h₀, Pte.zero] at hv
  · by_cases h₀ : j = 0
    · subst h₀
      decide
    · by_cases h₁ : j = 1
      · subst h₁
        decide
      · simp [twoSlots, h₀, h₁, Pte.zero] at hv
  · have hq := twoSlots_page.mp hv
    rw [twoSlots_ent hq, show q / 512 = 0 by omega]
    exact ⟨by decide, rfl, rfl⟩

theorem twoSlots_parent {n : Nat} {supers : List Nat} (hn : n ≤ 520)
    (hs : ∀ f ∈ supers, SuperFrame 0x80200000 f ∧ f ≠ SPLIT) (hnd : supers.Nodup) :
    Parent 0x80200000 (twoSlotsKernel n supers) twoSlots 1024 := by
  have hpa : ∀ q, q < 512 → PTE2PA (twoSlots.ent 0 q) = 0x80400000 + q * 4096 := by
    intro q hq
    rw [twoSlots_ent hq]
    exact (userPte_maps (twoSlots_frame hq)).pa
  have hspa : PTE2PA (twoSlots.ent 1 1) = SPLIT := by decide
  have htab : ∀ j, tableAt twoSlots j = true → j = 0 := by
    intro j hj
    by_contra h₀
    by_cases h₁ : j = 1
    · subst h₁
      revert hj
      decide
    · simp [tableAt, twoSlots, h₀, h₁, Pte.zero] at hj
  refine ⟨⟨twoSlots_tree, by decide, fun q _ hv => ?_, fun q q' _ _ hv hv' heq => ?_,
    fun j hj => ?_, fun j j' hj hj' _ => ?_, fun f hf => (twoSlots_free hn hf).1, ?_,
    fun f hf => (hs f hf).1, hnd, ?_, fun i hi => ?_, fun j hj => ?_⟩,
    fun q hq => ?_, fun j hj _ => ?_, by decide⟩
  · have hq := twoSlots_page.mp hv
    rw [hpa q hq]
    refine ⟨twoSlots_frame hq, fun hin => ?_⟩
    have := (@twoSlots_free n _ supers hn hin).2
    omega
  · have hq := twoSlots_page.mp hv
    have hq' := twoSlots_page.mp hv'
    rw [hpa q hq, hpa q' hq'] at heq
    omega
  · rw [twoSlots_super.mp hj, hspa]
    exact ⟨by constructor <;> decide, fun hin => (hs _ hin).2 rfl⟩
  · rw [twoSlots_super.mp hj, twoSlots_super.mp hj']
  · simp only [twoSlotsKernel]
    exact pageRange_nodup _ _
  · constructor <;> decide
  · have h₀ : i = 0 := by
      by_contra h₀
      simp [twoSlots, h₀, Pte.zero] at hi
    subst h₀
    constructor <;> decide
  · rw [htab j hj]
    constructor <;> decide
  · by_cases hq' : q < 512
    · rw [seen_small twoSlots_tree (twoSlots_page.mpr hq')]
      rfl
    · rw [seen_super (twoSlots_super.mpr (by omega))]
      rfl
  · rw [twoSlots_super.mp hj]

theorem freshChild_three : ∃ new, FreshChild 0x80200000 new := by
  have hok : ∃ k' new, proc_pagetable 0x80200000
      { freelist := [0x80a00000, 0x80a01000, 0x80a02000], superfreelist := [],
        mem := fun _ => 0 } 0x80007000 0x80a03000 0x80a04000 = .ok (k', some new) :=
    ⟨_, _, rfl⟩
  obtain ⟨k', new, hok⟩ := hok
  refine ⟨new, _, k', _, _, _, fun f hf => ?_, hok⟩
  simp only [List.mem_cons, List.not_mem_nil, or_false] at hf
  rcases hf with rfl | rfl | rfl <;> constructor <;> decide

theorem twoSlots_need : copyNeed twoSlots 512 = 514 ∧ supersBefore twoSlots 512 = 0 := by
  have hsmall : smallPages twoSlots 0 512 = 512 := by
    unfold smallPages
    rw [Finset.filter_true_of_mem (fun q hq => ?_), Nat.card_Ico]
    · rw [Finset.mem_Ico] at hq
      rw [show q / 512 = 0 by omega]
      decide
  refine ⟨?_, by decide⟩
  unfold copyNeed
  rw [hsmall]
  decide

theorem twoSlots_pages : pages 0x400000 = 1024 := by decide

/-- No superpage is free: the copy reaches the parent's superpage and panics. -/
theorem uvmcopy_panics_at_superpage : ∃ new, FreshChild 0x80200000 new ∧
    Parent 0x80200000 (twoSlotsKernel 520 []) twoSlots (pages 0x400000) ∧
    uvmcopy 0x80200000 (twoSlotsKernel 520 []) twoSlots new 0x400000 =
      .error "uvmunmap: walk" := by
  obtain ⟨new, hc⟩ := freshChild_three
  have hp := twoSlots_parent (n := 520) (by decide) (fun f hf => absurd hf List.not_mem_nil) List.nodup_nil
  rw [← twoSlots_pages] at hp
  obtain ⟨hneed, hsupers⟩ := twoSlots_need
  refine ⟨new, hc, hp, ?_⟩
  refine (hp.uvmcopy hc.bare rfl (by decide)).panics hp.inside
    (twoSlots_super.mpr rfl) (by rw [twoSlots_pages]; decide) (Nat.zero_le _) ?_
  rw [show 1 * 512 = 512 from rfl, hneed]
  simp [twoSlotsKernel, pageRange]

theorem twoSlots_roomy : Parent 0x80200000 (twoSlotsKernel 520 [SPLIT + SUPERPGSIZE]) twoSlots
    (pages 0x400000) := by
  rw [twoSlots_pages]
  refine twoSlots_parent (n := 520) (by decide) (fun f hf => ?_) (List.nodup_singleton _)
  rw [List.mem_singleton.mp hf]
  exact ⟨by constructor <;> decide, by decide⟩

/-- 300 pages are not enough for the 4 KB pages of the first slot. -/
theorem twoSlots_short {new : PageTable}
    (hp : Parent 0x80200000 (twoSlotsKernel 300 []) twoSlots (pages 0x400000))
    (hc : FreshChild 0x80200000 new) {k' : Kernel} {old' new' : PageTable} :
    uvmcopy 0x80200000 (twoSlotsKernel 300 []) twoSlots new 0x400000 ≠
      .ok (k', old', new', 0) := by
  intro hok
  have hout := hp.uvmcopy hc.bare rfl (show 0 < 0x400000 by decide)
  rw [hok] at hout
  cases hout with
  | done h =>
      have hlen := h.length
      have hmono : copyNeed twoSlots 512 ≤ copyNeed twoSlots (pages 0x400000) :=
        copyNeed_mono (by rw [twoSlots_pages]; decide)
      have hfree : (twoSlotsKernel 300 []).freelist.length = 300 := by
        simp [twoSlotsKernel, pageRange]
      have hneed := twoSlots_need.1
      omega

/-- Memory runs out among the 4 KB pages below the superpage: the copy of almost 300
pages is undone. -/
theorem uvmcopy_unwinds_iff_two_slots : ∃ new k' new', FreshChild 0x80200000 new ∧
    uvmcopy 0x80200000 (twoSlotsKernel 300 []) twoSlots new 0x400000 =
      .ok (k', twoSlots, new', -1) ∧
    Unforked (twoSlotsKernel 300 []) twoSlots new k' twoSlots new' := by
  obtain ⟨new, hc⟩ := freshChild_three
  have hp := twoSlots_parent (n := 300) (by decide) (fun f hf => absurd hf List.not_mem_nil)
    List.nodup_nil
  rw [← twoSlots_pages] at hp
  obtain ⟨k', old', new', ret, hok, hret⟩ := (uvmcopy_unwinds_iff hp hc).mpr (fun j hs _ => by
    rw [twoSlots_super.mp hs, show 1 * 512 = 512 from rfl, twoSlots_need.1]
    right
    simp [twoSlotsKernel, pageRange])
  have hne : ret ≠ 0 := fun h0 => twoSlots_short hp hc (h0 ▸ hok)
  obtain ⟨rfl, hun⟩ := hret hne
  obtain ⟨rfl, -⟩ := hun.parent
  exact ⟨new, k', new', hc, hok, hun⟩

theorem twoSlots_copied {new : PageTable} (hc : FreshChild 0x80200000 new) :
    ∃ k' new', uvmcopy 0x80200000 (twoSlotsKernel 520 [SPLIT + SUPERPGSIZE]) twoSlots new
      0x400000 = .ok (k', twoSlots, new', 0) := by
  have hout := twoSlots_roomy.uvmcopy hc.bare rfl (show 0 < 0x400000 by decide)
  obtain ⟨hneed, hsupers⟩ := twoSlots_need
  generalize uvmcopy 0x80200000 (twoSlotsKernel 520 [SPLIT + SUPERPGSIZE]) twoSlots new
    0x400000 = res at hout ⊢
  cases hout with
  | done h => exact ⟨_, _, rfl⟩
  | failed Q hQ hs short supers h =>
      rw [twoSlots_pages] at hQ
      have hslot : Q / 512 ≠ 1 := fun hh => by
        rw [hh, twoSlots_super.mpr rfl] at hs
        cases hs
      have hmono : copyNeed twoSlots (Q + 1) ≤ copyNeed twoSlots 512 :=
        copyNeed_mono (by omega)
      have hlen : (twoSlotsKernel 520 [SPLIT + SUPERPGSIZE]).freelist.length = 520 := by
        simp [twoSlotsKernel, pageRange]
      omega
  | panicked j hj hs short reached =>
      rw [twoSlots_super.mp hs, show 1 * 512 = 512 from rfl, hsupers] at short
      exact absurd short (by decide)

theorem uvmcopy_copies_exactly_two_slots : ∃ new k' new', FreshChild 0x80200000 new ∧
    uvmcopy 0x80200000 (twoSlotsKernel 520 [SPLIT + SUPERPGSIZE]) twoSlots new 0x400000 =
      .ok (k', twoSlots, new', 0) ∧
    Forked (twoSlotsKernel 520 [SPLIT + SUPERPGSIZE]) twoSlots k' twoSlots new' 0x400000 := by
  obtain ⟨new, hc⟩ := freshChild_three
  obtain ⟨k', new', hok⟩ := twoSlots_copied hc
  exact ⟨new, k', new', hc, hok, uvmcopy_copies_exactly twoSlots_roomy hc hok⟩

end Xv6Labs.Super
