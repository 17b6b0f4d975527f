import Xv6Labs.Super.Child

/-!
# Copying an address space

The loop of `uvmcopy` on superpages. `Copying` is what holds after the first `P`
pages of the parent have been copied: the child shows them with the parent's
sizes, flags and bytes, and every frame that left the free lists is a table page
of the child or one of its pages. A round for a 4 KB page takes a frame and at
most one table page; the first one also takes the level-1 table, which no other
round needs. When a round for a superpage finds no memory the loop panics in
`uvmunmap`, since `(i + szinc - 1) / PGSIZE` counts 511 pages that are not there.
-/

namespace Xv6Labs.Super

open Xv6Labs.Lib

/-! ## What a copy takes -/

/-- Level-0 tables for the first `P` pages of `old`. -/
def slotTables (old : PageTable) (P : Nat) : Nat :=
  ((Finset.range ((P + 511) / 512)).filter (fun j => superAt old j = false)).card

/-- Superpages among the first `P` pages of `old`. -/
def supersBefore (old : PageTable) (P : Nat) : Nat :=
  ((Finset.range ((P + 511) / 512)).filter (fun j => superAt old j = true)).card

/-- Pages of 4 KB that copying the first `P` pages of `old` takes, for `0 < P`:
the level-1 table, the level-0 tables and the pages themselves. -/
def copyNeed (old : PageTable) (P : Nat) : Nat :=
  1 + slotTables old P + smallPages old 0 P

variable {kend : Nat} {k k' k₀ : Kernel} {pt pt' old new new' new₀ : PageTable}

theorem slotTables_small {P : Nat} (hs : superAt old (P / 512) = false) :
    slotTables old (P + 1) = slotTables old P + if P % 512 = 0 then 1 else 0 := by
  unfold slotTables
  by_cases hal : P % 512 = 0
  · obtain ⟨m, rfl⟩ : ∃ m, P = m * 512 := ⟨P / 512, by omega⟩
    rw [show m * 512 / 512 = m by omega] at hs
    rw [if_pos hal, show (m * 512 + 1 + 511) / 512 = m + 1 by omega,
      show (m * 512 + 511) / 512 = m by omega, Finset.range_add_one, Finset.filter_insert,
      if_pos hs, Finset.card_insert_of_notMem (by simp)]
  · rw [if_neg hal, show (P + 1 + 511) / 512 = (P + 511) / 512 by omega]
    rfl

theorem supersBefore_small {P : Nat} (hs : superAt old (P / 512) = false) :
    supersBefore old (P + 1) = supersBefore old P := by
  unfold supersBefore
  by_cases hal : P % 512 = 0
  · obtain ⟨m, rfl⟩ : ∃ m, P = m * 512 := ⟨P / 512, by omega⟩
    rw [show m * 512 / 512 = m by omega] at hs
    rw [show (m * 512 + 1 + 511) / 512 = m + 1 by omega,
      show (m * 512 + 511) / 512 = m by omega, Finset.range_add_one, Finset.filter_insert,
      if_neg (by rw [hs]; simp)]
  · rw [show (P + 1 + 511) / 512 = (P + 511) / 512 by omega]

theorem slotTables_super {m : Nat} (hs : superAt old m = true) :
    slotTables old (m * 512 + 512) = slotTables old (m * 512) := by
  unfold slotTables
  rw [show (m * 512 + 512 + 511) / 512 = m + 1 by omega,
    show (m * 512 + 511) / 512 = m by omega, Finset.range_add_one, Finset.filter_insert,
    if_neg (by rw [hs]; simp)]

theorem supersBefore_super {m : Nat} (hs : superAt old m = true) :
    supersBefore old (m * 512 + 512) = supersBefore old (m * 512) + 1 := by
  unfold supersBefore
  rw [show (m * 512 + 512 + 511) / 512 = m + 1 by omega,
    show (m * 512 + 511) / 512 = m by omega, Finset.range_add_one, Finset.filter_insert,
    if_pos hs, Finset.card_insert_of_notMem (by simp)]

theorem copyNeed_mono {P Q : Nat} (h : P ≤ Q) : copyNeed old P ≤ copyNeed old Q := by
  unfold copyNeed slotTables
  have h₁ : ((Finset.range ((P + 511) / 512)).filter (fun j => superAt old j = false)).card ≤
      ((Finset.range ((Q + 511) / 512)).filter (fun j => superAt old j = false)).card :=
    Finset.card_le_card (Finset.filter_subset_filter _ (by simp only [Finset.range_subset_range]; omega))
  have h₂ := smallPages_split old (Nat.zero_le P) h
  omega

theorem supersBefore_mono {P Q : Nat} (h : P ≤ Q) :
    supersBefore old P ≤ supersBefore old Q := by
  unfold supersBefore
  exact Finset.card_le_card
    (Finset.filter_subset_filter _ (by simp only [Finset.range_subset_range]; omega))

/-! ## The first table -/

/-- `walk` to page 0 of a bare table first hangs in a level-1 table. -/
theorem Bare.walk_zero (h : Bare kend pt) (k : Kernel) :
    walk k pt 0 true = match kalloc k with
      | (none, k') => .ok (k', pt, none)
      | (some t, k') => walk { k' with mem := k'.mem.fill t PGSIZE 0 }
          (pt.newTable 2 0 t { v := true }) 0 true := by
  have hzero : vpn 2 0 = 0 := by
    rw [vpn_two_eq, vpn_zero]
  have hva : ¬ MAXVA ≤ 0 := by decide
  cases hk : kalloc k with
  | mk o k' =>
      cases o with
      | none =>
          simp [Super.walk, hva, walkLevel, hzero, h.root, hk]
      | some t =>
          simp only [Super.walk, if_neg hva, walkLevel, hzero, h.root, hk, Bool.false_eq_true,
            if_false, if_true, PageTable.newTable_ent_self]
          simp [PA2PTE, Pte.leaf]

theorem Bare.mappages_zero (h : Bare kend pt) (k : Kernel) (r : Nat) (perm : Flags) :
    Super.mappages k pt 0 PGSIZE r perm = match kalloc k with
      | (none, k') => .ok (k', pt, -1)
      | (some t, k') => Super.mappages { k' with mem := k'.mem.fill t PGSIZE 0 }
          (pt.newTable 2 0 t { v := true }) 0 PGSIZE r perm := by
  have hone : PGSIZE / PGSIZE = 0 + 1 := rfl
  simp only [Super.mappages, Nat.zero_mod, ne_eq, not_true_eq_false, if_false,
    if_neg (show ¬ PGSIZE % PGSIZE ≠ 0 by decide), if_neg (show ¬ PGSIZE = 0 by decide), hone]
  simp only [mappagesLoop, h.walk_zero k]
  cases hk : kalloc k with
  | mk o k' => cases o <;> rfl

/-- With the level-1 table in place the child is an address space of its own. -/
theorem Bare.rooted (h : Bare kend pt) (hk : Space kend k old) {t : Nat}
    (ht : SmallFrame kend t) :
    Space kend k (pt.newTable 2 0 t { v := true }) ∧
      (∀ q, seen (pt.newTable 2 0 t { v := true }) q = seen pt q) ∧
      ∀ j, j < 512 → ((pt.newTable 2 0 t { v := true }).ent 1 j).v = false := by
  obtain ⟨hT, hseen⟩ := h.toTree.newTable_two t h.root
  obtain ⟨e₂, -, e₁, -, -⟩ := newTable_two_ent pt 0 t { v := true }
  have htabs := h.tables.newTable_two 0 ht
  have hslots : ∀ j, j < 512 → ((pt.newTable 2 0 t { v := true }).ent 1 j).v = false := by
    intro j hj
    rw [e₁ j (by omega)]
    rfl
  generalize pt.newTable 2 0 t { v := true } = new at *
  have hbot : ∀ q, q < UPAGES → (new.ent 0 q).v = false := by
    intro q hq
    by_contra hne
    have := hseen q
    rw [seen_small hT (by simpa using hne), h.unmapped q hq] at this
    cases this
  have hsup : ∀ j, superAt new j = false := by
    intro j
    have := superAt_congr (hseen (j * 512))
    rwa [h.noSuper, show j * 512 / 512 = j by omega] at this
  refine ⟨⟨hT, by rw [e₂]; rfl, fun q hq hv => ?_, fun q q' hq hq' hv => ?_, fun j hj => ?_,
    fun j j' hj => ?_, hk.free, hk.nodup, hk.superfree, hk.supernodup, htabs⟩, hseen, hslots⟩
  · rw [hbot q hq] at hv
    cases hv
  · rw [hbot q hq] at hv
    cases hv
  · rw [hsup j] at hj
    cases hj
  · rw [hsup j] at hj
    cases hj

/-! ## The invariant -/

/-- Size and flags of what maps a page. -/
def shape (e : Nat × Pte) : Nat × Flags := (e.1, e.2.toFlags)

/-- A parent whose first `N` pages are mapped by 4 KB pages and by superpages
that lie inside that range, page 0 by a 4 KB page. -/
structure Parent (kend : Nat) (k : Kernel) (old : PageTable) (N : Nat) : Prop where
  space : Space kend k old
  mapped : ∀ q, q < N → (seen old q).isSome = true
  inside : ∀ j, superAt old j = true → j * 512 < N → j * 512 + 512 ≤ N
  first : superAt old 0 = false

/-- The first `P` pages of `old` are copied. `ts` are the table pages the child
got, and `held` the frame of the round, from `kalloc` to `mappages`. -/
structure Copying (kend : Nat) (k₀ : Kernel) (old new₀ : PageTable) (k : Kernel)
    (new : PageTable) (P : Nat) (ts held : List Nat) : Prop where
  space : Space kend k new
  low : ∀ q, q < P → (seen new q).map shape = (seen old q).map shape
  high : ∀ q, P ≤ q → seen new q = seen new₀ q
  slots : ∀ j, P ≤ j * 512 → j < 512 → (new.ent 1 j).v = false
  bytes : ∀ va, va / 4096 < P → read k.mem new va = read k₀.mem old va
  small : k₀.freelist.Perm (ts ++ smallFrames new 0 P ++ (held ++ k.freelist))
  super : k₀.superfreelist.Perm (superFrames new 0 P ++ k.superfreelist)
  tables : new.tables = ts ++ new₀.tables
  count : ts.length = 1 + slotTables old P
  smallcount : (smallFrames new 0 P).length = smallPages old 0 P
  supercount : (superFrames new 0 P).length = supersBefore old P
  mem : ∀ x, (∀ f ∈ k₀.freelist, ¬ (f ≤ x ∧ x < f + PGSIZE)) →
    (∀ f ∈ k₀.superfreelist, ¬ (f ≤ x ∧ x < f + SUPERPGSIZE)) → k.mem x = k₀.mem x

/-- The frame `r` of the round holds the copy of the page at `pa`. -/
structure Held (kend : Nat) (k₀ : Kernel) (k : Kernel) (new : PageTable) (r pa : Nat) :
    Prop where
  frame : SmallFrame kend r
  fresh : Fresh k new r
  data : ∀ o, o < 4096 → k.mem (r + o) = k₀.mem (pa + o)

section Copying

variable {P : Nat} {ts held : List Nat}

theorem Copying.length (h : Copying kend k₀ old new₀ k new P ts held) :
    k₀.freelist.length = copyNeed old P + held.length + k.freelist.length := by
  have hlen := h.small.length_eq
  simp only [List.length_append] at hlen
  rw [h.count, h.smallcount] at hlen
  unfold copyNeed
  omega

theorem Copying.superlength (h : Copying kend k₀ old new₀ k new P ts held) :
    k₀.superfreelist.length = supersBefore old P + k.superfreelist.length := by
  have hlen := h.super.length_eq
  rwa [List.length_append, h.supercount] at hlen

theorem Copying.parent (h : Copying kend k₀ old new₀ k new P ts held)
    (hp : Space kend k₀ old) {q b x : Nat} (hq : q < UPAGES)
    (hb : frameOf old q = some b) (hx : b ≤ x ∧ x < b + 4096) : k.mem x = k₀.mem x :=
  h.mem x (fun _ hf => hp.free_frame hq hb hf hx)
    (fun _ hf => hp.superfree_frame hq hb hf hx)

theorem frameOf_small {q : Nat} {e : Pte} (h : seen pt q = some (0, e)) :
    frameOf pt q = some (PTE2PA e) := by
  unfold frameOf
  rw [h]
  simp

theorem Copying.free_sub (h : Copying kend k₀ old new₀ k new P ts held) {f : Nat}
    (hf : f ∈ k.freelist) : f ∈ k₀.freelist :=
  h.small.mem_iff.mpr (List.mem_append_right _ (List.mem_append_right _ hf))

/-- **Taking a frame**: the page at `P` is copied into it. -/
theorem Copying.take (h : Copying kend k₀ old new₀ k new P ts [])
    (hp : Space kend k₀ old) (hP : P < UPAGES) {r : Nat} {e : Pte} {k₁ : Kernel}
    (he : seen old P = some (0, e)) (hk : kalloc k = (some r, k₁)) :
    Copying kend k₀ old new₀ { k₁ with mem := k₁.mem.copy r (PTE2PA e) PGSIZE } new P ts
        [r] ∧
      Held kend k₀ { k₁ with mem := k₁.mem.copy r (PTE2PA e) PGSIZE } new r (PTE2PA e) := by
  obtain ⟨h₁, hr, hfresh, hl, hsl, hm⟩ := h.space.kalloc hk
  have hrk : r ∈ k.freelist := by
    rw [hl]
    exact List.mem_cons_self
  have hr₀ := h.free_sub hrk
  have hpe := frameOf_small he
  -- outside the block of `r` nothing changed
  have hout : ∀ x, ¬ (r ≤ x ∧ x < r + PGSIZE) →
      k₁.mem.copy r (PTE2PA e) PGSIZE x = k.mem x := fun x hx => by
    rw [Mem.copy_of_notMem hx, hm, Mem.fill_of_notMem hx]
  refine ⟨⟨h₁.mem _, h.low, h.high, h.slots, fun va hva => ?_, ?_, ?_, h.tables, h.count,
    h.smallcount, h.supercount, fun x hx hx' => ?_⟩, hr, ⟨hfresh.notfree, hfresh.unused⟩,
    fun o ho => ?_⟩
  · rw [← h.bytes va hva]
    exact read_congr h.space.toTree h.space.toTree rfl (fun b x hb hx =>
      hout x (h.space.free_frame (by omega) hb hrk hx))
  · have := h.small
    rwa [hl] at this
  · rw [show ({ k₁ with mem := k₁.mem.copy r (PTE2PA e) PGSIZE } : Kernel).superfreelist =
      k.superfreelist from hsl]
    exact h.super
  · show k₁.mem.copy r (PTE2PA e) PGSIZE x = _
    rw [hout x (hx r hr₀), h.mem x hx hx']
  · have hin : r ≤ r + o ∧ r + o < r + PGSIZE := by
      simp only [PGSIZE]
      omega
    have hsrc : PTE2PA e ≤ PTE2PA e + o ∧ PTE2PA e + o < PTE2PA e + 4096 := by omega
    have hnot : ¬ (r ≤ PTE2PA e + o ∧ PTE2PA e + o < r + PGSIZE) :=
      hp.free_frame hP hpe hr₀ hsrc
    show k₁.mem.copy r (PTE2PA e) PGSIZE (r + o) = _
    rw [Mem.copy_of_mem hin, Nat.add_sub_cancel_left, hm, Mem.fill_of_notMem hnot,
      h.parent hp hP hpe hsrc]

/-- **The first round** also takes the level-1 table. -/
theorem Bare.first (hb : Bare kend new₀) (hp : Space kend k₀ old) {r t : Nat} {e : Pte}
    {k₁ k₂ : Kernel} (he : seen old 0 = some (0, e)) (hk : kalloc k₀ = (some r, k₁))
    (hk₂ : kalloc { k₁ with mem := k₁.mem.copy r (PTE2PA e) PGSIZE } = (some t, k₂)) :
    Copying kend k₀ old new₀ { k₂ with mem := k₂.mem.fill t PGSIZE 0 }
        (new₀.newTable 2 0 t { v := true }) 0 [t] [r] ∧
      Held kend k₀ { k₂ with mem := k₂.mem.fill t PGSIZE 0 }
        (new₀.newTable 2 0 t { v := true }) r (PTE2PA e) := by
  obtain ⟨h₁, hr, hfresh, hl, hsl, hm⟩ := hp.kalloc hk
  obtain ⟨h₂, ht, hfresh₂, hl₂, hsl₂, hm₂⟩ :=
    (h₁.mem (k₁.mem.copy r (PTE2PA e) PGSIZE)).kalloc hk₂
  have hl₂' : k₁.freelist = t :: k₂.freelist := hl₂
  obtain ⟨hS, hseen, hslots⟩ := hb.rooted (h₂.mem (k₂.mem.fill t PGSIZE 0)) ht
  have hr₀ : r ∈ k₀.freelist := by
    rw [hl]
    exact List.mem_cons_self
  have ht₀ : t ∈ k₀.freelist := by
    rw [hl, hl₂']
    exact List.mem_cons_of_mem _ List.mem_cons_self
  have hrt : r ≠ t := by
    have hnd := hp.nodup
    rw [hl, hl₂'] at hnd
    rintro rfl
    simp at hnd
  have hup : 0 < UPAGES := by decide
  have hpe := frameOf_small he
  have hout : ∀ x, ¬ (t ≤ x ∧ x < t + PGSIZE) →
      k₂.mem.fill t PGSIZE 0 x = k₁.mem.copy r (PTE2PA e) PGSIZE x := fun x hx => by
    rw [Mem.fill_of_notMem hx, hm₂, Mem.fill_of_notMem hx]
  have hnil : List.Ico 0 0 = [] := List.Ico.self_empty
  refine ⟨⟨hS, fun q hq => by omega, fun q _ => hseen q, fun j _ hj => hslots j hj,
    fun va hva => by omega, ?_, ?_, rfl, ?_, ?_, ?_, fun x hx hx' => ?_⟩,
    hr, ⟨fun hin => ?_, fun q hq hv => ?_⟩, fun o ho => ?_⟩
  · unfold smallFrames
    rw [hnil, hl, hl₂']
    exact List.Perm.swap t r _
  · unfold superFrames
    rw [hnil]
    exact List.Perm.of_eq (hsl.symm.trans hsl₂.symm)
  · rfl
  · unfold smallFrames smallPages
    rw [hnil, Finset.Ico_self]
    rfl
  · unfold superFrames
    rw [hnil]
    rfl
  · have hxr := hx r hr₀
    show k₂.mem.fill t PGSIZE 0 x = _
    rw [hout x (hx t ht₀), Mem.copy_of_notMem hxr, hm, Mem.fill_of_notMem hxr]
  · refine hfresh.notfree ?_
    rw [hl₂']
    exact List.mem_cons_of_mem _ hin
  · have := hseen q
    rw [seen_small hS.toTree hv, hb.unmapped q hq] at this
    cases this
  · have hra := hr.aligned
    have hta := ht.aligned
    have hin : r ≤ r + o ∧ r + o < r + PGSIZE := by
      simp only [PGSIZE]
      omega
    have hnt : ¬ (t ≤ r + o ∧ r + o < t + PGSIZE) := by
      simp only [PGSIZE]
      omega
    have hnot : ¬ (r ≤ PTE2PA e + o ∧ PTE2PA e + o < r + PGSIZE) :=
      hp.free_frame hup hpe hr₀ (by omega)
    show k₂.mem.fill t PGSIZE 0 (r + o) = _
    rw [hout _ hnt, Mem.copy_of_mem hin, Nat.add_sub_cancel_left, hm,
      Mem.fill_of_notMem hnot]

theorem Copying.table_iff (h : Copying kend k₀ old new₀ k new P ts held)
    (hp : ∀ q, q < P → (seen old q).isSome = true) (hP : P < 262144)
    (hs : superAt old (P / 512) = false) :
    tableAt new (P / 512) = true ↔ P % 512 ≠ 0 := by
  constructor
  · intro htab hal
    have := h.slots (P / 512) (by omega) (by omega)
    rw [(tableAt_iff.mp htab).1] at this
    cases this
  · intro hne
    have hlow := h.low (P - 1) (by omega)
    obtain ⟨e, he⟩ := Option.isSome_iff_exists.mp (hp (P - 1) (by omega))
    have hold : superAt old ((P - 1) / 512) = false := by
      rw [show (P - 1) / 512 = P / 512 by omega]
      exact hs
    -- page `P - 1` is a 4 KB page of the same slot
    have hv : (new.ent 0 (P - 1)).v = true := by
      unfold Super.seen at hlow he
      rw [hold] at hlow he
      simp only [Bool.false_eq_true, if_false] at hlow he
      split at he
      · rename_i hv
        rw [if_pos hv] at hlow
        split at hlow
        · simp [shape] at hlow
        · split at hlow
          · assumption
          · simp at hlow
      · cases he
    have := (h.space.bot (P - 1) hv).1
    rwa [show (P - 1) / 512 = P / 512 by omega] at this

theorem maps_small {r : Nat} {e : Pte} (hr : SmallFrame kend r) (hs : e.s = false)
    (hleaf : e.leaf = true) :
    Maps (PA2PTE r { e.toFlags with v := true }) false r :=
  ⟨rfl, hs, hleaf, PTE2PA_PA2PTE hr.aligned _⟩

theorem maps_super {r : Nat} {e : Pte} (hr : SuperFrame kend r) (hleaf : e.leaf = true) :
    Maps (PA2PTE r { e.toFlags with v := true, s := true }) true r :=
  ⟨rfl, rfl, hleaf, PTE2PA_PA2PTE (by have := hr.aligned; omega) _⟩

/-- **Mapping the held frame**: the child has one page more, or the slot has no
table and no page is left for one. -/
theorem Copying.place {r : Nat} {e : Pte}
    (h : Copying kend k₀ old new₀ k new P ts [r]) (hr : Held kend k₀ k new r (PTE2PA e))
    (hb : Bare kend new₀) (hp : Space kend k₀ old)
    (hmap : ∀ q, q < P → (seen old q).isSome = true) (hP : P < 262144)
    (he : seen old P = some (0, e)) (hev : e.v = true) (hes : e.s = false)
    (hleaf : e.leaf = true) :
    (∃ k' new' ts', mappages k new (P * 4096) PGSIZE r e.toFlags = .ok (k', new', 0) ∧
        Copying kend k₀ old new₀ k' new' (P + 1) (ts' ++ ts) []) ∨
      (P % 512 = 0 ∧ k.freelist = [] ∧
        mappages k new (P * 4096) PGSIZE r e.toFlags = .ok (k, new, -1)) := by
  have hup := UPAGES_eq
  have hs : superAt old (P / 512) = false := by
    rw [superAt_eq_seen, he]
    rfl
  have htable := h.table_iff hmap hP hs
  have hnone : Super.seen new P = none := by
    rw [h.high P (Nat.le_refl _)]
    exact hb.unmapped P (by omega)
  have hM := maps_small hr.frame hes hleaf
  have hflags : (PA2PTE r { e.toFlags with v := true }).toFlags = e.toFlags := by
    rw [PA2PTE_toFlags, ← hev]
  rcases h.space.placeSmall e.toFlags hP hnone hM hr.frame hr.fresh with
    ⟨k', new', ts', hok, hPl⟩ | ⟨htab, hnil, hok⟩
  swap
  · refine .inr ⟨?_, hnil, hok⟩
    by_contra hne
    rw [htable.mpr hne] at htab
    cases htab
  refine .inl ⟨k', new', ts', hok, ?_⟩
  generalize PA2PTE r { e.toFlags with v := true } = e' at *
  have hlow : ∀ q, 0 ≤ q → q < P → Super.seen new' q = Super.seen new q := fun q _ hq => by
    rw [hPl.seen, if_neg (by omega)]
  have hlast : Super.seen new' P = some (0, e') := by rw [hPl.seen, if_pos rfl]
  obtain ⟨hone, hzero⟩ := frames_page hlast
  have hframes : smallFrames new' 0 (P + 1) = smallFrames new 0 P ++ [r] := by
    have hsplit : smallFrames new' 0 (P + 1) =
        smallFrames new' 0 P ++ smallFrames new' P (P + 1) :=
      filterMap_Ico_split _ (Nat.zero_le P) (Nat.le_succ P)
    rw [hsplit, hone, smallFrames_congr hlow, hM.pa]
  have hsupers : superFrames new' 0 (P + 1) = superFrames new 0 P := by
    have hsplit : superFrames new' 0 (P + 1) =
        superFrames new' 0 P ++ superFrames new' P (P + 1) :=
      filterMap_Ico_split _ (Nat.zero_le P) (Nat.le_succ P)
    rw [hsplit, hzero, superFrames_congr hlow, List.append_nil]
  have hts : ∀ t ∈ ts', t ∈ k.freelist := fun t ht => by
    rw [hPl.free]
    exact List.mem_append_left _ ht
  refine ⟨hPl.space, fun q hq => ?_, fun q hq => ?_, fun j hj hj' => ?_, fun va hva => ?_, ?_,
    ?_, ?_, ?_, ?_, ?_, fun x hx hx' => ?_⟩
  · by_cases hqP : q = P
    · rw [hqP, hlast, he]
      simp only [Option.map_some, shape, hflags]
    · rw [hlow q (Nat.zero_le q) (by omega)]
      exact h.low q (by omega)
  · rw [hPl.seen, if_neg (by omega)]
    exact h.high q (by omega)
  · rw [hPl.slots j (by omega)]
    exact h.slots j (by omega) hj'
  · by_cases hvaP : va / 4096 = P
    · -- the new page shows the held frame
      have hlt : va % 4096 < 4096 := Nat.mod_lt _ (by omega)
      have hra := hr.frame.aligned
      rw [hPl.space.toTree.read, hp.toTree.read, hvaP, frameOf_small hlast, frameOf_small he,
        hM.pa]
      simp only [Option.map_some]
      rw [hPl.mem _ (fun t ht hx => ?_), hr.data _ hlt]
      have hta := (h.space.free t (hts t ht)).aligned
      have htr : t = r := by omega
      rw [htr] at ht
      exact hr.fresh.notfree (hts r ht)
    · rw [← h.bytes va (by omega)]
      exact read_congr h.space.toTree hPl.space.toTree (hlow _ (Nat.zero_le _) (by omega))
        (fun b x hb hx => hPl.mem x (fun t ht =>
          h.space.free_frame (by omega) hb (hts t ht) hx))
  · refine h.small.trans ?_
    rw [hframes, hPl.free, List.perm_iff_count]
    intro f
    simp only [List.count_append, List.nil_append]
    omega
  · rw [hsupers, hPl.superfree]
    exact h.super
  · rw [hPl.tables, h.tables, List.append_assoc]
  · rw [List.length_append, h.count, hPl.count, slotTables_small hs]
    by_cases hal : P % 512 = 0
    · rw [if_pos hal, if_neg (fun htab => htable.mp htab hal)]
      omega
    · rw [if_neg hal, if_pos (htable.mpr hal)]
      omega
  · rw [hframes, List.length_append, h.smallcount,
      smallPages_split old (Nat.zero_le P) (Nat.le_succ P), smallPages_one hs]
    rfl
  · rw [hsupers, h.supercount, supersBefore_small hs]
  · rw [hPl.mem x (fun t ht => hx t (h.free_sub (hts t ht))), h.mem x hx hx']

/-- **Giving the held frame back.** -/
theorem Copying.drop {r pa : Nat} (h : Copying kend k₀ old new₀ k new P ts [r])
    (hr : Held kend k₀ k new r pa) (hP : P ≤ UPAGES) :
    ∃ k', kfree kend k r = .ok k' ∧ Copying kend k₀ old new₀ k' new P ts [] := by
  obtain ⟨k', hfree⟩ := hr.frame.kfree k
  have hk := kfree_eq hfree
  have hfl : k'.freelist = r :: k.freelist := by rw [hk]
  have hsfl : k'.superfreelist = k.superfreelist := by rw [hk]
  have hr₀ : r ∈ k₀.freelist :=
    h.small.mem_iff.mpr (List.mem_append_right _ List.mem_cons_self)
  have hout : ∀ x, ¬ (r ≤ x ∧ x < r + PGSIZE) → k'.mem x = k.mem x := fun x hx => by
    rw [hk]
    exact Mem.fill_of_notMem hx
  have hS := h.space
  refine ⟨k', hfree, ⟨⟨hS.toTree, hS.root, fun q hq hv => ?_, hS.smallInj, fun j hj => ?_,
    hS.superInj, fun f hf => ?_, ?_, ?_, ?_, hS.tables⟩, h.low, h.high, h.slots,
    fun va hva => ?_, ?_, ?_, h.tables, h.count, h.smallcount, h.supercount,
    fun x hx hx' => ?_⟩⟩
  · refine ⟨(hS.small q hq hv).1, fun hin => ?_⟩
    rw [hfl] at hin
    rcases List.mem_cons.mp hin with heq | hin
    · exact hr.fresh.unused q hq hv heq
    · exact (hS.small q hq hv).2 hin
  · rw [hsfl]
    exact hS.super j hj
  · rw [hfl] at hf
    rcases List.mem_cons.mp hf with rfl | hf
    · exact hr.frame
    · exact hS.free f hf
  · rw [hfl]
    exact List.nodup_cons.mpr ⟨hr.fresh.notfree, hS.nodup⟩
  · rw [hsfl]
    exact hS.superfree
  · rw [hsfl]
    exact hS.supernodup
  · rw [← h.bytes va hva]
    refine read_congr hS.toTree hS.toTree rfl (fun b x hb hx => hout x (fun hin => ?_))
    have hra := hr.frame.aligned
    simp only [PGSIZE] at hin
    rcases frameOf_cases hb with ⟨hs, rfl⟩ | ⟨-, hv, rfl⟩
    · have h₁ := (hS.super _ hs).1.ram
      have h₂ := hr.frame.hi
      have h₃ := (hS.super _ hs).1.aligned
      simp only [SPLIT, PHYSTOP, SUPERPGSIZE] at h₁ h₂
      omega
    · have h₁ := (hS.small _ (by omega) hv).1.aligned
      exact hr.fresh.unused _ (by omega) hv (by omega)
  · rw [hfl]
    exact h.small
  · rw [hsfl]
    exact h.super
  · rw [hout x (hx r hr₀), h.mem x hx hx']

theorem frameOf_super {q : Nat} {e : Pte} (h : seen pt q = some (1, e)) :
    frameOf pt q = some (PTE2PA e + q % 512 * 4096) := by
  unfold frameOf
  rw [h]
  simp

/-- **A superpage** is copied and mapped in one go: after the first page the
level-1 table is there. -/
theorem Copying.placeSuper {m r : Nat} {k₁ : Kernel}
    (h : Copying kend k₀ old new₀ k new (m * 512) ts []) (hp : Space kend k₀ old)
    (hm : m < 512) (hs : superAt old m = true) (hk : superkalloc k = (some r, k₁)) :
    ∃ k' new', supermappages
        { k₁ with mem := k₁.mem.copy r (PTE2PA (old.ent 1 m)) SUPERPGSIZE } new
        (m * 512 * 4096) SUPERPGSIZE r (old.ent 1 m).toFlags = .ok (k', new', 0) ∧
      Copying kend k₀ old new₀ k' new' (m * 512 + 512) ts [] := by
  have hup := UPAGES_eq
  obtain ⟨hev, hes⟩ := superAt_iff.mp hs
  have hleaf : (old.ent 1 m).leaf = true := by
    rw [← (hp.mid m hev).2]
    exact hes
  have hseenOld : ∀ q, q / 512 = m → Super.seen old q = some (1, old.ent 1 m) := fun q hq => by
    rw [seen_super (by rw [hq]; exact hs), hq]
  generalize old.ent 1 m = e at *
  obtain ⟨h₁, hr, hnf, hunused, hl, hfl, hmem⟩ := h.space.superkalloc hk
  have hrk : r ∈ k.superfreelist := by
    rw [hl]
    exact List.mem_cons_self
  have hr₀ : r ∈ k₀.superfreelist := h.super.mem_iff.mpr (List.mem_append_right _ hrk)
  have hout : ∀ x, ¬ (r ≤ x ∧ x < r + SUPERPGSIZE) →
      k₁.mem.copy r (PTE2PA e) SUPERPGSIZE x = k.mem x := fun x hx => by
    rw [Mem.copy_of_notMem hx, hmem, Mem.fill_of_notMem hx]
  have hM := maps_super hr hleaf
  have hflags : (PA2PTE r { e.toFlags with v := true, s := true }).toFlags = e.toFlags := by
    rw [PA2PTE_toFlags]
    nth_rewrite 1 [← hev]
    rw [← hes]
  obtain ⟨hok, hS, hseen⟩ := (h₁.mem (k₁.mem.copy r (PTE2PA e) SUPERPGSIZE)).placeSuper
    e.toFlags hm (h.slots m (Nat.le_refl _) hm) hM hr hnf hunused
  refine ⟨_, _, hok, ?_⟩
  generalize PA2PTE r { e.toFlags with v := true, s := true } = e' at *
  have hlow : ∀ q, 0 ≤ q → q < m * 512 →
      Super.seen (new.set 1 m e') q = Super.seen new q := fun q _ hq => by
    rw [hseen, if_neg (by omega)]
  have hslot : ∀ q, q / 512 = m → Super.seen (new.set 1 m e') q = some (1, e') :=
    fun q hq => by rw [hseen, if_pos hq]
  obtain ⟨hzero, hone⟩ := frames_slot hslot
  have hframes : smallFrames (new.set 1 m e') 0 (m * 512 + 512) =
      smallFrames new 0 (m * 512) := by
    have hsplit : smallFrames (new.set 1 m e') 0 (m * 512 + 512) =
        smallFrames (new.set 1 m e') 0 (m * 512) ++
          smallFrames (new.set 1 m e') (m * 512) (m * 512 + 512) :=
      filterMap_Ico_split _ (Nat.zero_le _) (Nat.le_add_right _ _)
    rw [hsplit, hzero, smallFrames_congr hlow, List.append_nil]
  have hsupers : superFrames (new.set 1 m e') 0 (m * 512 + 512) =
      superFrames new 0 (m * 512) ++ [r] := by
    have hsplit : superFrames (new.set 1 m e') 0 (m * 512 + 512) =
        superFrames (new.set 1 m e') 0 (m * 512) ++
          superFrames (new.set 1 m e') (m * 512) (m * 512 + 512) :=
      filterMap_Ico_split _ (Nat.zero_le _) (Nat.le_add_right _ _)
    rw [hsplit, hone, superFrames_congr hlow, hM.pa]
  refine ⟨hS, fun q hq => ?_, fun q hq => ?_, fun j hj hj' => ?_, fun va hva => ?_, ?_, ?_,
    h.tables, ?_, ?_, ?_, fun x hx hx' => ?_⟩
  · by_cases hqm : q / 512 = m
    · rw [hslot q hqm, hseenOld q hqm]
      simp only [Option.map_some, shape, hflags]
    · rw [hlow q (Nat.zero_le q) (lt_slot hq hqm)]
      exact h.low q (lt_slot hq hqm)
  · rw [hseen, if_neg (slot_ne hq)]
    exact h.high q (Nat.le_of_add_right_le hq)
  · rw [new.set_ent_of_ne _ (fun hh => (slot_lt hj).ne' hh.2)]
    exact h.slots j (Nat.le_of_add_right_le hj) hj'
  · show read (k₁.mem.copy r (PTE2PA e) SUPERPGSIZE) _ va = _
    by_cases hvam : va / 4096 / 512 = m
    · -- the byte comes from the parent's superpage, at the same offset
      have hlt : va % 4096 < 4096 := Nat.mod_lt _ (by omega)
      have hlt' : va / 4096 % 512 < 512 := Nat.mod_lt _ (by omega)
      have hpe := frameOf_super (hseenOld _ hvam)
      have hin : r ≤ r + va / 4096 % 512 * 4096 + va % 4096 ∧
          r + va / 4096 % 512 * 4096 + va % 4096 < r + SUPERPGSIZE := by
        simp only [SUPERPGSIZE]
        omega
      have hsrc : PTE2PA e + va / 4096 % 512 * 4096 ≤
            PTE2PA e + (r + va / 4096 % 512 * 4096 + va % 4096 - r) ∧
          PTE2PA e + (r + va / 4096 % 512 * 4096 + va % 4096 - r) <
            PTE2PA e + va / 4096 % 512 * 4096 + 4096 := by omega
      have hnot : ¬ (r ≤ PTE2PA e + (r + va / 4096 % 512 * 4096 + va % 4096 - r) ∧
          PTE2PA e + (r + va / 4096 % 512 * 4096 + va % 4096 - r) < r + SUPERPGSIZE) :=
        hp.superfree_frame (show va / 4096 < UPAGES by omega) hpe hr₀ hsrc
      rw [hS.toTree.read, hp.toTree.read, frameOf_super (hslot _ hvam), hpe, hM.pa]
      simp only [Option.map_some]
      rw [Mem.copy_of_mem hin, hmem, Mem.fill_of_notMem hnot,
        h.parent hp (show va / 4096 < UPAGES by omega) hpe hsrc]
      rw [Nat.add_assoc r, Nat.add_sub_cancel_left, Nat.add_assoc]
    · have hva' := lt_slot hva hvam
      rw [← h.bytes va hva']
      exact read_congr h.space.toTree hS.toTree (hlow _ (Nat.zero_le _) hva')
        (fun b x hb hx => hout x (h.space.superfree_frame (by omega) hb hrk hx))
  · rw [hframes]
    show k₀.freelist.Perm (ts ++ smallFrames new 0 (m * 512) ++ ([] ++ k₁.freelist))
    rw [hfl]
    exact h.small
  · have := h.super
    rw [hsupers, List.append_assoc]
    rwa [hl] at this
  · rw [slotTables_super hs]
    exact h.count
  · rw [hframes, h.smallcount, smallPages_split old (Nat.zero_le _) (Nat.le_add_right _ 512),
      smallPages_slot hs]
    rfl
  · rw [hsupers, List.length_append, h.supercount, supersBefore_super hs]
    rfl
  · show k₁.mem.copy r (PTE2PA e) SUPERPGSIZE x = _
    rw [hout x (hx' r hr₀), h.mem x hx hx']

/-! ## The way back -/

/-- What a copy that found too little memory leaves: no user page in the child,
every frame on its free list again except the table pages `ts`. -/
structure Unwound (k₀ : Kernel) (new₀ : PageTable) (k : Kernel) (new : PageTable) :
    Prop where
  tree : Tree new
  child : ∀ q, q < UPAGES → seen new q = none
  small : ∃ ts, new.tables = ts ++ new₀.tables ∧ k₀.freelist.Perm (ts ++ k.freelist)
  super : k₀.superfreelist.Perm k.superfreelist
  mem : ∀ x, (∀ f ∈ k₀.freelist, ¬ (f ≤ x ∧ x < f + PGSIZE)) →
    (∀ f ∈ k₀.superfreelist, ¬ (f ≤ x ∧ x < f + SUPERPGSIZE)) → k.mem x = k₀.mem x

theorem Copying.superAt_eq (h : Copying kend k₀ old new₀ k new P ts held) {q : Nat}
    (hq : q < P) : superAt new (q / 512) = superAt old (q / 512) := by
  have hfst : ∀ o : Option (Nat × Pte), o.map Prod.fst = (o.map shape).map Prod.fst :=
    fun o => by cases o <;> rfl
  rw [superAt_eq_seen, superAt_eq_seen, hfst, hfst, h.low q hq]

/-- `uvmunmap` takes the `P` copied pages away again, and goes on from there. -/
theorem Copying.unmap (h : Copying kend k₀ old new₀ k new P ts held)
    (hmap : ∀ q, q < P → (seen old q).isSome = true) (hon : OnBoundary old P)
    (hP : P ≤ 32768) {last : Nat} (hlast : P ≤ last) :
    ∃ k' new' n, uvmunmapLoop kend k new 0 (last * 4096) true last =
        uvmunmapLoop kend k' new' (P * 4096) (last * 4096) true n ∧
      last ≤ n + P ∧ Freed kend k new k' new' 0 P := by
  have hup := UPAGES_eq
  have hsuper : ∀ j, superAt new j = true → j * 512 < P → superAt old j = true := by
    intro j hj hjP
    have := h.superAt_eq hjP
    rwa [Nat.mul_div_cancel j (by decide), hj, eq_comm] at this
  obtain ⟨k', new', n, hloop, hn, hF⟩ := Space.uvmunmapLoop_through last 0 P last h.space
    (fun q _ hq => by
      have hlow := h.low q hq
      obtain ⟨e, he⟩ := Option.isSome_iff_exists.mp (hmap q hq)
      rw [he] at hlow
      cases hn : Super.seen new q with
      | none =>
          rw [hn] at hlow
          cases hlow
      | some e' => rfl)
    (fun _ _ => rfl)
    (fun j hj hjP => by
      by_contra hend
      have hslot : P / 512 = j := by omega
      have := hon (by rw [hslot]; exact hsuper j hj hjP)
      omega)
    (by omega) (Nat.zero_le P) hlast (by omega)
  rw [Nat.zero_mul] at hloop
  exact ⟨k', new', n, hloop, hn, hF⟩

theorem Copying.unwound (h : Copying kend k₀ old new₀ k new P ts [])
    (hb : Bare kend new₀) (hF : Freed kend k new k' new' 0 P) :
    Unwound k₀ new₀ k' new' := by
  have hsub : ∀ f ∈ smallFrames new 0 P, f ∈ k₀.freelist := fun f hf =>
    h.small.mem_iff.mpr (List.mem_append_left _ (List.mem_append_right _ hf))
  have hsub' : ∀ f ∈ superFrames new 0 P, f ∈ k₀.superfreelist := fun f hf =>
    h.super.mem_iff.mpr (List.mem_append_left _ hf)
  refine ⟨hF.space.toTree, fun q hq => ?_, ⟨ts, hF.tables.trans h.tables, ?_⟩, ?_,
    fun x hx hx' => ?_⟩
  · rw [hF.seen]
    split
    · rfl
    · rw [h.high q (by omega)]
      exact hb.unmapped q hq
  · refine h.small.trans ?_
    rw [List.append_assoc]
    exact List.Perm.append_left ts hF.small.symm
  · exact h.super.trans hF.super.symm
  · rw [hF.mem x (fun f hf => hx f (hsub f hf)) (fun f hf => hx' f (hsub' f hf)),
      h.mem x hx hx']

/-- **The error path at a 4 KB page** unmaps exactly what was copied. -/
theorem Copying.err_small (h : Copying kend k₀ old new₀ k new P ts []) (hb : Bare kend new₀)
    (hmap : ∀ q, q < P → (seen old q).isSome = true) (hon : OnBoundary old P)
    (hP : P ≤ 32768) :
    ∃ k' new', uvmcopyErr kend k old new (P * 4096) PGSIZE = .ok (k', old, new', -1) ∧
      Unwound k₀ new₀ k' new' := by
  obtain ⟨k', new', n, hloop, -, hF⟩ := h.unmap hmap hon hP (Nat.le_refl P)
  refine ⟨k', new', ?_, h.unwound hb hF⟩
  have hpages : (P * 4096 + PGSIZE - 1) / PGSIZE = P := by
    simp only [PGSIZE]
    omega
  unfold uvmcopyErr uvmunmap
  rw [hpages, if_neg (by decide), Nat.zero_add, show P * PGSIZE = P * 4096 from rfl, hloop,
    uvmunmapLoop_of_le kend k' new' (Nat.le_refl _) true n]

/-- **The error path at a superpage** counts pages it did not copy and runs into
the first of them. -/
theorem Copying.err_beyond (h : Copying kend k₀ old new₀ k new P ts [])
    (hb : Bare kend new₀) (hmap : ∀ q, q < P → (seen old q).isSome = true)
    (hal : P % 512 = 0) (hP : P < 32768) {szinc last : Nat}
    (hpages : (P * 4096 + szinc - 1) / PGSIZE = last) (hlt : P < last) :
    uvmcopyErr kend k old new (P * 4096) szinc = .error "uvmunmap: walk" := by
  have hup := UPAGES_eq
  obtain ⟨k', new', n, hloop, hn, hF⟩ := h.unmap hmap (fun _ => hal) hP.le hlt.le
  have hinv : (new.ent 1 (P / 512)).v = false := h.slots _ (by omega) (by omega)
  have htab : tableAt new' (P / 512) = false := by
    rw [hF.table]
    simp [tableAt, hinv]
  have hsup : superAt new' (P / 512) = false := by
    have hnone : Super.seen new' P = none := by
      rw [hF.seen, if_neg (by omega), h.high _ (Nat.le_refl _)]
      exact hb.unmapped _ (by omega)
    rw [superAt_eq_seen new' P, hnone]
    rfl
  have hva : P * 4096 < MAXVA := by
    simp only [MAXVA]
    omega
  obtain ⟨n', rfl⟩ : ∃ n', n = n' + 1 := ⟨n - 1, by omega⟩
  obtain ⟨-, hp₁, -⟩ := vpn_page P
  unfold uvmcopyErr uvmunmap
  rw [hpages, if_neg (by decide), Nat.zero_add, show last * PGSIZE = last * 4096 from rfl,
    hloop, Super.uvmunmapLoop, if_pos (by omega), hF.space.toTree.walk k' hva, hp₁, hsup,
    htab]
  rfl

theorem err_pages (P : Nat) : (P * 4096 + SUPERPGSIZE - 1) / PGSIZE = P + 511 := by
  rw [Nat.add_sub_assoc (by decide), show PGSIZE = 4096 from rfl, Nat.add_comm,
    Nat.add_mul_div_right _ _ (by decide), Nat.add_comm]
  rfl

theorem Copying.err_super (h : Copying kend k₀ old new₀ k new P ts [])
    (hb : Bare kend new₀) (hmap : ∀ q, q < P → (seen old q).isSome = true)
    (hal : P % 512 = 0) (hP : P < 32768) :
    uvmcopyErr kend k old new (P * 4096) SUPERPGSIZE = .error "uvmunmap: walk" :=
  h.err_beyond hb hmap hal hP (err_pages P) (Nat.lt_add_of_pos_right (by decide))

/-! ## The rounds -/

variable {N sz n : Nat}

theorem Parent.le (hp : Parent kend k₀ old N) : N ≤ 32768 := hp.space.pages_le hp.mapped

theorem Parent.entry (hp : Parent kend k₀ old N) (k : Kernel) (hP : P < N)
    (hs : superAt old (P / 512) = false) :
    seen old P = some (0, old.ent 0 P) ∧ (old.ent 0 P).v = true ∧
      (old.ent 0 P).s = false ∧ (old.ent 0 P).leaf = true ∧
      walk k old (P * 4096) false = .ok (k, old, some (0, P)) := by
  have hN := hp.le
  have hv : (old.ent 0 P).v = true := by
    have := hp.mapped P hP
    unfold Super.seen at this
    rw [hs, if_neg Bool.false_ne_true] at this
    by_contra hne
    rw [if_neg hne] at this
    cases this
  obtain ⟨htab, hns, hleaf⟩ := hp.space.bot P hv
  have hva : P * 4096 < MAXVA := by
    simp only [MAXVA]
    omega
  obtain ⟨hp₀, hp₁, -⟩ := vpn_page P
  refine ⟨seen_small hp.space.toTree hv, hv, hns, hleaf, ?_⟩
  rw [hp.space.toTree.walk k hva, hp₀, hp₁, hs, htab]
  rfl

/-- **A round for a 4 KB page** copies it, or memory is short and everything is
undone. -/
theorem Copying.round_small (hp : Parent kend k₀ old N) (hb : Bare kend new₀)
    (h : Copying kend k₀ old new₀ k new P ts []) (hP : P < N) (hlt : P * 4096 < sz)
    (hs : superAt old (P / 512) = false) :
    (∃ k₁ new₁ ts₁, uvmcopyLoop kend k old new (P * 4096) sz (n + 1) =
        uvmcopyLoop kend k₁ old new₁ ((P + 1) * 4096) sz n ∧
      Copying kend k₀ old new₀ k₁ new₁ (P + 1) ts₁ []) ∨
    (k₀.freelist.length < copyNeed old (P + 1) ∧ ∃ k' new',
      uvmcopyLoop kend k old new (P * 4096) sz (n + 1) = .ok (k', old, new', -1) ∧
        Unwound k₀ new₀ k' new') := by
  have hup := UPAGES_eq
  have hN := hp.le
  obtain ⟨he, hev, hes, hleaf, hwalk⟩ := hp.entry k hP hs
  have hmap : ∀ q, q < P → (Super.seen old q).isSome = true := fun q hq =>
    hp.mapped q (by omega)
  have hon : OnBoundary old P := fun hh => by
    rw [hs] at hh
    cases hh
  have hneed : copyNeed old (P + 1) =
      copyNeed old P + 1 + if P % 512 = 0 then 1 else 0 := by
    unfold copyNeed
    rw [slotTables_small hs, smallPages_split old (Nat.zero_le P) (Nat.le_succ P),
      smallPages_one hs]
    omega
  have hlen := h.length
  have hnext : P * 4096 + PGSIZE = (P + 1) * 4096 := (Nat.succ_mul P 4096).symm
  rw [Super.uvmcopyLoop, if_pos hlt, hwalk]
  simp only [hev, hes, Bool.true_eq_false, Bool.false_eq_true, if_false]
  cases hk : kalloc k with
  | mk o k₁ =>
      cases o with
      | none =>
          obtain ⟨rfl, hnil⟩ := kalloc_none hk
          obtain ⟨k', new', herr, hU⟩ := h.err_small hb hmap hon (by omega)
          refine .inr ⟨?_, k', new', herr, hU⟩
          rw [hlen, hneed, hnil]
          simp only [List.length_nil]
          omega
      | some r =>
          obtain ⟨hC, hH⟩ := h.take hp.space (by omega) he hk
          rcases hC.place hH hb hp.space hmap (by omega) he hev hes hleaf with
            ⟨k', new', ts', hok, hC'⟩ | ⟨hal, hnil, hok⟩
          · refine .inl ⟨k', new', _, ?_, hC'⟩
            simp only [hok, ne_eq, not_true_eq_false, if_false, hnext]
          · obtain ⟨k₂, hfree, hC₂⟩ := hC.drop hH (by omega)
            obtain ⟨k', new', herr, hU⟩ := hC₂.err_small hb hmap hon (by omega)
            refine .inr ⟨?_, k', new', ?_, hU⟩
            · rw [hC.length, hneed, hnil, if_pos hal]
              simp only [List.length_nil, List.length_singleton]
              omega
            · simp only [hok, hfree, herr]
              rfl

/-- **The first round.** -/
theorem Bare.round_first (hp : Parent kend k₀ old N) (hb : Bare kend new₀) (hN : 0 < N)
    (hsz : 0 < sz) :
    (∃ k₁ new₁ ts₁, uvmcopyLoop kend k₀ old new₀ 0 sz (n + 1) =
        uvmcopyLoop kend k₁ old new₁ (1 * 4096) sz n ∧
      Copying kend k₀ old new₀ k₁ new₁ 1 ts₁ []) ∨
    (k₀.freelist.length < copyNeed old 1 ∧ ∃ k' new',
      uvmcopyLoop kend k₀ old new₀ 0 sz (n + 1) = .ok (k', old, new', -1) ∧
        Unwound k₀ new₀ k' new') := by
  obtain ⟨he, hev, hes, hleaf, hwalk⟩ := hp.entry k₀ hN hp.first
  have hneed : copyNeed old 1 = 3 := by
    unfold copyNeed
    rw [slotTables_small (P := 0) hp.first, smallPages_one (q := 0) hp.first]
    rfl
  have hnext : 0 + PGSIZE = 1 * 4096 := rfl
  have hnothing : ∀ {k new}, uvmcopyErr kend k old new 0 PGSIZE = .ok (k, old, new, -1) :=
    rfl
  have hself : ∀ {k}, k₀.freelist.Perm k.freelist → k₀.superfreelist = k.superfreelist →
      (∀ x, (∀ f ∈ k₀.freelist, ¬ (f ≤ x ∧ x < f + PGSIZE)) → k.mem x = k₀.mem x) →
      Unwound k₀ new₀ k new₀ := fun hfl hsfl hmem =>
    ⟨hb.toTree, hb.unmapped, ⟨[], rfl, hfl⟩, List.Perm.of_eq hsfl, fun x hx _ => hmem x hx⟩
  rw [Nat.zero_mul] at hwalk
  rw [Super.uvmcopyLoop, if_pos hsz, hwalk]
  simp only [hev, hes, Bool.true_eq_false, Bool.false_eq_true, if_false]
  cases hk : kalloc k₀ with
  | mk o k₁ =>
      cases o with
      | none =>
          obtain ⟨rfl, hnil⟩ := kalloc_none hk
          refine .inr ⟨?_, k₁, new₀, hnothing, hself (List.Perm.refl _) rfl (fun _ _ => rfl)⟩
          rw [hnil, hneed]
          decide
      | some r =>
          obtain ⟨h₁, hr, -, hl, hsl, hm⟩ := hp.space.kalloc hk
          simp only [hb.mappages_zero]
          cases hk₂ : kalloc { k₁ with mem := k₁.mem.copy r (PTE2PA (old.ent 0 0)) PGSIZE } with
          | mk o k₂ =>
              cases o with
              | none =>
                  obtain ⟨rfl, hnil⟩ := kalloc_none hk₂
                  obtain ⟨k', hfree⟩ := hr.kfree
                    { k₁ with mem := k₁.mem.copy r (PTE2PA (old.ent 0 0)) PGSIZE }
                  have hk' := kfree_eq hfree
                  refine .inr ⟨?_, k', new₀, ?_, hself ?_ ?_ (fun x hx => ?_)⟩
                  · have hnil' : k₁.freelist = [] := hnil
                    rw [hneed, hl, hnil', List.length_singleton]
                    decide
                  · simp only [hfree, hnothing]
                    rfl
                  · rw [hl, hk']
                  · rw [hk', hsl]
                  · have hx' := hx r (by rw [hl]; exact List.mem_cons_self)
                    rw [hk']
                    show (k₁.mem.copy r _ PGSIZE).fill r PGSIZE 1 x = _
                    rw [Mem.fill_of_notMem hx', Mem.copy_of_notMem hx', hm,
                      Mem.fill_of_notMem hx']
              | some t =>
                  obtain ⟨hC, hH⟩ := hb.first hp.space he hk hk₂
                  rcases hC.place hH hb hp.space (fun q hq => by omega) (by omega) he hev hes
                    hleaf with ⟨k', new', ts', hok, hC'⟩ | ⟨-, hnil, hok⟩
                  · rw [Nat.zero_mul] at hok
                    refine .inl ⟨k', new', _, ?_, hC'⟩
                    simp only [hok, ne_eq, not_true_eq_false, if_false, hnext]
                  · rw [Nat.zero_mul] at hok
                    obtain ⟨k₃, hfree, hC₃⟩ := hC.drop hH (Nat.zero_le _)
                    obtain ⟨k', new', herr, hU⟩ := hC₃.err_small hb (fun q hq => by omega)
                      (fun _ => rfl) (Nat.zero_le _)
                    rw [Nat.zero_mul] at herr
                    refine .inr ⟨?_, k', new', ?_, hU⟩
                    · have hnil' : k₂.freelist = [] := hnil
                      have hlen := hC.small.length_eq
                      simp only [List.length_append, List.length_singleton,
                        hC.smallcount] at hlen
                      rw [hneed, hlen, smallPages_of_le (Nat.le_refl 0), hnil']
                      decide
                    · simp only [hok, hfree, herr]
                      rfl

/-- **A round for a superpage** copies it, or there is none left and the kernel
panics. -/
theorem Copying.round_super (hp : Parent kend k₀ old N) (hb : Bare kend new₀)
    (h : Copying kend k₀ old new₀ k new P ts []) (hP : P < N) (hlt : P * 4096 < sz)
    (hs : superAt old (P / 512) = true) (hal : P % 512 = 0) :
    (∃ k₁ new₁, uvmcopyLoop kend k old new (P * 4096) sz (n + 1) =
        uvmcopyLoop kend k₁ old new₁ ((P + 512) * 4096) sz n ∧
      Copying kend k₀ old new₀ k₁ new₁ (P + 512) ts []) ∨
    (k.superfreelist = [] ∧ uvmcopyLoop kend k old new (P * 4096) sz (n + 1) =
      .error "uvmunmap: walk") := by
  have hN := hp.le
  have hmap : ∀ q, q < P → (Super.seen old q).isSome = true := fun q hq =>
    hp.mapped q (by omega)
  have herr := h.err_super hb hmap hal (by omega)
  have hslot : P / 512 * 512 = P := by omega
  obtain ⟨hev, hes⟩ := superAt_iff.mp hs
  have hva : P * 4096 < MAXVA := by
    simp only [MAXVA]
    omega
  obtain ⟨-, hp₁, -⟩ := vpn_page P
  have hnext : P * 4096 + SUPERPGSIZE = (P + 512) * 4096 := by
    rw [Nat.add_mul]
    rfl
  rw [Super.uvmcopyLoop, if_pos hlt, hp.space.toTree.walk k hva, hp₁, if_pos hs]
  simp only [hev, hes, Bool.true_eq_false, if_false, if_true]
  cases hk : superkalloc k with
  | mk o k₁ =>
      cases o with
      | none =>
          obtain ⟨rfl, hnil⟩ := superkalloc_none hk
          exact .inr ⟨hnil, herr⟩
      | some r =>
          have hC := h
          rw [← hslot] at hC
          obtain ⟨k', new', hok, hC'⟩ := hC.placeSuper hp.space (by omega) hs hk
          rw [hslot] at hok hC'
          refine .inl ⟨k', new', ?_, hC'⟩
          simp only [hok, ne_eq, not_true_eq_false, if_false, hnext]

end Copying

/-! ## The loop -/

/-- How `uvmcopy` of `N` pages can end. -/
inductive Outcome (kend : Nat) (k₀ : Kernel) (old new₀ : PageTable) (N : Nat) :
    Except String (Kernel × PageTable × PageTable × Int) → Prop
  | done {k : Kernel} {new : PageTable} {ts : List Nat}
      (h : Copying kend k₀ old new₀ k new N ts []) :
      Outcome kend k₀ old new₀ N (.ok (k, old, new, 0))
  | failed {k : Kernel} {new : PageTable} (Q : Nat) (hQ : Q < N)
      (hs : superAt old (Q / 512) = false)
      (short : k₀.freelist.length < copyNeed old (Q + 1))
      (supers : supersBefore old Q ≤ k₀.superfreelist.length)
      (h : Unwound k₀ new₀ k new) : Outcome kend k₀ old new₀ N (.ok (k, old, new, -1))
  | panicked (j : Nat) (hj : j * 512 < N) (hs : superAt old j = true)
      (short : k₀.superfreelist.length ≤ supersBefore old (j * 512))
      (reached : copyNeed old (j * 512) ≤ k₀.freelist.length) :
      Outcome kend k₀ old new₀ N (.error "uvmunmap: walk")

/-- **The loop of `uvmcopy`** after the first page. -/
theorem Parent.uvmcopyLoop {N sz : Nat} (hp : Parent kend k₀ old N) (hb : Bare kend new₀)
    (hsz : N = pages sz) (n : Nat) : ∀ {k : Kernel} {new : PageTable} {P : Nat}
    {ts : List Nat}, Copying kend k₀ old new₀ k new P ts [] → P ≤ N → OnBoundary old P →
    N ≤ P + n → Outcome kend k₀ old new₀ N (uvmcopyLoop kend k old new (P * 4096) sz n) := by
  induction n with
  | zero =>
      intro k new P ts h hle _ hn
      obtain rfl : P = N := by omega
      exact .done h
  | succ n ih =>
      intro k new P ts h hle hon hn
      by_cases hlt : P * 4096 < sz
      swap
      · have hPN : P = N := by
          have := mt lt_pages.mp hlt
          omega
        subst hPN
        rw [Super.uvmcopyLoop, if_neg hlt]
        exact .done h
      have hP : P < N := by
        rw [hsz]
        exact lt_pages.mpr hlt
      by_cases hs : superAt old (P / 512) = true
      · have hal := hon hs
        have hslot : P / 512 * 512 = P := by omega
        have hend := hp.inside _ hs (by rw [hslot]; exact hP)
        rw [hslot] at hend
        rcases Copying.round_super (n := n) hp hb h hP hlt hs hal with
          ⟨k₁, new₁, heq, hC⟩ | ⟨hnil, heq⟩
        · rw [heq]
          exact ih hC (by omega) (fun _ => by omega) (by omega)
        · have hlen := h.length
          have hslen := h.superlength
          rw [hnil] at hslen
          rw [heq]
          refine .panicked (P / 512) (by rw [hslot]; exact hP) hs ?_ ?_
          · rw [hslot, hslen]
            exact Nat.le_refl _
          · rw [hslot, hlen]
            omega
      · have hs' : superAt old (P / 512) = false := by simpa using hs
        rcases Copying.round_small (n := n) hp hb h hP hlt hs' with
          ⟨k₁, new₁, ts₁, heq, hC⟩ | ⟨hshort, k', new', heq, hU⟩
        · rw [heq]
          refine ih hC (by omega) (fun hh => ?_) (by omega)
          by_contra hne
          rw [show (P + 1) / 512 = P / 512 by omega, hs'] at hh
          cases hh
        · rw [heq]
          refine .failed P hP hs' hshort ?_ hU
          rw [h.superlength]
          omega

/-- **How `uvmcopy` ends**, for a parent of at least one page. -/
theorem Parent.uvmcopy {N sz : Nat} (hp : Parent kend k₀ old N) (hb : Bare kend new₀)
    (hsz : N = pages sz) (hpos : 0 < sz) :
    Outcome kend k₀ old new₀ N (uvmcopy kend k₀ old new₀ sz) := by
  have hN : 0 < N := by
    rw [hsz]
    exact lt_pages.mpr (by omega)
  have hfuel : PGROUNDUP sz / PGSIZE = N := by
    rw [hsz, PGROUNDUP_eq]
    exact Nat.mul_div_cancel _ (by decide)
  obtain ⟨n, rfl⟩ : ∃ n, N = n + 1 := ⟨N - 1, by omega⟩
  unfold Super.uvmcopy
  rw [hfuel]
  rcases hb.round_first (n := n) hp hN hpos with
    ⟨k₁, new₁, ts₁, heq, hC⟩ | ⟨hshort, k', new', heq, hU⟩
  · rw [heq]
    refine hp.uvmcopyLoop hb hsz n hC hN (fun hh => ?_) (by omega)
    rw [show superAt old (1 / 512) = false from hp.first] at hh
    cases hh
  · rw [heq]
    exact .failed 0 hN hp.first hshort (Nat.zero_le _) hU

end Xv6Labs.Super
