import Xv6Labs.Lib.Count
import Xv6Labs.Super.Unmap
import Xv6Labs.Super.Kalloc

/-!
# Who owns which page

While the kernel works on one page table a page is on a free list, in the table, or in
hand: taken by `kalloc`, with no entry pointing at it yet. `Books` is such a moment, and
`Books.small x`, `Books.super x` count how often the page `x` occurs in all three
places. Every piece of `vm.c` only moves pages between them (`Moves`): the counts stay,
and no byte outside the counted pages changes.

Nothing here asks that the size of the process and its page table agree, so the moves
hold for calls that leave a process damaged too.
-/

namespace Xv6Labs.Super

open Xv6Labs.Lib

/-! ## Counting the pages of a table -/

def tablePage (pt : PageTable) (j : Nat) : Option Nat :=
  if tableAt pt j then some (PTE2PA (pt.ent 1 j)) else none

def superPage (pt : PageTable) (j : Nat) : Option Nat :=
  if superAt pt j then some (PTE2PA (pt.ent 1 j)) else none

def tableCount (pt : PageTable) (x : Nat) : Nat :=
  (if pt.tables.getLastD 0 = x then 1 else 0) + hits 512 (fun i => (pt.ent 2 i).frame) x +
    hits 262144 (tablePage pt) x

def pageCount (pt : PageTable) (x : Nat) : Nat :=
  hits UPAGES (fun q => (pt.ent 0 q).frame) x

def superCount (pt : PageTable) (x : Nat) : Nat := hits 262144 (superPage pt) x

/-- The kernel at work on a page table. -/
structure Books where
  k : Kernel
  pt : PageTable
  /-- pages from `kalloc` that nothing points at -/
  hand : List Nat
  /-- the same for `superkalloc` -/
  superhand : List Nat

namespace Books

def small (b : Books) (x : Nat) : Nat :=
  b.hand.count x + b.k.freelist.count x + tableCount b.pt x + pageCount b.pt x

def super (b : Books) (x : Nat) : Nat :=
  b.superhand.count x + b.k.superfreelist.count x + superCount b.pt x

def owns (b : Books) (x : Nat) : Prop :=
  (∃ f, 0 < b.small f ∧ Block.has (f, PGSIZE) x) ∨
    ∃ f, 0 < b.super f ∧ Block.has (f, SUPERPGSIZE) x

end Books

/-- The page table is a tree, its first slot is no superpage, and every page lies where
its allocator has it. -/
structure Kept (kend : Nat) (b : Books) : Prop where
  tree : Tree b.pt
  rooted : b.pt.tables ≠ []
  range : ∀ i, (b.pt.ent 2 i).v = true → i < 512
  first : superAt b.pt 0 = false
  small : ∀ x, 0 < b.small x → SmallFrame kend x
  super : ∀ x, 0 < b.super x → SuperFrame kend x

/-- Pages change places, and bytes change in them only. -/
structure Moves (kend : Nat) (b b' : Books) : Prop where
  kept : Kept kend b'
  small : ∀ x, b'.small x = b.small x
  super : ∀ x, b'.super x = b.super x
  mem : ∀ x, ¬ b.owns x → b'.k.mem x = b.k.mem x
  /-- level-0 tables stay -/
  table : ∀ j, tableAt b.pt j = true → tableAt b'.pt j = true
  /-- so do the pages the kernel maps for itself -/
  high : ∀ q, UPAGES ≤ q → (b.pt.ent 0 q).v = true → b'.pt.ent 0 q = b.pt.ent 0 q

variable {kend : Nat} {b b' b'' : Books} {k k' : Kernel} {pt pt' : PageTable}
  {hand superhand : List Nat} {r : Nat}

theorem Moves.owns (h : Moves kend b b') (x : Nat) : b'.owns x ↔ b.owns x := by
  unfold Books.owns
  simp only [h.small, h.super]

theorem Moves.refl (h : Kept kend b) : Moves kend b b :=
  ⟨h, fun _ => rfl, fun _ => rfl, fun _ _ => rfl, fun _ hj => hj, fun _ _ _ => rfl⟩

theorem Moves.trans (h : Moves kend b b') (h' : Moves kend b' b'') : Moves kend b b'' := by
  refine ⟨h'.kept, fun x => ?_, fun x => ?_, fun x hx => ?_, fun j hj => ?_,
    fun q hq hv => ?_⟩
  · rw [h'.small, h.small]
  · rw [h'.super, h.super]
  · rw [h'.mem x (fun ho => hx ((h.owns x).mp ho)), h.mem x hx]
  · exact h'.table j (h.table j hj)
  · have he := h.high q hq hv
    rw [h'.high q hq (by rw [he]; exact hv), he]

/-! ## The four calls of `kalloc.c` -/

theorem Kept.shuffle (h : Kept kend ⟨k, pt, hand, superhand⟩) {hand' superhand' : List Nat}
    (hsmall : ∀ x, hand'.count x + k'.freelist.count x = hand.count x + k.freelist.count x)
    (hsuper : ∀ x, superhand'.count x + k'.superfreelist.count x =
      superhand.count x + k.superfreelist.count x)
    (hmem : ∀ x, ¬ Books.owns ⟨k, pt, hand, superhand⟩ x → k'.mem x = k.mem x) :
    Moves kend ⟨k, pt, hand, superhand⟩ ⟨k', pt, hand', superhand'⟩ := by
  have hs : ∀ x, Books.small ⟨k', pt, hand', superhand'⟩ x =
      Books.small ⟨k, pt, hand, superhand⟩ x := by
    intro x
    simp only [Books.small]
    rw [hsmall x]
  have hS : ∀ x, Books.super ⟨k', pt, hand', superhand'⟩ x =
      Books.super ⟨k, pt, hand, superhand⟩ x := by
    intro x
    simp only [Books.super]
    rw [hsuper x]
  refine ⟨⟨h.tree, h.rooted, h.range, h.first, fun x hx => ?_, fun x hx => ?_⟩, hs, hS, hmem,
    fun _ hj => hj, fun _ _ _ => rfl⟩
  · rw [hs] at hx
    exact h.small x hx
  · rw [hS] at hx
    exact h.super x hx

theorem Books.owns_hand (hr : r ∈ b.hand) {x : Nat} (hx : Block.has (r, PGSIZE) x) :
    b.owns x := by
  refine .inl ⟨r, ?_, hx⟩
  have := List.count_pos_iff.mpr hr
  unfold Books.small
  omega

theorem Books.owns_superhand (hr : r ∈ b.superhand) {x : Nat}
    (hx : Block.has (r, SUPERPGSIZE) x) : b.owns x := by
  refine .inr ⟨r, ?_, hx⟩
  have := List.count_pos_iff.mpr hr
  unfold Books.super
  omega

theorem Books.owns_free (hr : r ∈ b.k.freelist) {x : Nat} (hx : Block.has (r, PGSIZE) x) :
    b.owns x := by
  refine .inl ⟨r, ?_, hx⟩
  have := List.count_pos_iff.mpr hr
  unfold Books.small
  omega

theorem Books.owns_superfree (hr : r ∈ b.k.superfreelist) {x : Nat}
    (hx : Block.has (r, SUPERPGSIZE) x) : b.owns x := by
  refine .inr ⟨r, ?_, hx⟩
  have := List.count_pos_iff.mpr hr
  unfold Books.super
  omega

theorem Kept.kalloc (h : Kept kend ⟨k, pt, hand, superhand⟩)
    (hk : kalloc k = (some r, k')) :
    Moves kend ⟨k, pt, hand, superhand⟩ ⟨k', pt, r :: hand, superhand⟩ := by
  obtain ⟨hl, hsl, hm⟩ := kalloc_some hk
  refine h.shuffle (fun x => ?_) (fun x => by rw [hsl]) (fun x hx => ?_)
  · rw [hl, List.count_cons, List.count_cons]
    omega
  · rw [hm]
    refine Mem.fill_of_notMem (fun hin => hx (Books.owns_free ?_ hin))
    show r ∈ k.freelist
    rw [hl]
    exact List.mem_cons_self

theorem Kept.superkalloc (h : Kept kend ⟨k, pt, hand, superhand⟩)
    (hk : superkalloc k = (some r, k')) :
    Moves kend ⟨k, pt, hand, superhand⟩ ⟨k', pt, hand, r :: superhand⟩ := by
  obtain ⟨hsl, hl, hm⟩ := superkalloc_some hk
  refine h.shuffle (fun x => by rw [hl]) (fun x => ?_) (fun x hx => ?_)
  · rw [hsl, List.count_cons, List.count_cons]
    omega
  · rw [hm]
    refine Mem.fill_of_notMem (fun hin => hx (Books.owns_superfree ?_ hin))
    show r ∈ k.superfreelist
    rw [hsl]
    exact List.mem_cons_self

theorem Kept.kfree (h : Kept kend ⟨k, pt, r :: hand, superhand⟩)
    (hk : kfree kend k r = .ok k') :
    Moves kend ⟨k, pt, r :: hand, superhand⟩ ⟨k', pt, hand, superhand⟩ := by
  obtain rfl := kfree_eq hk
  refine h.shuffle (fun x => ?_) (fun x => rfl) (fun x hx => ?_)
  · rw [List.count_cons, List.count_cons]
    omega
  · refine Mem.fill_of_notMem (fun hin => hx (Books.owns_hand ?_ hin))
    exact List.mem_cons_self

theorem Kept.superkfree (h : Kept kend ⟨k, pt, hand, r :: superhand⟩)
    (hk : superkfree kend k r = .ok k') :
    Moves kend ⟨k, pt, hand, r :: superhand⟩ ⟨k', pt, hand, superhand⟩ := by
  obtain rfl := superkfree_eq hk
  refine h.shuffle (fun x => rfl) (fun x => ?_) (fun x hx => ?_)
  · rw [List.count_cons, List.count_cons]
    omega
  · refine Mem.fill_of_notMem (fun hin => hx (Books.owns_superhand ?_ hin))
    exact List.mem_cons_self

theorem Kept.write (h : Kept kend ⟨k, pt, hand, superhand⟩) {m : Mem}
    (hm : ∀ x, m x ≠ k.mem x → Books.owns ⟨k, pt, hand, superhand⟩ x) :
    Moves kend ⟨k, pt, hand, superhand⟩ ⟨{ k with mem := m }, pt, hand, superhand⟩ := by
  refine h.shuffle (fun x => rfl) (fun x => rfl) (fun x hx => ?_)
  by_contra hne
  exact hx (hm x hne)

/-! ## The page table changes -/

theorem Kept.aligned (h : Kept kend ⟨k, pt, r :: hand, superhand⟩) : r % 4096 = 0 := by
  refine (h.small r ?_).aligned
  simp [Books.small]

theorem Kept.superaligned (h : Kept kend ⟨k, pt, hand, r :: superhand⟩) : r % 4096 = 0 := by
  have := (h.super r (by simp [Books.super])).aligned
  omega

theorem Kept.retable (h : Kept kend ⟨k, pt, hand, superhand⟩) {hand' superhand' : List Nat}
    (htree : Tree pt') (hroot : pt'.tables ≠ [])
    (hrange : ∀ i, (pt'.ent 2 i).v = true → i < 512) (hfirst : superAt pt' 0 = false)
    (htable : ∀ j, tableAt pt j = true → tableAt pt' j = true)
    (hhigh : ∀ q, UPAGES ≤ q → (pt.ent 0 q).v = true → pt'.ent 0 q = pt.ent 0 q)
    (hsmall : ∀ x, hand'.count x + (tableCount pt' x + pageCount pt' x) =
      hand.count x + (tableCount pt x + pageCount pt x))
    (hsuper : ∀ x, superhand'.count x + superCount pt' x =
      superhand.count x + superCount pt x) :
    Moves kend ⟨k, pt, hand, superhand⟩ ⟨k, pt', hand', superhand'⟩ := by
  have hs : ∀ x, Books.small ⟨k, pt', hand', superhand'⟩ x =
      Books.small ⟨k, pt, hand, superhand⟩ x := by
    intro x
    have := hsmall x
    simp only [Books.small]
    omega
  have hS : ∀ x, Books.super ⟨k, pt', hand', superhand'⟩ x =
      Books.super ⟨k, pt, hand, superhand⟩ x := by
    intro x
    have := hsuper x
    simp only [Books.super]
    omega
  refine ⟨⟨htree, hroot, hrange, hfirst, fun x hx => ?_, fun x hx => ?_⟩, hs, hS,
    fun _ _ => rfl, htable, hhigh⟩
  · rw [hs] at hx
    exact h.small x hx
  · rw [hS] at hx
    exact h.super x hx

theorem tablePage_congr {j : Nat} (h : pt'.ent 1 j = pt.ent 1 j) :
    tablePage pt' j = tablePage pt j := by
  unfold tablePage tableAt
  rw [h]

theorem superPage_congr {j : Nat} (h : pt'.ent 1 j = pt.ent 1 j) :
    superPage pt' j = superPage pt j := by
  unfold superPage superAt
  rw [h]

theorem tablePage_none {j : Nat} (h : tableAt pt j = false) : tablePage pt j = none := by
  unfold tablePage
  rw [h, if_neg Bool.false_ne_true]

theorem superPage_none {j : Nat} (h : superAt pt j = false) : superPage pt j = none := by
  unfold superPage
  rw [h, if_neg Bool.false_ne_true]

theorem not_table_of_invalid {j : Nat} (h : (pt.ent 1 j).v = false) :
    tableAt pt j = false := by
  unfold tableAt
  rw [h, Bool.false_and]

theorem not_super_of_invalid {j : Nat} (h : (pt.ent 1 j).v = false) :
    superAt pt j = false := by
  unfold superAt
  rw [h, Bool.false_and]

theorem not_super_of_table {j : Nat} (h : tableAt pt j = true) : superAt pt j = false := by
  unfold superAt
  rw [(tableAt_iff.mp h).2, Bool.and_false]

theorem Tree.bot_none (h : Tree pt) {j q : Nat} (hj : tableAt pt j = false)
    (hq : q / 512 = j) : (pt.ent 0 q).v = false := by
  by_contra hne
  have ht := (h.bot q (by simpa using hne)).1
  rw [hq, hj] at ht
  cases ht

theorem newTable_last (hne : pt.tables ≠ []) (level j : Nat) (flags : Flags) :
    (pt.newTable level j r flags).tables.getLastD 0 = pt.tables.getLastD 0 := by
  rw [PageTable.newTable_tables]
  cases hl : pt.tables with
  | nil => exact absurd hl hne
  | cons t ts => simp

/-- **A new level-0 table.** -/
theorem Kept.newTable_one (h : Kept kend ⟨k, pt, r :: hand, superhand⟩) {j : Nat}
    (hj : j < 262144) (habove : (pt.ent 2 (j / 512)).v = true)
    (hinv : (pt.ent 1 j).v = false) :
    Moves kend ⟨k, pt, r :: hand, superhand⟩
      ⟨k, pt.newTable 1 j r { v := true }, hand, superhand⟩ := by
  have hr := h.aligned
  obtain ⟨hT, -, htab⟩ := h.tree.newTable_one r habove hinv
  obtain ⟨e₂, e₁, e₁', e₀, e₀'⟩ := newTable_one_ent pt j r { v := true }
  have hlast := newTable_last (r := r) h.rooted 1 j { v := true }
  have hroot : (pt.newTable 1 j r { v := true }).tables ≠ [] := by simp
  generalize pt.newTable 1 j r { v := true } = new at *
  have hold := not_table_of_invalid hinv
  refine h.retable hT hroot (fun i hv => h.range i (by rw [← e₂]; exact hv)) ?_
    (fun j' hj' => ?_) (fun q hq hv => ?_) (fun x => ?_) (fun x => ?_)
  · by_cases h0 : 0 = j
    · rw [h0]
      exact not_super_of_table htab
    · unfold superAt
      rw [e₁' 0 h0]
      exact h.first
  · have hne : j' ≠ j := by
      rintro rfl
      rw [hold] at hj'
      cases hj'
    unfold tableAt
    rw [e₁' j' hne]
    exact hj'
  · refine e₀' q (fun hqj => ?_)
    rw [h.tree.bot_none hold hqj] at hv
    cases hv
  · have hmid := hits_write hj (f := tablePage pt) (g := tablePage new)
      (fun j' hne => tablePage_congr (e₁' j' hne)) x
    rw [tablePage_none hold, if_neg (by simp)] at hmid
    have hnew : tablePage new j = some r := by
      unfold tablePage
      rw [if_pos htab, e₁, PTE2PA_PA2PTE hr]
    rw [hnew] at hmid
    have htop : ∀ x, hits 512 (fun i => (new.ent 2 i).frame) x =
        hits 512 (fun i => (pt.ent 2 i).frame) x := fun x =>
      hits_congr (fun i _ => by rw [e₂]) x
    have hbot : pageCount new x = pageCount pt x := by
      refine hits_congr (fun q _ => ?_) x
      by_cases hqj : q / 512 = j
      · rw [e₀ q hqj, frame_none (h.tree.bot_none hold hqj)]
        rfl
      · rw [e₀' q hqj]
    unfold tableCount
    rw [hlast, htop, hbot, List.count_cons]
    simp only [Option.some.injEq, beq_iff_eq] at hmid ⊢
    omega
  · have hcongr : superCount new x = superCount pt x := by
      refine hits_congr (fun j' _ => ?_) x
      by_cases hne : j' = j
      · subst hne
        rw [superPage_none (not_super_of_table htab),
          superPage_none (not_super_of_invalid hinv)]
      · exact superPage_congr (e₁' j' hne)
    rw [hcongr]

theorem Tree.mid_none (h : Tree pt) {i j : Nat} (hi : (pt.ent 2 i).v = false)
    (hj : j / 512 = i) : (pt.ent 1 j).v = false := by
  by_contra hne
  have hv := (h.mid j (by simpa using hne)).1
  rw [hj, hi] at hv
  cases hv

/-- **A new level-1 table.** -/
theorem Kept.newTable_two (h : Kept kend ⟨k, pt, r :: hand, superhand⟩) {i : Nat}
    (hi : i < 512) (hinv : (pt.ent 2 i).v = false) :
    Moves kend ⟨k, pt, r :: hand, superhand⟩
      ⟨k, pt.newTable 2 i r { v := true }, hand, superhand⟩ := by
  have hr := h.aligned
  obtain ⟨hT, -⟩ := h.tree.newTable_two r hinv
  obtain ⟨e₂, e₂', e₁, e₁', e₀⟩ := newTable_two_ent pt i r { v := true }
  have hlast := newTable_last (r := r) h.rooted 2 i { v := true }
  have hroot : (pt.newTable 2 i r { v := true }).tables ≠ [] := by simp
  generalize pt.newTable 2 i r { v := true } = new at *
  have htable : ∀ j, tableAt new j = tableAt pt j := by
    intro j
    by_cases hj : j / 512 = i
    · rw [not_table_of_invalid (h.tree.mid_none hinv hj),
        not_table_of_invalid (by rw [e₁ j hj]; rfl)]
    · unfold tableAt
      rw [e₁' j hj]
  have hsuper : ∀ j, superAt new j = superAt pt j := by
    intro j
    by_cases hj : j / 512 = i
    · rw [not_super_of_invalid (h.tree.mid_none hinv hj),
        not_super_of_invalid (by rw [e₁ j hj]; rfl)]
    · unfold superAt
      rw [e₁' j hj]
  have hent : ∀ j, (pt.ent 1 j).v = true → new.ent 1 j = pt.ent 1 j := by
    intro j hv
    refine e₁' j (fun hj => ?_)
    rw [h.tree.mid_none hinv hj] at hv
    cases hv
  refine h.retable hT hroot (fun i' hv => ?_) ?_ (fun j hj => ?_) (fun q _ _ => e₀ q)
    (fun x => ?_) (fun x => ?_)
  · by_cases hne : i' = i
    · rw [hne]
      exact hi
    · rw [e₂' i' hne] at hv
      exact h.range i' hv
  · rw [hsuper]
    exact h.first
  · rw [htable]
    exact hj
  · have htop := hits_write hi (f := fun i => (pt.ent 2 i).frame)
      (g := fun i => (new.ent 2 i).frame) (fun i' hne => by rw [e₂' i' hne]) x
    have hnew : (PA2PTE r { v := true }).frame = some r := by
      rw [Pte.frame_of_v rfl, PTE2PA_PA2PTE hr]
    rw [frame_none hinv, if_neg (by simp), e₂, hnew] at htop
    have hmid : hits 262144 (tablePage new) x = hits 262144 (tablePage pt) x := by
      refine hits_congr (fun j _ => ?_) x
      unfold tablePage
      rw [htable]
      split
      · rename_i hj
        rw [hent j (tableAt_iff.mp hj).1]
      · rfl
    have hbot : pageCount new x = pageCount pt x :=
      hits_congr (fun q _ => by rw [e₀]) x
    unfold tableCount
    rw [hlast, hmid, hbot, List.count_cons]
    simp only [Option.some.injEq, beq_iff_eq] at htop ⊢
    omega
  · have hcongr : superCount new x = superCount pt x := by
      refine hits_congr (fun j _ => ?_) x
      unfold superPage
      rw [hsuper]
      split
      · rename_i hj
        rw [hent j (superAt_iff.mp hj).1]
      · rfl
    rw [hcongr]

theorem counts_set_bot (pt : PageTable) (q : Nat) (e : Pte) (x : Nat) :
    tableCount (pt.set 0 q e) x = tableCount pt x ∧
      superCount (pt.set 0 q e) x = superCount pt x := by
  have e₂ : ∀ i, (pt.set 0 q e).ent 2 i = pt.ent 2 i := fun i => by simp
  have e₁ : ∀ j, (pt.set 0 q e).ent 1 j = pt.ent 1 j := fun j => by simp
  refine ⟨?_, hits_congr (fun j _ => superPage_congr (e₁ j)) x⟩
  have hmid : hits 262144 (tablePage (pt.set 0 q e)) x = hits 262144 (tablePage pt) x :=
    hits_congr (fun j _ => tablePage_congr (e₁ j)) x
  simp only [tableCount, hmid, e₂]
  rfl

theorem pageCount_set {q : Nat} (hq : q < UPAGES) (e : Pte) (x : Nat) :
    pageCount (pt.set 0 q e) x + (if (pt.ent 0 q).frame = some x then 1 else 0) =
      pageCount pt x + (if e.frame = some x then 1 else 0) := by
  have h := hits_write hq (f := fun q => (pt.ent 0 q).frame)
    (g := fun q' => ((pt.set 0 q e).ent 0 q').frame)
    (fun q' hne => by rw [pt.set_ent_of_ne e (fun hh => hne hh.2)]) x
  rwa [PageTable.set_ent_self] at h

theorem Kept.set_bot (h : Kept kend ⟨k, pt, hand, superhand⟩) {q : Nat} {e : Pte}
    {hand' : List Nat} (hq : q < UPAGES) (htab : tableAt pt (q / 512) = true)
    (he : e.v = true → e.s = false ∧ e.leaf = true)
    (hcount : ∀ x, hand'.count x + (if e.frame = some x then 1 else 0) =
      hand.count x + (if (pt.ent 0 q).frame = some x then 1 else 0)) :
    Moves kend ⟨k, pt, hand, superhand⟩ ⟨k, pt.set 0 q e, hand', superhand⟩ := by
  have e₁ : ∀ j, (pt.set 0 q e).ent 1 j = pt.ent 1 j := fun j => by simp
  refine h.retable (h.tree.set_bot htab he).1 h.rooted
    (fun i hv => h.range i (by simpa using hv)) ?_ (fun j hj => ?_)
    (fun q' hq' _ => pt.set_ent_of_ne e (fun hh => by omega)) (fun x => ?_) (fun x => ?_)
  · unfold superAt
    rw [e₁]
    exact h.first
  · unfold tableAt
    rw [e₁]
    exact hj
  · have h₁ : pageCount (pt.set 0 q e) x + _ = pageCount pt x + _ := pageCount_set hq e x
    have h₂ := hcount x
    rw [(counts_set_bot pt q e x).1]
    omega
  · rw [(counts_set_bot pt q e x).2]

/-- **A page is mapped.** -/
theorem Kept.setPage (h : Kept kend ⟨k, pt, r :: hand, superhand⟩) {q : Nat} {perm : Flags}
    (hq : q < UPAGES) (htab : tableAt pt (q / 512) = true) (hinv : (pt.ent 0 q).v = false)
    (hs : perm.s = false) (hleaf : (PA2PTE r perm).leaf = true) :
    Moves kend ⟨k, pt, r :: hand, superhand⟩
      ⟨k, pt.set 0 q (PA2PTE r { perm with v := true }), hand, superhand⟩ := by
  refine h.set_bot hq htab (fun _ => ⟨hs, hleaf⟩) (fun x => ?_)
  have hframe : (PA2PTE r { perm with v := true }).frame = some r := by
    rw [Pte.frame_of_v rfl, PTE2PA_PA2PTE h.aligned]
  rw [frame_none hinv, hframe, List.count_cons]
  simp only [Option.some.injEq, beq_iff_eq, reduceCtorEq, if_false]
  omega

/-- **A page is unmapped.** -/
theorem Kept.clearPage (h : Kept kend ⟨k, pt, hand, superhand⟩) {q : Nat}
    (hq : q < UPAGES) (hv : (pt.ent 0 q).v = true) :
    Moves kend ⟨k, pt, hand, superhand⟩
      ⟨k, pt.set 0 q .zero, PTE2PA (pt.ent 0 q) :: hand, superhand⟩ := by
  refine h.set_bot hq (h.tree.bot q hv).1 (fun hz => by cases hz) (fun x => ?_)
  rw [Pte.frame_of_v hv, Pte.frame_zero, List.count_cons]
  simp only [Option.some.injEq, beq_iff_eq, reduceCtorEq, if_false]
  omega

theorem Kept.set_high (h : Kept kend ⟨k, pt, hand, superhand⟩) {q : Nat} {e : Pte}
    (hq : UPAGES ≤ q) (htab : tableAt pt (q / 512) = true)
    (he : e.v = true → e.s = false ∧ e.leaf = true) :
    Kept kend ⟨k, pt.set 0 q e, hand, superhand⟩ ∧ ∀ x,
      tableCount (pt.set 0 q e) x = tableCount pt x ∧
      pageCount (pt.set 0 q e) x = pageCount pt x ∧
      superCount (pt.set 0 q e) x = superCount pt x := by
  have e₁ : ∀ j, (pt.set 0 q e).ent 1 j = pt.ent 1 j := fun j => by simp
  have hcounts : ∀ x, tableCount (pt.set 0 q e) x = tableCount pt x ∧
      pageCount (pt.set 0 q e) x = pageCount pt x ∧
      superCount (pt.set 0 q e) x = superCount pt x := by
    intro x
    obtain ⟨h₁, h₂⟩ := counts_set_bot pt q e x
    refine ⟨h₁, hits_congr (fun q' hq' => ?_) x, h₂⟩
    rw [pt.set_ent_of_ne e (fun hh => by omega)]
  refine ⟨⟨(h.tree.set_bot htab he).1, h.rooted, fun i hv => h.range i (by simpa using hv), ?_,
    fun x hx => ?_, fun x hx => ?_⟩, hcounts⟩
  · unfold superAt
    rw [e₁]
    exact h.first
  · refine h.small x ?_
    obtain ⟨h₁, h₂, -⟩ := hcounts x
    unfold Books.small at hx ⊢
    simp only [h₁, h₂] at hx
    exact hx
  · refine h.super x ?_
    obtain ⟨-, -, h₃⟩ := hcounts x
    unfold Books.super at hx ⊢
    simp only [h₃] at hx
    exact hx

/-- **A page of the kernel is mapped.** -/
theorem Kept.mapHigh (h : Kept kend ⟨k, pt, hand, superhand⟩) {q : Nat} {e : Pte}
    (hq : UPAGES ≤ q) (htab : tableAt pt (q / 512) = true) (hinv : (pt.ent 0 q).v = false)
    (he : e.v = true → e.s = false ∧ e.leaf = true) :
    Moves kend ⟨k, pt, hand, superhand⟩ ⟨k, pt.set 0 q e, hand, superhand⟩ := by
  obtain ⟨hK, hcounts⟩ := h.set_high hq htab he
  refine ⟨hK, fun x => ?_, fun x => ?_, fun _ _ => rfl, fun j hj => ?_, fun q' _ hv => ?_⟩
  · simp only [Books.small, (hcounts x).1, (hcounts x).2.1]
  · simp only [Books.super, (hcounts x).2.2]
  · unfold tableAt at hj ⊢
    simpa using hj
  · refine pt.set_ent_of_ne e (fun hh => ?_)
    simp only [hh.2, hinv] at hv
    cases hv

theorem Kept.set_mid (h : Kept kend ⟨k, pt, hand, superhand⟩) {j : Nat} {e : Pte}
    {superhand' : List Nat} (hj : j < 262144) (hj0 : j ≠ 0) (hnt : tableAt pt j = false)
    (he : e.v = true → (pt.ent 2 (j / 512)).v = true ∧ e.s = true ∧ e.leaf = true)
    (hcount : ∀ x, superhand'.count x + (if e.frame = some x then 1 else 0) =
      superhand.count x + (if superPage pt j = some x then 1 else 0)) :
    Moves kend ⟨k, pt, hand, superhand⟩ ⟨k, pt.set 1 j e, hand, superhand'⟩ := by
  have e₂ : ∀ i, (pt.set 1 j e).ent 2 i = pt.ent 2 i := fun i => by simp
  have e₁ : ∀ j', j' ≠ j → (pt.set 1 j e).ent 1 j' = pt.ent 1 j' := fun j' hne =>
    pt.set_ent_of_ne e (fun hh => hne hh.2)
  have e₀ : ∀ q, (pt.set 1 j e).ent 0 q = pt.ent 0 q := fun q => by simp
  have hself : (pt.set 1 j e).ent 1 j = e := PageTable.set_ent_self ..
  have hnew : tableAt (pt.set 1 j e) j = false := by
    unfold tableAt
    rw [hself]
    cases hv : e.v with
    | false => rfl
    | true => rw [(he hv).2.1]; rfl
  have hsuper : superPage (pt.set 1 j e) j = e.frame := by
    unfold superPage superAt
    rw [hself]
    cases hv : e.v with
    | false =>
        rw [frame_none hv]
        rfl
    | true =>
        rw [(he hv).2.1, Pte.frame_of_v hv]
        rfl
  refine h.retable (h.tree.set_mid hnt he).1 h.rooted
    (fun i hv => h.range i (by rw [← e₂]; exact hv)) ?_ (fun j' hj' => ?_)
    (fun q _ _ => e₀ q) (fun x => ?_) (fun x => ?_)
  · unfold superAt
    rw [e₁ 0 hj0.symm]
    exact h.first
  · have hne : j' ≠ j := by
      rintro rfl
      rw [hnt] at hj'
      cases hj'
    unfold tableAt
    rw [e₁ j' hne]
    exact hj'
  · have hmid : hits 262144 (tablePage (pt.set 1 j e)) x = hits 262144 (tablePage pt) x := by
      refine hits_congr (fun j' _ => ?_) x
      by_cases hne : j' = j
      · subst hne
        rw [tablePage_none hnew, tablePage_none hnt]
      · exact tablePage_congr (e₁ j' hne)
    simp only [tableCount, pageCount, hmid, e₂, e₀]
    rfl
  · have h₁ := hits_write hj (f := superPage pt) (g := superPage (pt.set 1 j e))
      (fun j' hne => superPage_congr (e₁ j' hne)) x
    have h₂ := hcount x
    rw [hsuper] at h₁
    unfold superCount
    omega

/-- **A superpage is mapped.** -/
theorem Kept.setSuper (h : Kept kend ⟨k, pt, hand, r :: superhand⟩) {j : Nat} {perm : Flags}
    (hj : j < 262144) (hj0 : j ≠ 0) (habove : (pt.ent 2 (j / 512)).v = true)
    (hinv : (pt.ent 1 j).v = false) (hleaf : (PA2PTE r perm).leaf = true) :
    Moves kend ⟨k, pt, hand, r :: superhand⟩
      ⟨k, pt.set 1 j (PA2PTE r { perm with v := true, s := true }), hand, superhand⟩ := by
  refine h.set_mid hj hj0 (not_table_of_invalid hinv) (fun _ => ⟨habove, rfl, hleaf⟩)
    (fun x => ?_)
  have hframe : (PA2PTE r { perm with v := true, s := true }).frame = some r := by
    rw [Pte.frame_of_v rfl, PTE2PA_PA2PTE h.superaligned]
  rw [superPage_none (not_super_of_invalid hinv), hframe, List.count_cons]
  simp only [Option.some.injEq, beq_iff_eq, reduceCtorEq, if_false]
  omega

/-- **A superpage is unmapped.** -/
theorem Kept.clearSuper (h : Kept kend ⟨k, pt, hand, superhand⟩) {j : Nat}
    (hj : j < 262144) (hs : superAt pt j = true) :
    Moves kend ⟨k, pt, hand, superhand⟩
      ⟨k, pt.set 1 j .zero, hand, PTE2PA (pt.ent 1 j) :: superhand⟩ := by
  have hj0 : j ≠ 0 := by
    rintro rfl
    have := h.first
    simp only [hs] at this
    cases this
  have hnt : tableAt pt j = false := by
    unfold tableAt
    rw [(superAt_iff.mp hs).2, Bool.not_true, Bool.and_false]
  refine h.set_mid hj hj0 hnt (fun hz => by cases hz) (fun x => ?_)
  have hpage : superPage pt j = some (PTE2PA (pt.ent 1 j)) := if_pos hs
  rw [hpage, Pte.frame_zero, List.count_cons]
  simp only [Option.some.injEq, beq_iff_eq, reduceCtorEq, if_false]
  omega

end Xv6Labs.Super
