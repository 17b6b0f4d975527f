import Xv6Labs.Super.Space

/-!
# Mapping a page

The two moves of `uvmalloc`: a 4 KB page from `kalloc` through `mappages`, and a
superpage from `superkalloc` through `supermappages`. Both keep `Space`; the new
page reads zero and every other user page reads as before. The first one may
need a second page, for the level-0 table of its slot, and fails without one.
-/

namespace Xv6Labs.Super

open Xv6Labs.Lib

variable {kend : Nat} {k k' : Kernel} {pt pt' : PageTable}

/-! ## Frames from the free list -/

theorem Space.mem (h : Space kend k pt) (m : Mem) : Space kend { k with mem := m } pt :=
  ⟨h.toTree, h.root, h.small, h.smallInj, h.super, h.superInj, h.free, h.nodup,
    h.superfree, h.supernodup, h.tables⟩

structure Fresh (k : Kernel) (pt : PageTable) (f : Nat) : Prop where
  notfree : f ∉ k.freelist
  unused : ∀ q, q < UPAGES → (pt.ent 0 q).v = true → PTE2PA (pt.ent 0 q) ≠ f

/-- **`kalloc`** hands out a frame that is in use nowhere. -/
theorem Space.kalloc (h : Space kend k pt) {r : Nat}
    (hk : kalloc k = (some r, k')) :
    Space kend k' pt ∧ SmallFrame kend r ∧ Fresh k' pt r ∧
      k.freelist = r :: k'.freelist ∧ k'.superfreelist = k.superfreelist ∧
      k'.mem = k.mem.fill r PGSIZE 5 := by
  unfold Super.kalloc at hk
  split at hk
  · simp at hk
  rename_i r' rest hl
  simp only [Prod.mk.injEq, Option.some.injEq] at hk
  obtain ⟨rfl, rfl⟩ := hk
  have hmem : r' ∈ k.freelist := by
    rw [hl]
    exact List.mem_cons_self
  have hsub : ∀ f ∈ rest, f ∈ k.freelist := fun f hf => by
    rw [hl]
    exact List.mem_cons_of_mem _ hf
  have hnd := h.nodup
  rw [hl, List.nodup_cons] at hnd
  refine ⟨⟨h.toTree, h.root, fun q hq hv => ?_, h.smallInj, h.super, h.superInj,
    fun f hf => h.free f (hsub f hf), hnd.2, h.superfree, h.supernodup, h.tables⟩,
    h.free _ hmem, ⟨hnd.1, fun q hq hv heq => ?_⟩, hl, rfl, rfl⟩
  · exact ⟨(h.small q hq hv).1, fun hin => (h.small q hq hv).2 (hsub _ hin)⟩
  · rw [← heq] at hmem
    exact (h.small q hq hv).2 hmem

theorem Space.newTable (h : Space kend k pt) {j r : Nat}
    (habove : (pt.ent 2 (j / 512)).v = true) (hinv : (pt.ent 1 j).v = false)
    (hr : SmallFrame kend r) : Space kend k (pt.newTable 1 j r { v := true }) := by
  obtain ⟨hT, -, -⟩ := h.toTree.newTable_one r habove hinv
  obtain ⟨e₂, e₁, e₁', e₀, e₀'⟩ := newTable_one_ent pt j r { v := true }
  have htables : (pt.newTable 1 j r { v := true }).tables = r :: pt.tables := rfl
  generalize pt.newTable 1 j r { v := true } = new at *
  have hbot : ∀ q, (new.ent 0 q).v = true → new.ent 0 q = pt.ent 0 q := by
    intro q hv
    by_cases hq : q / 512 = j
    · rw [e₀ q hq] at hv
      cases hv
    · exact e₀' q hq
  have hsup : ∀ j', superAt new j' = true →
      superAt pt j' = true ∧ new.ent 1 j' = pt.ent 1 j' := by
    intro j' hj'
    by_cases hjj : j' = j
    · subst hjj
      rw [superAt_iff, e₁] at hj'
      cases hj'.2
    · unfold superAt at hj' ⊢
      rw [e₁' j' hjj] at hj' ⊢
      exact ⟨hj', rfl⟩
  refine ⟨hT, by rw [e₂]; exact h.root, fun q hq hv => ?_, fun q q' hq hq' hv hv' heq => ?_,
    fun j' hj' => ?_, fun j₁ j₂ h₁ h₂ heq => ?_, h.free, h.nodup, h.superfree,
    h.supernodup, ?_⟩
  · have e := hbot q hv
    rw [e] at hv ⊢
    exact h.small q hq hv
  · have e := hbot q hv
    have e' := hbot q' hv'
    rw [e] at hv heq
    rw [e'] at hv' heq
    exact h.smallInj q q' hq hq' hv hv' heq
  · obtain ⟨hj, he⟩ := hsup j' hj'
    rw [he]
    exact h.super j' hj
  · obtain ⟨hj₁, he₁⟩ := hsup j₁ h₁
    obtain ⟨hj₂, he₂⟩ := hsup j₂ h₂
    rw [he₁, he₂] at heq
    exact h.superInj j₁ j₂ hj₁ hj₂ heq
  · obtain ⟨ht, ht₂, ht₁⟩ := h.tables
    refine ⟨?_, fun i hi => ?_, fun j' hj' => ?_⟩
    · rw [htables]
      cases hl : pt.tables with
      | nil => simpa using hr
      | cons r' rest =>
          rw [hl] at ht
          simpa using ht
    · rw [e₂] at hi ⊢
      exact ht₂ i hi
    · by_cases hjj : j' = j
      · subst hjj
        rw [e₁, PTE2PA_PA2PTE hr.aligned]
        exact hr
      · unfold tableAt at hj'
        rw [e₁' j' hjj] at hj' ⊢
        exact ht₁ j' hj'

def userPte (r : Nat) : Pte := PA2PTE r { userPerm with v := true }

def superPte (r : Nat) : Pte := PA2PTE r { userPerm with v := true, s := true }

/-- `e` is a leaf that maps the frame `r`, with `PTE_S` or without. -/
structure Maps (e : Pte) (super : Bool) (r : Nat) : Prop where
  v : e.v = true
  s : e.s = super
  leaf : e.leaf = true
  pa : PTE2PA e = r

theorem userPte_maps {r : Nat} (hr : SmallFrame kend r) : Maps (userPte r) false r :=
  ⟨rfl, rfl, rfl, PTE2PA_PA2PTE hr.aligned _⟩

theorem superPte_maps {r : Nat} (hr : SuperFrame kend r) : Maps (superPte r) true r :=
  ⟨rfl, rfl, rfl, PTE2PA_PA2PTE (by have := hr.aligned; omega) _⟩

theorem Space.setSmall (h : Space kend k pt) {q r : Nat} {e : Pte}
    (he : Maps e false r) (htab : tableAt pt (q / 512) = true)
    (hr : SmallFrame kend r) (hfresh : Fresh k pt r) :
    Space kend k (pt.set 0 q e) ∧
      (∀ q', seen (pt.set 0 q e) q' = if q' = q then some (0, e) else seen pt q') ∧
      ∀ j, tableAt (pt.set 0 q e) j = tableAt pt j := by
  obtain ⟨hv, hns, hleaf, hpa⟩ := he
  obtain ⟨hT, hS⟩ := h.toTree.set_bot (e := e) htab (fun _ => ⟨hns, hleaf⟩)
  have e₂ : ∀ i, (pt.set 0 q e).ent 2 i = pt.ent 2 i := fun i => by simp
  have e₁ : ∀ j, (pt.set 0 q e).ent 1 j = pt.ent 1 j := fun j => by simp
  have e₀ : ∀ q', q' ≠ q → (pt.set 0 q e).ent 0 q' = pt.ent 0 q' := fun q' hq =>
    pt.set_ent_of_ne e (fun hh => hq hh.2)
  have hsup : ∀ j, superAt (pt.set 0 q e) j = superAt pt j := fun j => by
    unfold superAt
    rw [e₁]
  have htabs : ∀ j, tableAt (pt.set 0 q e) j = tableAt pt j := fun j => by
    unfold tableAt
    rw [e₁]
  refine ⟨⟨hT, by rw [e₂]; exact h.root, fun q' hq' hv' => ?_,
    fun q₁ q₂ h₁ h₂ hv₁ hv₂ heq => ?_, fun j hj => ?_, fun j j' hj hj' heq => ?_,
    h.free, h.nodup, h.superfree, h.supernodup, ?_⟩, fun q' => ?_, htabs⟩
  · by_cases hqq : q' = q
    · subst hqq
      rw [PageTable.set_ent_self, hpa]
      exact ⟨hr, hfresh.notfree⟩
    · rw [e₀ q' hqq] at hv' ⊢
      exact h.small q' hq' hv'
  · by_cases hq₁ : q₁ = q <;> by_cases hq₂ : q₂ = q
    · rw [hq₁, hq₂]
    · subst hq₁
      rw [PageTable.set_ent_self, hpa, e₀ q₂ hq₂] at heq
      rw [e₀ q₂ hq₂] at hv₂
      exact absurd heq.symm (hfresh.unused q₂ h₂ hv₂)
    · subst hq₂
      rw [PageTable.set_ent_self, hpa, e₀ q₁ hq₁] at heq
      rw [e₀ q₁ hq₁] at hv₁
      exact absurd heq (hfresh.unused q₁ h₁ hv₁)
    · rw [e₀ q₁ hq₁] at hv₁ heq
      rw [e₀ q₂ hq₂] at hv₂ heq
      exact h.smallInj q₁ q₂ h₁ h₂ hv₁ hv₂ heq
  · rw [hsup] at hj
    rw [e₁]
    exact h.super j hj
  · rw [hsup] at hj hj'
    rw [e₁, e₁] at heq
    exact h.superInj j j' hj hj' heq
  · obtain ⟨ht, ht₂, ht₁⟩ := h.tables
    refine ⟨ht, fun i hi => ?_, fun j hj => ?_⟩
    · rw [e₂] at hi ⊢
      exact ht₂ i hi
    · rw [htabs] at hj
      rw [e₁]
      exact ht₁ j hj
  · rw [hS q']
    simp [hv]

theorem Space.setSuper (h : Space kend k pt) {j r : Nat} {e : Pte}
    (he : Maps e true r) (habove : (pt.ent 2 (j / 512)).v = true)
    (hinv : (pt.ent 1 j).v = false)
    (hr : SuperFrame kend r) (hfree : r ∉ k.superfreelist)
    (hunused : ∀ j', superAt pt j' = true → PTE2PA (pt.ent 1 j') ≠ r) :
    Space kend k (pt.set 1 j e) ∧
      (∀ q, seen (pt.set 1 j e) q =
        if q / 512 = j then some (1, e) else seen pt q) ∧
      ∀ j', tableAt (pt.set 1 j e) j' = tableAt pt j' := by
  obtain ⟨hv, hs, hleaf, hpa⟩ := he
  have hnt : tableAt pt j = false := by simp [tableAt, hinv]
  obtain ⟨hT, hS⟩ := h.toTree.set_mid (e := e) hnt
    (fun _ => ⟨habove, hs, hleaf⟩)
  have e₂ : ∀ i, (pt.set 1 j e).ent 2 i = pt.ent 2 i := fun i => by simp
  have e₀ : ∀ q, (pt.set 1 j e).ent 0 q = pt.ent 0 q := fun q => by simp
  have e₁ : ∀ j', j' ≠ j → (pt.set 1 j e).ent 1 j' = pt.ent 1 j' := fun j' hj =>
    pt.set_ent_of_ne e (fun hh => hj hh.2)
  have hsup : ∀ j', j' ≠ j → superAt (pt.set 1 j e) j' = superAt pt j' :=
    fun j' hj => by
      unfold superAt
      rw [e₁ j' hj]
  have htabs : ∀ j', tableAt (pt.set 1 j e) j' = tableAt pt j' := by
    intro j'
    by_cases hjj : j' = j
    · subst hjj
      rw [hnt]
      simp [tableAt, hs]
    · unfold tableAt
      rw [e₁ j' hjj]
  refine ⟨⟨hT, by rw [e₂]; exact h.root, fun q hq hv' => ?_,
    fun q₁ q₂ h₁ h₂ hv₁ hv₂ heq => ?_, fun j' hj' => ?_, fun j₁ j₂ h₁ h₂ heq => ?_,
    h.free, h.nodup, h.superfree, h.supernodup, ?_⟩, fun q => ?_, htabs⟩
  · rw [e₀] at hv' ⊢
    exact h.small q hq hv'
  · rw [e₀] at hv₁ hv₂
    rw [e₀, e₀] at heq
    exact h.smallInj q₁ q₂ h₁ h₂ hv₁ hv₂ heq
  · by_cases hjj : j' = j
    · subst hjj
      rw [PageTable.set_ent_self, hpa]
      exact ⟨hr, hfree⟩
    · rw [hsup j' hjj] at hj'
      rw [e₁ j' hjj]
      exact h.super j' hj'
  · by_cases hj₁ : j₁ = j <;> by_cases hj₂ : j₂ = j
    · rw [hj₁, hj₂]
    · subst hj₁
      rw [PageTable.set_ent_self, hpa, e₁ j₂ hj₂] at heq
      rw [hsup j₂ hj₂] at h₂
      exact absurd heq.symm (hunused j₂ h₂)
    · subst hj₂
      rw [PageTable.set_ent_self, hpa, e₁ j₁ hj₁] at heq
      rw [hsup j₁ hj₁] at h₁
      exact absurd heq (hunused j₁ h₁)
    · rw [hsup j₁ hj₁] at h₁
      rw [hsup j₂ hj₂] at h₂
      rw [e₁ j₁ hj₁, e₁ j₂ hj₂] at heq
      exact h.superInj j₁ j₂ h₁ h₂ heq
  · obtain ⟨ht, ht₂, ht₁⟩ := h.tables
    refine ⟨ht, fun i hi => ?_, fun j' hj' => ?_⟩
    · rw [e₂] at hi ⊢
      exact ht₂ i hi
    · rw [htabs] at hj'
      have hjj : j' ≠ j := fun hh => by
        rw [hh, hnt] at hj'
        cases hj'
      rw [e₁ j' hjj]
      exact ht₁ j' hj'
  · rw [hS q]
    simp [hv]

theorem Space.read_fill (h : Space kend k pt) {f va : Nat} {c : UInt8}
    (hf : f ∈ k.freelist) (hva : va / 4096 < UPAGES) (m : Mem) :
    read (m.fill f PGSIZE c) pt va = read m pt va :=
  read_congr h.toTree h.toTree rfl (fun _ _ hb hx =>
    Mem.fill_of_notMem (h.free_frame hva hb hf hx))

theorem Space.read_superfill (h : Space kend k pt) {f va : Nat} {c : UInt8}
    (hf : f ∈ k.superfreelist) (hva : va / 4096 < UPAGES) (m : Mem) :
    read (m.fill f SUPERPGSIZE c) pt va = read m pt va :=
  read_congr h.toTree h.toTree rfl (fun _ _ hb hx =>
    Mem.fill_of_notMem (h.superfree_frame hva hb hf hx))

/-- **`superkalloc`** hands out a superpage that is in use nowhere. -/
theorem Space.superkalloc (h : Space kend k pt) {r : Nat}
    (hk : superkalloc k = (some r, k')) :
    Space kend k' pt ∧ SuperFrame kend r ∧ r ∉ k'.superfreelist ∧
      (∀ j, superAt pt j = true → PTE2PA (pt.ent 1 j) ≠ r) ∧
      k.superfreelist = r :: k'.superfreelist ∧ k'.freelist = k.freelist ∧
      k'.mem = k.mem.fill r SUPERPGSIZE 7 := by
  unfold Super.superkalloc at hk
  split at hk
  · simp at hk
  rename_i r' rest hl
  simp only [Prod.mk.injEq, Option.some.injEq] at hk
  obtain ⟨rfl, rfl⟩ := hk
  have hmem : r' ∈ k.superfreelist := by
    rw [hl]
    exact List.mem_cons_self
  have hsub : ∀ f ∈ rest, f ∈ k.superfreelist := fun f hf => by
    rw [hl]
    exact List.mem_cons_of_mem _ hf
  have hnd := h.supernodup
  rw [hl, List.nodup_cons] at hnd
  refine ⟨⟨h.toTree, h.root, h.small, h.smallInj, fun j hj => ?_, h.superInj,
    h.free, h.nodup, fun f hf => h.superfree f (hsub f hf), hnd.2, h.tables⟩,
    h.superfree _ hmem, hnd.1, fun j hj heq => ?_, hl, rfl, rfl⟩
  · exact ⟨(h.super j hj).1, fun hin => (h.super j hj).2 (hsub _ hin)⟩
  · rw [← heq] at hmem
    exact (h.super j hj).2 hmem

/-! ## The two moves -/

/-- `walk` with allocation, to a page of the first gigabyte outside the
superpages: at most the level-0 table is missing. -/
theorem Space.walk_alloc (h : Space kend k pt) (k₁ : Kernel) {q : Nat}
    (hq : q < 262144) (hs : superAt pt (q / 512) = false) :
    walk k₁ pt (q * 4096) true =
      if tableAt pt (q / 512) then .ok (k₁, pt, some (0, q))
      else match Super.kalloc k₁ with
        | (none, k') => .ok (k', pt, none)
        | (some t, k') => .ok ({ k' with mem := k'.mem.fill t PGSIZE 0 },
            pt.newTable 1 (q / 512) t { v := true }, some (0, q)) := by
  obtain ⟨hp₀, hp₁, hp₂⟩ := vpn_page q
  have hzero : q / 512 / 512 = 0 := by omega
  have hva : ¬ MAXVA ≤ q * 4096 := by
    simp only [MAXVA]
    omega
  obtain ⟨ht₁, ht₂⟩ := h.top 0 h.root
  unfold Super.walk
  rw [if_neg hva]
  simp only [walkLevel, hp₀, hp₁, hp₂, hzero, h.root, ht₁, ht₂, Bool.or_self, if_true,
    Bool.false_eq_true, if_false]
  rcases Bool.eq_false_or_eq_true (pt.ent 1 (q / 512)).v with hv | hv
  · have hs' : (pt.ent 1 (q / 512)).s = false := by simpa [superAt, hv] using hs
    have hl : (pt.ent 1 (q / 512)).leaf = false := by
      rw [← (h.mid _ hv).2]
      exact hs'
    simp [tableAt, hv, hs', hl]
  · simp only [tableAt, hv, Bool.false_eq_true, if_false, Bool.false_and]
    cases hk : Super.kalloc k₁ with
    | mk o k' => cases o <;> rfl

/-- What `mappages` of page `q` with the entry `e` changes, and all it changes.
`ts` are the pages it took for tables. -/
structure Placed (kend : Nat) (k : Kernel) (pt : PageTable) (k' : Kernel)
    (pt' : PageTable) (q : Nat) (e : Pte) (ts : List Nat) : Prop where
  space : Space kend k' pt'
  seen : ∀ q', seen pt' q' = if q' = q then some (0, e) else seen pt q'
  table : tableAt pt' (q / 512) = true
  slots : ∀ j, j ≠ q / 512 → pt'.ent 1 j = pt.ent 1 j
  tables : pt'.tables = ts ++ pt.tables
  free : k.freelist = ts ++ k'.freelist
  count : ts.length = if tableAt pt (q / 512) then 0 else 1
  superfree : k'.superfreelist = k.superfreelist
  mem : ∀ x, (∀ t ∈ ts, ¬ (t ≤ x ∧ x < t + 4096)) → k'.mem x = k.mem x

/-- **`mappages` of one page** with a frame that is in use nowhere: it succeeds,
or the slot has no table and no page is left for one. -/
theorem Space.placeSmall (h : Space kend k pt) {q r : Nat} (perm : Flags)
    (hq : q < 262144) (hnone : Super.seen pt q = none)
    (he : Maps (PA2PTE r { perm with v := true }) false r)
    (hr : SmallFrame kend r) (hfresh : Fresh k pt r) :
    (∃ k' pt' ts, mappages k pt (q * 4096) PGSIZE r perm = .ok (k', pt', 0) ∧
        Placed kend k pt k' pt' q (PA2PTE r { perm with v := true }) ts) ∨
      (tableAt pt (q / 512) = false ∧ k.freelist = [] ∧
        mappages k pt (q * 4096) PGSIZE r perm = .ok (k, pt, -1)) := by
  have hs : superAt pt (q / 512) = false := by
    by_contra hne
    unfold Super.seen at hnone
    rw [if_pos (by simpa using hne)] at hnone
    cases hnone
  have hv : (pt.ent 0 q).v = false := by
    by_contra hne
    rw [seen_small h.toTree (by simpa using hne)] at hnone
    cases hnone
  have hone : PGSIZE / PGSIZE = 0 + 1 := rfl
  have hal : ¬ q * 4096 % PGSIZE ≠ 0 := by
    simp only [PGSIZE]
    omega
  -- one round of the loop, from the table that `walk` finds or makes
  have hround : ∀ k₃ pt₃, walk k pt (q * 4096) true = .ok (k₃, pt₃, some (0, q)) →
      (pt₃.ent 0 q).v = false →
      mappages k pt (q * 4096) PGSIZE r perm =
        .ok (k₃, pt₃.set 0 q (PA2PTE r { perm with v := true }), 0) := by
    intro k₃ pt₃ hw hv₃
    unfold mappages
    rw [if_neg hal, if_neg (by decide), if_neg (by decide), hone, mappagesLoop, hw]
    simp only [hv₃, Bool.false_eq_true, if_false]
    rfl
  generalize PA2PTE r { perm with v := true } = e at *
  have hwalk := h.walk_alloc k hq hs
  by_cases htab : tableAt pt (q / 512) = true
  · rw [if_pos htab] at hwalk
    obtain ⟨hS, hseen, htabs⟩ := h.setSmall he htab hr hfresh
    refine .inl ⟨_, _, [], hround _ _ hwalk hv, hS, hseen, ?_, fun j _ => by simp, rfl, rfl,
      ?_, rfl, fun _ _ => rfl⟩
    · rw [htabs]
      exact htab
    · rw [if_pos htab]
      rfl
  · rw [if_neg htab] at hwalk
    have htab' : tableAt pt (q / 512) = false := by simpa using htab
    have hv₁ : (pt.ent 1 (q / 512)).v = false := by
      by_contra hne
      have hne' : (pt.ent 1 (q / 512)).v = true := by simpa using hne
      simp [tableAt, superAt, hne'] at hs htab'
      rw [hs] at htab'
      cases htab'
    have habove : (pt.ent 2 (q / 512 / 512)).v = true := by
      rw [show q / 512 / 512 = 0 by omega]
      exact h.root
    cases hk : Super.kalloc k with
    | mk o k₂ =>
        rw [hk] at hwalk
        cases o with
        | none =>
            obtain ⟨rfl, hnil⟩ := kalloc_none hk
            refine .inr ⟨htab', hnil, ?_⟩
            unfold mappages
            rw [if_neg hal, if_neg (by decide), if_neg (by decide), hone, mappagesLoop,
              hwalk]
        | some t =>
            obtain ⟨h₂, ht, hfresh₂, hl, hsl, hm⟩ := h.kalloc hk
            have h₃ := (h₂.newTable habove hv₁ ht).mem (k₂.mem.fill t PGSIZE 0)
            obtain ⟨e₂, e₁, e₁', e₀, e₀'⟩ :=
              newTable_one_ent pt (q / 512) t { v := true }
            obtain ⟨-, hseen₃, htab₃⟩ := h.toTree.newTable_one t habove hv₁
            have hv₃ : ((pt.newTable 1 (q / 512) t { v := true }).ent 0 q).v = false := by
              rw [e₀ q rfl]
              rfl
            have hfresh₃ : Fresh { k₂ with mem := k₂.mem.fill t PGSIZE 0 }
                (pt.newTable 1 (q / 512) t { v := true }) r := by
              refine ⟨fun hin => hfresh.notfree ?_, fun q' hq' hv' => ?_⟩
              · rw [hl]
                exact List.mem_cons_of_mem _ hin
              · by_cases hqq : q' / 512 = q / 512
                · rw [e₀ q' hqq] at hv'
                  cases hv'
                · rw [e₀' q' hqq] at hv' ⊢
                  exact hfresh.unused q' hq' hv'
            obtain ⟨hS, hseen, htabs⟩ := h₃.setSmall he htab₃ hr hfresh₃
            refine .inl ⟨_, _, [t], hround _ _ hwalk hv₃, hS, fun q' => ?_, ?_,
              fun j hj => ?_, rfl, hl, ?_, hsl, fun x hx => ?_⟩
            · rw [hseen, hseen₃]
            · rw [htabs]
              exact htab₃
            · rw [PageTable.set_ent_other_level _ _ _ _ (by omega)]
              exact e₁' j hj
            · rw [if_neg htab]
              rfl
            · have hx' : ¬ (t ≤ x ∧ x < t + PGSIZE) := hx t List.mem_cons_self
              show k₂.mem.fill t PGSIZE 0 x = k.mem x
              rw [Mem.fill_of_notMem hx', hm, Mem.fill_of_notMem hx']

/-- What mapping a fresh page changes, and all it changes. -/
structure Mapped (kend : Nat) (k : Kernel) (pt : PageTable) (k' : Kernel)
    (pt' : PageTable) (q r : Nat) : Prop where
  space : Space kend k' pt'
  seen : ∀ q', seen pt' q' = if q' = q then some (0, userPte r) else seen pt q'
  table : tableAt pt' (q / 512) = true
  slots : ∀ j, j ≠ q / 512 → pt'.ent 1 j = pt.ent 1 j
  free : k.freelist.length =
    k'.freelist.length + if tableAt pt (q / 512) then 1 else 2
  superfree : k'.superfreelist = k.superfreelist
  kept : ∀ va, va / 4096 ≠ q → va / 4096 < UPAGES →
    read k'.mem pt' va = read k.mem pt va
  zero : ∀ va, va / 4096 = q → read k'.mem pt' va = some 0

/-- **Mapping a 4 KB page** with the frame `r` that `kalloc` returned: it
succeeds, or the slot has no table and no page is left for one. -/
theorem Space.mapSmall (h : Space kend k pt) {k₁ : Kernel} {q r : Nat}
    (hq : q < 262144) (hnone : Super.seen pt q = none)
    (hk : Super.kalloc k = (some r, k₁)) :
    (∃ k' pt', mappages { k₁ with mem := k₁.mem.fill r PGSIZE 0 } pt (q * 4096) PGSIZE r
        userPerm = .ok (k', pt', 0) ∧ Mapped kend k pt k' pt' q r) ∨
      (tableAt pt (q / 512) = false ∧ k₁.freelist = [] ∧
        mappages { k₁ with mem := k₁.mem.fill r PGSIZE 0 } pt (q * 4096) PGSIZE r
          userPerm = .ok ({ k₁ with mem := k₁.mem.fill r PGSIZE 0 }, pt, -1)) := by
  obtain ⟨h₁, hr, hfresh, hl, hsl, hm⟩ := h.kalloc hk
  have hrmem : r ∈ k.freelist := by
    rw [hl]
    exact List.mem_cons_self
  rcases (h₁.mem (k₁.mem.fill r PGSIZE 0)).placeSmall userPerm hq hnone
    (userPte_maps hr) hr ⟨hfresh.notfree, hfresh.unused⟩ with
    ⟨k', pt', ts, hmap, hP⟩ | ⟨htab, hnil, hmap⟩
  swap
  · exact .inr ⟨htab, hnil, hmap⟩
  have hts : ∀ t ∈ ts, t ∈ k₁.freelist := fun t ht => by
    have hfree : k₁.freelist = ts ++ k'.freelist := hP.free
    rw [hfree]
    exact List.mem_append_left _ ht
  have hmem : ∀ x, (∀ t ∈ ts, ¬ (t ≤ x ∧ x < t + 4096)) →
      k'.mem x = (k.mem.fill r PGSIZE 5).fill r PGSIZE 0 x := fun x hx => by
    rw [hP.mem x hx, hm]
  refine .inl ⟨k', pt', hmap, hP.space, hP.seen, hP.table, hP.slots, ?_,
    hP.superfree.trans hsl, fun va hne hva => ?_, fun va hva => ?_⟩
  · have hfree : k₁.freelist = ts ++ k'.freelist := hP.free
    rw [hl, List.length_cons, hfree, List.length_append, hP.count]
    split <;> omega
  · refine read_congr h.toTree hP.space.toTree (by rw [hP.seen, if_neg hne])
      (fun b x hb hx => ?_)
    have hnr : ¬ (r ≤ x ∧ x < r + PGSIZE) := h.free_frame hva hb hrmem hx
    rw [hmem x (fun t ht => h₁.free_frame hva hb (hts t ht) hx),
      Mem.fill_of_notMem hnr, Mem.fill_of_notMem hnr]
  · have hlt : va % 4096 < 4096 := Nat.mod_lt _ (by omega)
    have hra := hr.aligned
    rw [hP.space.toTree.read, hva]
    unfold frameOf
    rw [hP.seen, if_pos rfl]
    simp only [Option.map_some, if_true, Nat.add_zero]
    rw [show PTE2PA (PA2PTE r _) = r from (userPte_maps hr).pa,
      hmem _ (fun t ht hx => ?_), Mem.fill_of_mem]
    · simp only [PGSIZE]
      omega
    · have hta := (h₁.free t (hts t ht)).aligned
      have htr : t = r := by omega
      rw [htr] at ht
      exact hfresh.notfree (hts r ht)

/-- **A page that could not be mapped** goes back to where it came from. -/
theorem Space.giveBack (h : Space kend k pt) {k₁ : Kernel} {r : Nat}
    (hk : Super.kalloc k = (some r, k₁)) :
    ∃ k', kfree kend { k₁ with mem := k₁.mem.fill r PGSIZE 0 } r = .ok k' ∧
      Space kend k' pt ∧ k'.freelist = k.freelist ∧
      k'.superfreelist = k.superfreelist ∧
      ∀ va, va / 4096 < UPAGES → read k'.mem pt va = read k.mem pt va := by
  obtain ⟨-, hr, -, hl, hsl, hm⟩ := h.kalloc hk
  have hrmem : r ∈ k.freelist := by
    rw [hl]
    exact List.mem_cons_self
  have hguard : ¬ (r % PGSIZE ≠ 0 ∨ r < kend ∨ PHYSTOP ≤ r) := by
    obtain ⟨h₁, h₂, h₃, h₄⟩ := hr
    simp only [PGSIZE, SPLIT, SUPERPGSIZE, PHYSTOP] at *
    omega
  refine ⟨_, if_neg hguard, ?_, hl.symm, hsl, fun va hva => ?_⟩
  · have hback := h.mem (((k₁.mem.fill r PGSIZE 0).fill r PGSIZE 1))
    rwa [hl, ← hsl] at hback
  · show read (((k₁.mem.fill r PGSIZE 0).fill r PGSIZE 1)) pt va = _
    rw [h.read_fill hrmem hva, h.read_fill hrmem hva, hm, h.read_fill hrmem hva]

/-- **`supermappages` of one superpage** that is in use nowhere, over a slot that
has neither pages nor a table. -/
theorem Space.placeSuper (h : Space kend k pt) {j r : Nat} (perm : Flags)
    (hj : j < 512) (hinv : (pt.ent 1 j).v = false)
    (he : Maps (PA2PTE r { perm with v := true, s := true }) true r)
    (hr : SuperFrame kend r) (hnf : r ∉ k.superfreelist)
    (hunused : ∀ j', superAt pt j' = true → PTE2PA (pt.ent 1 j') ≠ r) :
    supermappages k pt (j * 512 * 4096) SUPERPGSIZE r perm =
      .ok (k, pt.set 1 j (PA2PTE r { perm with v := true, s := true }), 0) ∧
    Space kend k (pt.set 1 j (PA2PTE r { perm with v := true, s := true })) ∧
    ∀ q, Super.seen (pt.set 1 j (PA2PTE r { perm with v := true, s := true })) q =
      if q / 512 = j then some (1, PA2PTE r { perm with v := true, s := true })
      else Super.seen pt q := by
  obtain ⟨-, hp₁, hp₂⟩ := vpn_page (j * 512)
  rw [show j * 512 / 512 = j by omega] at hp₁ hp₂
  rw [show j / 512 = 0 by omega] at hp₂
  have habove : (pt.ent 2 (j / 512)).v = true := by
    rw [show j / 512 = 0 by omega]
    exact h.root
  have hva : ¬ MAXVA ≤ j * 512 * 4096 := by
    simp only [MAXVA]
    omega
  have hal : ¬ j * 512 * 4096 % SUPERPGSIZE ≠ 0 := by
    simp only [SUPERPGSIZE]
    omega
  obtain ⟨hS, hseen, -⟩ := h.setSuper he habove hinv hr hnf hunused
  refine ⟨?_, hS, hseen⟩
  have hone : SUPERPGSIZE / SUPERPGSIZE = 0 + 1 := rfl
  unfold supermappages
  rw [if_neg hal, if_neg (by decide), if_neg (by decide), hone]
  simp only [supermappagesLoop, superwalk, if_neg hva, hp₁, hp₂, h.root, if_true, hinv,
    Bool.false_eq_true, if_false]

/-- **Mapping a superpage** over a slot that has neither pages nor a table. -/
theorem Space.mapSuper (h : Space kend k pt) {k₁ : Kernel} {j r : Nat}
    (hj : j < 512) (hinv : (pt.ent 1 j).v = false)
    (hk : Super.superkalloc k = (some r, k₁)) :
    supermappages { k₁ with mem := k₁.mem.fill r SUPERPGSIZE 0 } pt (j * 512 * 4096)
        SUPERPGSIZE r userPerm =
      .ok ({ k₁ with mem := k₁.mem.fill r SUPERPGSIZE 0 }, pt.set 1 j (superPte r), 0) ∧
    Space kend { k₁ with mem := k₁.mem.fill r SUPERPGSIZE 0 }
      (pt.set 1 j (superPte r)) ∧
    (∀ q, Super.seen (pt.set 1 j (superPte r)) q =
      if q / 512 = j then some (1, superPte r) else Super.seen pt q) ∧
    (∀ va, va / 4096 / 512 ≠ j → va / 4096 < UPAGES →
      read (k₁.mem.fill r SUPERPGSIZE 0) (pt.set 1 j (superPte r)) va =
        read k.mem pt va) ∧
    ∀ va, va / 4096 / 512 = j →
      read (k₁.mem.fill r SUPERPGSIZE 0) (pt.set 1 j (superPte r)) va = some 0 := by
  obtain ⟨h₁, hr, hnf, hunused, hl, hfl, hm⟩ := h.superkalloc hk
  have hrmem : r ∈ k.superfreelist := by
    rw [hl]
    exact List.mem_cons_self
  obtain ⟨hmap, hS, hseen⟩ := (h₁.mem (k₁.mem.fill r SUPERPGSIZE 0)).placeSuper
    userPerm hj hinv (superPte_maps hr) hr hnf hunused
  rw [← superPte] at hmap hS
  change ∀ q, Super.seen (pt.set 1 j (superPte r)) q =
    if q / 512 = j then some (1, superPte r) else Super.seen pt q at hseen
  refine ⟨hmap, hS, hseen, fun va hne hva' => ?_, fun va hva' => ?_⟩
  · rw [read_congr h.toTree hS.toTree ((hseen _).trans (if_neg hne))
      (fun _ _ _ _ => rfl), h.read_superfill hrmem hva', hm, h.read_superfill hrmem hva']
  · have hlt : va % 4096 < 4096 := Nat.mod_lt _ (by omega)
    have hlt' : va / 4096 % 512 < 512 := Nat.mod_lt _ (by omega)
    have hra := hr.aligned
    rw [hS.toTree.read]
    unfold frameOf
    rw [hseen, if_pos hva']
    simp only [Option.map_some, Nat.one_ne_zero, if_false]
    rw [(superPte_maps hr).pa, Mem.fill_of_mem]
    simp only [SUPERPGSIZE]
    omega

end Xv6Labs.Super
