import Xv6Labs.Super.Vm

/-!
# Page tables with superpages

The hardware's view of a page table is `sv39`, the leaf it stops at. `Tree` is
the shape on which `walk` finds the same leaf: no pointer carries `PTE_S`, and
a level-1 entry carries it exactly when it is a superpage. `seen` is what such
a table maps, page by page. New tables show nothing (`Tree.newTable_one`,
`Tree.newTable_two`), and writing one entry changes what its page or its slot
shows (`Tree.set_bot`, `Tree.set_mid`).
-/

namespace Xv6Labs.Super

open Xv6Labs.Lib

/-! ## Pages -/

def pages (sz : Nat) : Nat := (sz + 4095) / 4096

theorem PGROUNDUP_eq (sz : Nat) : PGROUNDUP sz = pages sz * 4096 := rfl

theorem lt_pages {q sz : Nat} : q < pages sz ↔ q * 4096 < sz := by
  unfold pages
  omega

theorem lt_slot {q m : Nat} (h : q < m * 512 + 512) (hne : q / 512 ≠ m) : q < m * 512 := by
  have hle : q / 512 < m + 1 := by
    rw [Nat.div_lt_iff_lt_mul (by decide)]
    rwa [Nat.add_mul, Nat.one_mul]
  have hlt : q / 512 < m := by omega
  rwa [Nat.div_lt_iff_lt_mul (by decide)] at hlt

theorem mem_slot {q m : Nat} (h : q / 512 = m) : m * 512 ≤ q ∧ q < m * 512 + 512 := by
  omega

theorem slot_lt {j m : Nat} (h : m * 512 + 512 ≤ j * 512) : m < j := by
  omega

theorem slot_ne {q m : Nat} (h : m * 512 + 512 ≤ q) : q / 512 ≠ m := by
  omega

/-! ## Translation -/

/-- The leaf entry the hardware uses for `va`, as level and path. -/
def sv39 (pt : PageTable) (va : Nat) : Option PtePtr :=
  if !(pt.ent 2 (vpn 2 va)).v then none
  else if (pt.ent 2 (vpn 2 va)).leaf then some (2, vpn 2 va)
  else if !(pt.ent 1 (vpn 1 va)).v then none
  else if (pt.ent 1 (vpn 1 va)).leaf then some (1, vpn 1 va)
  else if (pt.ent 0 (vpn 0 va)).v && (pt.ent 0 (vpn 0 va)).leaf then
    some (0, vpn 0 va)
  else none

/-- Slot `j`, 2 MB from `j * 2MB` on, is mapped by a superpage. -/
def superAt (pt : PageTable) (j : Nat) : Bool := (pt.ent 1 j).v && (pt.ent 1 j).s

/-- Slot `j` has a level-0 table, with or without pages in it. -/
def tableAt (pt : PageTable) (j : Nat) : Bool := (pt.ent 1 j).v && !(pt.ent 1 j).s

/-- The shape on which the descents agree. -/
structure Tree (pt : PageTable) : Prop where
  top : ∀ i, (pt.ent 2 i).v = true →
    (pt.ent 2 i).s = false ∧ (pt.ent 2 i).leaf = false
  mid : ∀ j, (pt.ent 1 j).v = true → (pt.ent 2 (j / 512)).v = true ∧
    (pt.ent 1 j).s = (pt.ent 1 j).leaf
  bot : ∀ q, (pt.ent 0 q).v = true → tableAt pt (q / 512) = true ∧
    (pt.ent 0 q).s = false ∧ (pt.ent 0 q).leaf = true

/-- The level and the entry that map page `q`. -/
def seen (pt : PageTable) (q : Nat) : Option (Nat × Pte) :=
  if superAt pt (q / 512) then some (1, pt.ent 1 (q / 512))
  else if (pt.ent 0 q).v then some (0, pt.ent 0 q)
  else none

theorem vpn_one_eq (va : Nat) : vpn 1 va = vpn 0 va / 512 := vpn_succ 0 va

theorem vpn_two_eq (va : Nat) : vpn 2 va = vpn 0 va / 512 / 512 := by
  rw [vpn_succ 1 va, vpn_one_eq]

theorem vpn_page (q : Nat) :
    vpn 0 (q * 4096) = q ∧ vpn 1 (q * 4096) = q / 512 ∧
      vpn 2 (q * 4096) = q / 512 / 512 := by
  rw [vpn_two_eq, vpn_one_eq, vpn_zero]
  omega

theorem superAt_iff {pt : PageTable} {j : Nat} : superAt pt j = true ↔
    (pt.ent 1 j).v = true ∧ (pt.ent 1 j).s = true := by
  simp [superAt]

theorem tableAt_iff {pt : PageTable} {j : Nat} : tableAt pt j = true ↔
    (pt.ent 1 j).v = true ∧ (pt.ent 1 j).s = false := by
  simp [tableAt]

/-! ## Inversion of one round of `walk` -/

theorem walkLevel_cases {k k' : Kernel} {pt pt' : PageTable} {va level : Nat}
    {alloc : Bool} {d : Descent}
    (h : walkLevel k pt va alloc level = (k', pt', d)) :
    ((pt.ent level (vpn level va)).v = true ∧ k' = k ∧ pt' = pt ∧
      ((((pt.ent level (vpn level va)).s || (pt.ent level (vpn level va)).leaf) =
          true ∧ d = .found) ∨
        (((pt.ent level (vpn level va)).s || (pt.ent level (vpn level va)).leaf) =
          false ∧ d = .below))) ∨
    ((pt.ent level (vpn level va)).v = false ∧
      ((k' = k ∧ pt' = pt ∧ d = .null) ∨
        (alloc = true ∧ ∃ r k₁, kalloc k = (some r, k₁) ∧
          k' = { k₁ with mem := k₁.mem.fill r PGSIZE 0 } ∧
          pt' = pt.newTable level (vpn level va) r { v := true } ∧ d = .below))) := by
  unfold walkLevel at h
  simp only at h
  cases hv : (pt.ent level (vpn level va)).v with
  | true =>
      rw [hv, if_pos rfl] at h
      refine .inl ⟨rfl, ?_⟩
      split at h
      · rename_i hs
        simp only [Prod.mk.injEq] at h
        obtain ⟨rfl, rfl, rfl⟩ := h
        exact ⟨rfl, rfl, .inl ⟨hs, rfl⟩⟩
      · rename_i hs
        simp only [Prod.mk.injEq] at h
        obtain ⟨rfl, rfl, rfl⟩ := h
        exact ⟨rfl, rfl, .inr ⟨by simpa using hs, rfl⟩⟩
  | false =>
      rw [hv, if_neg (by simp)] at h
      refine .inr ⟨rfl, ?_⟩
      split at h
      · rename_i ha
        split at h
        · rename_i k₁ hk
          simp only [Prod.mk.injEq] at h
          obtain ⟨rfl, rfl, rfl⟩ := h
          refine .inl ⟨?_, rfl, rfl⟩
          unfold kalloc at hk
          split at hk
          · simp only [Prod.mk.injEq, true_and] at hk
            exact hk.symm
          · simp at hk
        · rename_i r k₁ hk
          simp only [Prod.mk.injEq] at h
          obtain ⟨rfl, rfl, rfl⟩ := h
          exact .inr ⟨ha, r, k₁, hk, rfl, rfl, rfl⟩
      · simp only [Prod.mk.injEq] at h
        obtain ⟨rfl, rfl, rfl⟩ := h
        exact .inl ⟨rfl, rfl, rfl⟩

variable {k k' : Kernel} {pt pt' : PageTable}

theorem kalloc_none (hk : kalloc k = (none, k')) : k' = k ∧ k.freelist = [] := by
  unfold kalloc at hk
  split at hk
  · rename_i hl
    simp only [Prod.mk.injEq, true_and] at hk
    exact ⟨hk.symm, hl⟩
  · simp at hk

theorem superkalloc_none (hk : superkalloc k = (none, k')) :
    k' = k ∧ k.superfreelist = [] := by
  unfold superkalloc at hk
  split at hk
  · rename_i hl
    simp only [Prod.mk.injEq, true_and] at hk
    exact ⟨hk.symm, hl⟩
  · simp at hk

theorem kalloc_some {r : Nat} (h : kalloc k = (some r, k')) :
    k.freelist = r :: k'.freelist ∧ k'.superfreelist = k.superfreelist ∧
      k'.mem = k.mem.fill r PGSIZE 5 := by
  unfold kalloc at h
  split at h
  · simp at h
  rename_i r' rest hl
  simp only [Prod.mk.injEq, Option.some.injEq] at h
  obtain ⟨rfl, rfl⟩ := h
  exact ⟨hl, rfl, rfl⟩

theorem superkalloc_some {r : Nat} (h : superkalloc k = (some r, k')) :
    k.superfreelist = r :: k'.superfreelist ∧ k'.freelist = k.freelist ∧
      k'.mem = k.mem.fill r SUPERPGSIZE 7 := by
  unfold superkalloc at h
  split at h
  · simp at h
  rename_i r' rest hl
  simp only [Prod.mk.injEq, Option.some.injEq] at h
  obtain ⟨rfl, rfl⟩ := h
  exact ⟨hl, rfl, rfl⟩

theorem superwalk_cases {va : Nat} {o : Option PtePtr}
    (hw : superwalk k pt va true = .ok (k', pt', o)) :
    va < MAXVA ∧
    (((pt.ent 2 (vpn 2 va)).v = true ∧ k' = k ∧ pt' = pt ∧ o = some (1, vpn 1 va)) ∨
      ((pt.ent 2 (vpn 2 va)).v = false ∧
        ((k' = k ∧ pt' = pt ∧ o = none) ∨
          ∃ r k₁, superkalloc k = (some r, k₁) ∧
            k' = { k₁ with mem := k₁.mem.fill r SUPERPGSIZE 0 } ∧
            pt' = pt.newTable 2 (vpn 2 va) r { v := true, s := true } ∧
            o = some (1, vpn 1 va)))) := by
  unfold superwalk at hw
  split at hw
  · cases hw
  rename_i hva
  refine ⟨Nat.not_le.mp hva, ?_⟩
  split at hw
  · rename_i hv
    simp only [Except.ok.injEq, Prod.mk.injEq] at hw
    exact .inl ⟨hv, hw.1.symm, hw.2.1.symm, hw.2.2.symm⟩
  rename_i hv
  refine .inr ⟨by simpa using hv, ?_⟩
  rw [if_pos rfl] at hw
  split at hw
  · rename_i k₁ hk
    simp only [Except.ok.injEq, Prod.mk.injEq] at hw
    obtain ⟨rfl, rfl, rfl⟩ := hw
    refine .inl ⟨?_, rfl, rfl⟩
    unfold superkalloc at hk
    split at hk
    · simp only [Prod.mk.injEq, true_and] at hk
      exact hk.symm
    · simp at hk
  · rename_i r k₁ hk
    simp only [Except.ok.injEq, Prod.mk.injEq] at hw
    obtain ⟨rfl, rfl, rfl⟩ := hw
    exact .inr ⟨r, k₁, hk, rfl, rfl, rfl⟩

/-! ## `walk` on a tree -/

/-- **`walk` without allocation** ends at the superpage, in the level-0 table,
or nowhere. -/
theorem Tree.walk (h : Tree pt) (k : Kernel) {va : Nat} (hva : va < MAXVA) :
    walk k pt va false = .ok (k, pt,
      if superAt pt (vpn 1 va) then some (1, vpn 1 va)
      else if tableAt pt (vpn 1 va) then some (0, vpn 0 va)
      else none) := by
  have hpar : vpn 1 va / 512 = vpn 2 va := (vpn_succ 1 va).symm
  have hmid := h.mid (vpn 1 va)
  have htop := h.top (vpn 2 va)
  rw [hpar] at hmid
  simp only [Super.walk, if_neg (Nat.not_le.mpr hva), walkLevel, superAt, tableAt]
  rcases Bool.eq_false_or_eq_true (pt.ent 2 (vpn 2 va)).v with h₂ | h₂
  · obtain ⟨hs, hl⟩ := htop h₂
    rcases Bool.eq_false_or_eq_true (pt.ent 1 (vpn 1 va)).v with h₁ | h₁
    · have hsl := (hmid h₁).2
      rcases Bool.eq_false_or_eq_true (pt.ent 1 (vpn 1 va)).s with hs₁ | hs₁
      · simp [h₂, hs, hl, h₁, hs₁]
      · rw [hs₁] at hsl
        simp [h₂, hs, hl, h₁, hs₁, ← hsl]
    · simp [h₂, hs, hl, h₁]
  · have h₁ : (pt.ent 1 (vpn 1 va)).v = false := by
      by_contra hne
      have := (hmid (by simpa using hne)).1
      rw [h₂] at this
      cases this
    simp [h₂, h₁]

theorem Tree.sv39 (h : Tree pt) (va : Nat) :
    sv39 pt va = (seen pt (vpn 0 va)).map (fun e => (e.1, vpn e.1 va)) := by
  have hpar : vpn 1 va / 512 = vpn 2 va := (vpn_succ 1 va).symm
  have hslot : vpn 0 va / 512 = vpn 1 va := (vpn_one_eq va).symm
  have hmid := h.mid (vpn 1 va)
  have htop := h.top (vpn 2 va)
  have hbot := h.bot (vpn 0 va)
  rw [hpar] at hmid
  rw [hslot] at hbot
  unfold Super.sv39 seen superAt
  rw [hslot]
  cases h₁ : (pt.ent 1 (vpn 1 va)).v with
  | false =>
      have h₀ : (pt.ent 0 (vpn 0 va)).v = false := by
        by_contra hne
        have := (hbot (by simpa using hne)).1
        simp [tableAt, h₁] at this
      cases h₂ : (pt.ent 2 (vpn 2 va)).v with
      | false => simp [h₀]
      | true => simp [h₀, (htop h₂).2]
  | true =>
      obtain ⟨h₂, hsl⟩ := hmid h₁
      cases hs₁ : (pt.ent 1 (vpn 1 va)).s with
      | true =>
          rw [hs₁] at hsl
          simp [h₂, (htop h₂).2, ← hsl]
      | false =>
          rw [hs₁] at hsl
          cases h₀ : (pt.ent 0 (vpn 0 va)).v with
          | false => simp [h₂, (htop h₂).2, ← hsl]
          | true => simp [h₂, (htop h₂).2, ← hsl, (hbot h₀).2.2]

/-! ## New tables -/

theorem Tree.newTable_one (h : Tree pt) {j : Nat} (r : Nat)
    (habove : (pt.ent 2 (j / 512)).v = true) (hinv : (pt.ent 1 j).v = false) :
    Tree (pt.newTable 1 j r { v := true }) ∧
      (∀ q, seen (pt.newTable 1 j r { v := true }) q = seen pt q) ∧
      tableAt (pt.newTable 1 j r { v := true }) j = true := by
  obtain ⟨e₂, e₁, e₁', e₀, e₀'⟩ := newTable_one_ent pt j r { v := true }
  generalize pt.newTable 1 j r { v := true } = new at *
  have htable : tableAt new j = true := by
    rw [tableAt_iff, e₁]
    exact ⟨rfl, rfl⟩
  have hnone : ∀ q, q / 512 = j → (pt.ent 0 q).v = false := by
    intro q hq
    by_contra hne
    have := (tableAt_iff.mp (h.bot q (by simpa using hne)).1).1
    rw [hq, hinv] at this
    cases this
  refine ⟨⟨?_, ?_, ?_⟩, fun q => ?_, htable⟩
  · intro i hv
    rw [e₂] at hv ⊢
    exact h.top i hv
  · intro j' hv
    rw [e₂]
    by_cases hj : j' = j
    · subst hj
      rw [e₁]
      exact ⟨habove, rfl⟩
    · rw [e₁' j' hj] at hv ⊢
      exact h.mid j' hv
  · intro q hv
    by_cases hq : q / 512 = j
    · rw [e₀ q hq] at hv
      cases hv
    · rw [e₀' q hq] at hv ⊢
      obtain ⟨ht, hrest⟩ := h.bot q hv
      refine ⟨?_, hrest⟩
      rw [tableAt_iff] at ht ⊢
      rwa [e₁' _ hq]
  · unfold seen superAt
    by_cases hq : q / 512 = j
    · rw [hq, e₁, e₀ q hq, hinv, hnone q hq]
      simp [PA2PTE, Pte.zero]
    · rw [e₁' _ hq, e₀' q hq]

theorem Tree.newTable_two (h : Tree pt) {i : Nat} (r : Nat)
    (hinv : (pt.ent 2 i).v = false) :
    Tree (pt.newTable 2 i r { v := true }) ∧
      ∀ q, seen (pt.newTable 2 i r { v := true }) q = seen pt q := by
  obtain ⟨e₂, e₂', e₁, e₁', e₀⟩ := newTable_two_ent pt i r { v := true }
  generalize pt.newTable 2 i r { v := true } = new at *
  have hnone : ∀ j, j / 512 = i → (pt.ent 1 j).v = false := by
    intro j hj
    by_contra hne
    have := (h.mid j (by simpa using hne)).1
    rw [hj, hinv] at this
    cases this
  refine ⟨⟨?_, ?_, ?_⟩, fun q => ?_⟩
  · intro i' hv
    by_cases hi : i' = i
    · subst hi
      rw [e₂]
      exact ⟨rfl, rfl⟩
    · rw [e₂' i' hi] at hv ⊢
      exact h.top i' hv
  · intro j hv
    by_cases hj : j / 512 = i
    · rw [e₁ j hj] at hv
      cases hv
    · rw [e₁' j hj] at hv ⊢
      rw [e₂' _ hj]
      exact h.mid j hv
  · intro q hv
    rw [e₀] at hv ⊢
    obtain ⟨ht, hrest⟩ := h.bot q hv
    refine ⟨?_, hrest⟩
    rw [tableAt_iff] at ht ⊢
    have hq : q / 512 / 512 ≠ i := by
      intro hq
      rw [hnone _ hq] at ht
      exact absurd ht.1 (by simp)
    rwa [e₁' _ hq]
  · unfold seen superAt
    by_cases hq : q / 512 / 512 = i
    · rw [e₁ _ hq, e₀, hnone _ hq]
      simp [Pte.zero]
    · rw [e₁' _ hq, e₀]

/-- What `walk` returns when its last round, at level 1, ends with `d`. -/
def Descent.result (va : Nat) : Descent → Option PtePtr
  | .null => none
  | .found => some (1, vpn 1 va)
  | .below => some (0, vpn 0 va)

theorem Tree.walkLevel_one (h : Tree pt) {va : Nat} {d : Descent}
    (hv₂ : (pt.ent 2 (vpn 2 va)).v = true)
    (hlev : walkLevel k pt va true 1 = (k', pt', d)) :
    Tree pt' ∧ (∀ q, seen pt' q = seen pt q) ∧ (∀ i, pt'.ent 2 i = pt.ent 2 i) ∧
      (d.result va = none ∨ (pt'.ent 2 (vpn 2 va)).v = true ∧
        ((superAt pt' (vpn 1 va) = true ∧ d.result va = some (1, vpn 1 va)) ∨
          (tableAt pt' (vpn 1 va) = true ∧ d.result va = some (0, vpn 0 va)))) := by
  have hpar : vpn 1 va / 512 = vpn 2 va := (vpn_succ 1 va).symm
  rcases walkLevel_cases hlev with ⟨hv, rfl, rfl, ⟨hs, rfl⟩ | ⟨hs, rfl⟩⟩ |
    ⟨hv, ⟨rfl, rfl, rfl⟩ | ⟨-, r, k₁, -, rfl, rfl, rfl⟩⟩
  · refine ⟨h, fun _ => rfl, fun _ => rfl, .inr ⟨hv₂, .inl ⟨?_, rfl⟩⟩⟩
    have hsl := (h.mid _ hv).2
    rw [superAt_iff]
    refine ⟨hv, ?_⟩
    rw [← hsl, Bool.or_self] at hs
    exact hs
  · refine ⟨h, fun _ => rfl, fun _ => rfl, .inr ⟨hv₂, .inr ⟨?_, rfl⟩⟩⟩
    rw [Bool.or_eq_false_iff] at hs
    exact tableAt_iff.mpr ⟨hv, hs.1⟩
  · exact ⟨h, fun _ => rfl, fun _ => rfl, .inl rfl⟩
  · obtain ⟨ht, hseen, htab⟩ := h.newTable_one r (by rw [hpar]; exact hv₂) hv
    have he₂ := (newTable_one_ent pt (vpn 1 va) r { v := true }).1
    exact ⟨ht, hseen, he₂, .inr ⟨by rw [he₂]; exact hv₂, .inr ⟨htab, rfl⟩⟩⟩

/-- **`walk` with allocation** on a tree: it stops at a superpage and changes
nothing, or it adds tables until it stands in a level-0 table, or memory runs
out. What is mapped stays. -/
theorem Tree.walk_alloc (h : Tree pt) {va : Nat} {o : Option PtePtr}
    (hw : Super.walk k pt va true = .ok (k', pt', o)) :
    va < MAXVA ∧ Tree pt' ∧ (∀ q, seen pt' q = seen pt q) ∧
      (∀ i, (pt.ent 2 i).v = true → pt'.ent 2 i = pt.ent 2 i) ∧
      (∀ i, i ≠ vpn 2 va → pt'.ent 2 i = pt.ent 2 i) ∧
      (o = none ∨ (pt'.ent 2 (vpn 2 va)).v = true ∧
        ((superAt pt' (vpn 1 va) = true ∧ o = some (1, vpn 1 va)) ∨
          (tableAt pt' (vpn 1 va) = true ∧ o = some (0, vpn 0 va)))) := by
  unfold Super.walk at hw
  by_cases hva : MAXVA ≤ va
  · rw [if_pos hva] at hw
    cases hw
  rw [if_neg hva] at hw
  refine ⟨Nat.not_le.mp hva, ?_⟩
  obtain ⟨k₂, pt₂, d, hlev⟩ : ∃ k₂ pt₂ d, walkLevel k pt va true 2 = (k₂, pt₂, d) :=
    ⟨_, _, _, rfl⟩
  obtain ⟨k₁, pt₁, d₁, hlev₁⟩ : ∃ k₁ pt₁ d₁,
      walkLevel k₂ pt₂ va true 1 = (k₁, pt₁, d₁) := ⟨_, _, _, rfl⟩
  rw [hlev] at hw
  rcases walkLevel_cases hlev with ⟨hv, rfl, rfl, ⟨hs, rfl⟩ | ⟨-, rfl⟩⟩ |
    ⟨hv, ⟨rfl, rfl, rfl⟩ | ⟨-, r, k₃, -, rfl, rfl, rfl⟩⟩
  · rw [(h.top _ hv).1, (h.top _ hv).2] at hs
    cases hs
  · simp only [hlev₁] at hw
    obtain ⟨rfl, rfl, rfl⟩ : k₁ = k' ∧ pt₁ = pt' ∧ d₁.result va = o := by
      cases d₁ <;> simpa [Descent.result] using hw
    obtain ⟨ht, hseen, he₂, ho⟩ := h.walkLevel_one hv hlev₁
    exact ⟨ht, hseen, fun i _ => he₂ i, fun i _ => he₂ i, ho⟩
  · simp only [Except.ok.injEq, Prod.mk.injEq] at hw
    obtain ⟨rfl, rfl, rfl⟩ := hw
    exact ⟨h, fun _ => rfl, fun _ _ => rfl, fun _ _ => rfl, .inl rfl⟩
  · simp only [hlev₁] at hw
    obtain ⟨rfl, rfl, rfl⟩ : k₁ = k' ∧ pt₁ = pt' ∧ d₁.result va = o := by
      cases d₁ <;> simpa [Descent.result] using hw
    obtain ⟨ht₂, hseen₂⟩ := h.newTable_two r hv
    obtain ⟨e₂, e₂', -⟩ := newTable_two_ent pt (vpn 2 va) r { v := true }
    obtain ⟨ht, hseen, he₂, ho⟩ := ht₂.walkLevel_one (by rw [e₂]; rfl) hlev₁
    refine ⟨ht, fun q => (hseen q).trans (hseen₂ q), fun i hi => ?_, fun i hi => ?_, ho⟩
    · rw [he₂ i]
      refine e₂' i (fun hh => ?_)
      rw [hh, hv] at hi
      cases hi
    · rw [he₂ i, e₂' i hi]

/-! ## Writing one entry -/

theorem Tree.set_bot (h : Tree pt) {q : Nat} {e : Pte}
    (ht : tableAt pt (q / 512) = true)
    (he : e.v = true → e.s = false ∧ e.leaf = true) :
    Tree (pt.set 0 q e) ∧ ∀ q', seen (pt.set 0 q e) q' =
      if q' = q then (if e.v then some (0, e) else none) else seen pt q' := by
  have e₂ : ∀ i, (pt.set 0 q e).ent 2 i = pt.ent 2 i := fun i => by simp
  have e₁ : ∀ j, (pt.set 0 q e).ent 1 j = pt.ent 1 j := fun j => by simp
  have e₀ : ∀ q', q' ≠ q → (pt.set 0 q e).ent 0 q' = pt.ent 0 q' := fun q' hq =>
    pt.set_ent_of_ne e (fun hh => hq hh.2)
  have htab : ∀ j, tableAt (pt.set 0 q e) j = tableAt pt j := fun j => by
    unfold tableAt
    rw [e₁]
  refine ⟨⟨?_, ?_, ?_⟩, fun q' => ?_⟩
  · intro i hv
    rw [e₂] at hv ⊢
    exact h.top i hv
  · intro j hv
    rw [e₁] at hv ⊢
    rw [e₂]
    exact h.mid j hv
  · intro q' hv
    rw [htab]
    by_cases hq : q' = q
    · subst hq
      rw [PageTable.set_ent_self] at hv ⊢
      exact ⟨ht, he hv⟩
    · rw [e₀ q' hq] at hv ⊢
      exact h.bot q' hv
  · unfold seen superAt
    rw [e₁]
    by_cases hq : q' = q
    · subst hq
      have hs := (tableAt_iff.mp ht).2
      rw [PageTable.set_ent_self, if_pos rfl, hs]
      simp
    · rw [e₀ q' hq, if_neg hq]

theorem Tree.set_mid (h : Tree pt) {j : Nat} {e : Pte}
    (hnt : tableAt pt j = false)
    (he : e.v = true → (pt.ent 2 (j / 512)).v = true ∧ e.s = true ∧ e.leaf = true) :
    Tree (pt.set 1 j e) ∧ ∀ q, seen (pt.set 1 j e) q =
      if q / 512 = j then (if e.v then some (1, e) else none) else seen pt q := by
  have e₂ : ∀ i, (pt.set 1 j e).ent 2 i = pt.ent 2 i := fun i => by simp
  have e₁ : ∀ j', j' ≠ j → (pt.set 1 j e).ent 1 j' = pt.ent 1 j' := fun j' hj =>
    pt.set_ent_of_ne e (fun hh => hj hh.2)
  have e₀ : ∀ q, (pt.set 1 j e).ent 0 q = pt.ent 0 q := fun q => by simp
  have hnone : ∀ q, q / 512 = j → (pt.ent 0 q).v = false := by
    intro q hq
    by_contra hne
    have := (h.bot q (by simpa using hne)).1
    rw [hq, hnt] at this
    cases this
  refine ⟨⟨?_, ?_, ?_⟩, fun q => ?_⟩
  · intro i hv
    rw [e₂] at hv ⊢
    exact h.top i hv
  · intro j' hv
    rw [e₂]
    by_cases hj : j' = j
    · subst hj
      rw [PageTable.set_ent_self] at hv ⊢
      obtain ⟨h₁, h₂, h₃⟩ := he hv
      exact ⟨h₁, h₂.trans h₃.symm⟩
    · rw [e₁ j' hj] at hv ⊢
      exact h.mid j' hv
  · intro q hv
    rw [e₀] at hv ⊢
    have hq : q / 512 ≠ j := by
      intro hq
      rw [hnone q hq] at hv
      cases hv
    obtain ⟨ht, hrest⟩ := h.bot q hv
    refine ⟨?_, hrest⟩
    rw [tableAt_iff] at ht ⊢
    rwa [e₁ _ hq]
  · unfold seen superAt
    rw [e₀]
    by_cases hq : q / 512 = j
    · rw [hq, PageTable.set_ent_self, if_pos rfl, hnone q hq]
      cases hv : e.v with
      | false => simp
      | true => simp [(he hv).2.1]
    · rw [e₁ _ hq, if_neg hq]

end Xv6Labs.Super
