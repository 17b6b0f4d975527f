import Xv6Labs.Super.Map
import Xv6Labs.Super.Unmap

/-!
# The page table of a new process

`proc_pagetable` maps the trampoline, the trapframe and the page of `usyscall`
at the top of the address space. The table it returns is `Bare`: no user page is
mapped, and region 0, where all of them will lie, has no level-1 table yet.
-/

namespace Xv6Labs.Super

open Xv6Labs.Lib

def TablesOk (kend : Nat) (pt : PageTable) : Prop :=
  SmallFrame kend (pt.tables.getLastD 0) ∧
    (∀ i, (pt.ent 2 i).v = true → SmallFrame kend (PTE2PA (pt.ent 2 i))) ∧
    ∀ j, tableAt pt j = true → SmallFrame kend (PTE2PA (pt.ent 1 j))

structure Bare (kend : Nat) (pt : PageTable) : Prop extends Tree pt where
  root : (pt.ent 2 0).v = false
  unmapped : ∀ q, q < UPAGES → seen pt q = none
  noSuper : ∀ q, superAt pt (q / 512) = false
  tables : TablesOk kend pt

variable {kend : Nat} {k k' : Kernel} {pt pt' : PageTable}

theorem tablesOk_last {r : Nat} (h : SmallFrame kend (pt.tables.getLastD 0))
    (hr : SmallFrame kend r) : SmallFrame kend ((r :: pt.tables).getLastD 0) := by
  cases hl : pt.tables with
  | nil => simpa using hr
  | cons r' rest =>
      rw [hl] at h
      simpa using h

theorem TablesOk.newTable_one (h : TablesOk kend pt) {r : Nat} (j : Nat)
    (hr : SmallFrame kend r) : TablesOk kend (pt.newTable 1 j r { v := true }) := by
  obtain ⟨e₂, e₁, e₁', -, -⟩ := newTable_one_ent pt j r { v := true }
  refine ⟨tablesOk_last h.1 hr, fun i hi => ?_, fun j' hj' => ?_⟩
  · rw [e₂] at hi ⊢
    exact h.2.1 i hi
  · by_cases hjj : j' = j
    · subst hjj
      rw [e₁, PTE2PA_PA2PTE hr.aligned]
      exact hr
    · unfold tableAt at hj'
      rw [e₁' j' hjj] at hj' ⊢
      exact h.2.2 j' hj'

theorem TablesOk.newTable_two (h : TablesOk kend pt) {r : Nat} (i : Nat)
    (hr : SmallFrame kend r) : TablesOk kend (pt.newTable 2 i r { v := true }) := by
  obtain ⟨e₂, e₂', e₁, e₁', -⟩ := newTable_two_ent pt i r { v := true }
  refine ⟨tablesOk_last h.1 hr, fun i' hi' => ?_, fun j hj => ?_⟩
  · by_cases hii : i' = i
    · subst hii
      rw [e₂, PTE2PA_PA2PTE hr.aligned]
      exact hr
    · rw [e₂' i' hii] at hi' ⊢
      exact h.2.1 i' hi'
  · by_cases hjj : j / 512 = i
    · unfold tableAt at hj
      rw [e₁ j hjj] at hj
      cases hj
    · unfold tableAt at hj
      rw [e₁' j hjj] at hj ⊢
      exact h.2.2 j hj

theorem TablesOk.set_bot (h : TablesOk kend pt) (q : Nat) (e : Pte) :
    TablesOk kend (pt.set 0 q e) := by
  refine ⟨h.1, fun i hi => ?_, fun j hj => ?_⟩
  · rw [PageTable.set_ent_other_level _ _ _ _ (by omega)] at hi ⊢
    exact h.2.1 i hi
  · unfold tableAt at hj
    rw [PageTable.set_ent_other_level _ _ _ _ (by omega)] at hj ⊢
    exact h.2.2 j hj

theorem TablesOk.walkLevel (h : TablesOk kend pt) {va level : Nat} {d : Descent}
    (hlevel : level = 1 ∨ level = 2) (hfree : ∀ f ∈ k.freelist, SmallFrame kend f)
    (hlev : walkLevel k pt va true level = (k', pt', d)) :
    TablesOk kend pt' ∧ ∀ f ∈ k'.freelist, SmallFrame kend f := by
  rcases walkLevel_cases hlev with ⟨-, rfl, rfl, -⟩ |
    ⟨-, ⟨rfl, rfl, -⟩ | ⟨-, r, k₁, hk, rfl, rfl, -⟩⟩
  · exact ⟨h, hfree⟩
  · exact ⟨h, hfree⟩
  · obtain ⟨hl, -, -⟩ := kalloc_some hk
    rw [hl] at hfree
    have hr := hfree r List.mem_cons_self
    refine ⟨?_, fun f hf => hfree f (List.mem_cons_of_mem _ hf)⟩
    rcases hlevel with rfl | rfl
    · exact h.newTable_one _ hr
    · exact h.newTable_two _ hr

theorem TablesOk.walk (h : TablesOk kend pt) {va : Nat} {o : Option PtePtr}
    (hfree : ∀ f ∈ k.freelist, SmallFrame kend f)
    (hw : walk k pt va true = .ok (k', pt', o)) :
    TablesOk kend pt' ∧ ∀ f ∈ k'.freelist, SmallFrame kend f := by
  unfold Super.walk at hw
  split at hw
  · cases hw
  cases hlev : Super.walkLevel k pt va true 2 with
  | mk k₁ rest =>
      obtain ⟨pt₁, d⟩ := rest
      obtain ⟨h₁, hf₁⟩ := h.walkLevel (.inr rfl) hfree hlev
      rw [hlev] at hw
      cases d with
      | null =>
          simp only [Except.ok.injEq, Prod.mk.injEq] at hw
          obtain ⟨rfl, rfl, -⟩ := hw
          exact ⟨h₁, hf₁⟩
      | found =>
          simp only [Except.ok.injEq, Prod.mk.injEq] at hw
          obtain ⟨rfl, rfl, -⟩ := hw
          exact ⟨h₁, hf₁⟩
      | below =>
          cases hlev₁ : Super.walkLevel k₁ pt₁ va true 1 with
          | mk k₂ rest =>
              obtain ⟨pt₂, d₂⟩ := rest
              obtain ⟨h₂, hf₂⟩ := h₁.walkLevel (.inl rfl) hf₁ hlev₁
              simp only [hlev₁] at hw
              have hres : k₂ = k' ∧ pt₂ = pt' := by
                cases d₂ <;>
                  · simp only [Except.ok.injEq, Prod.mk.injEq] at hw
                    exact ⟨hw.1, hw.2.1⟩
              obtain ⟨rfl, rfl⟩ := hres
              exact ⟨h₂, hf₂⟩

theorem Bare.mappages (h : Bare kend pt) {q pa : Nat} {perm : Flags} {ret : Int}
    (hok : mappages k pt (q * 4096) PGSIZE pa perm = .ok (k', pt', ret))
    (hfree : ∀ f ∈ k.freelist, SmallFrame kend f)
    (hlo : UPAGES ≤ q) (hhi : q < UPAGES + 3)
    (hperm : perm.s = false ∧ (PA2PTE pa { perm with v := true }).leaf = true) :
    Bare kend pt' ∧ ∀ f ∈ k'.freelist, SmallFrame kend f := by
  obtain ⟨hp₀, hp₁, hp₂⟩ := vpn_page q
  have hup := UPAGES_eq
  have hone : PGSIZE / PGSIZE = 0 + 1 := rfl
  have hal : ¬ q * 4096 % PGSIZE ≠ 0 := by
    simp only [PGSIZE]
    omega
  unfold Super.mappages at hok
  rw [if_neg hal, if_neg (by decide), if_neg (by decide), hone, mappagesLoop] at hok
  cases hw : walk k pt (q * 4096) true with
  | error e =>
      rw [hw] at hok
      cases hok
  | ok res =>
      obtain ⟨k₁, pt₁, o⟩ := res
      rw [hw] at hok
      obtain ⟨-, hT, hseen, -, htop, ho⟩ := h.toTree.walk_alloc hw
      obtain ⟨htabs, hfree₁⟩ := h.tables.walk hfree hw
      have hbare : Bare kend pt₁ := by
        refine ⟨hT, ?_, fun q' hq' => ?_, fun q' => ?_, htabs⟩
        · rw [htop 0 (by rw [hp₂]; omega)]
          exact h.root
        · rw [hseen]
          exact h.unmapped q' hq'
        · rw [superAt_congr (hseen q')]
          exact h.noSuper q'
      rcases ho with rfl | ⟨-, ⟨hs, rfl⟩ | ⟨htab, rfl⟩⟩
      · simp only [Except.ok.injEq, Prod.mk.injEq] at hok
        obtain ⟨rfl, rfl, -⟩ := hok
        exact ⟨hbare, hfree₁⟩
      · rw [hp₁, hbare.noSuper] at hs
        cases hs
      · simp only at hok
        split at hok
        · cases hok
        unfold mappagesLoop at hok
        simp only [Except.ok.injEq, Prod.mk.injEq] at hok
        obtain ⟨rfl, rfl, -⟩ := hok
        rw [hp₁] at htab
        rw [hp₀]
        obtain ⟨hT₂, hseen₂⟩ := hT.set_bot (q := q)
          (e := PA2PTE pa { perm with v := true }) htab (fun _ => hperm)
        refine ⟨⟨hT₂, ?_, fun q' hq' => ?_, fun q' => ?_, htabs.set_bot _ _⟩, hfree₁⟩
        · rw [PageTable.set_ent_other_level _ _ _ _ (by omega)]
          exact hbare.root
        · rw [hseen₂, if_neg (by omega)]
          exact hbare.unmapped q' hq'
        · unfold superAt
          rw [PageTable.set_ent_other_level _ _ _ _ (by omega)]
          exact hbare.noSuper q'

theorem bare_empty {r : Nat} (hr : SmallFrame kend r) : Bare kend (.empty r) := by
  refine ⟨⟨?_, ?_, ?_⟩, rfl, fun _ _ => rfl, fun _ => rfl, hr, ?_, ?_⟩
  all_goals
    intro i hi
    cases hi

/-- **`proc_pagetable`** returns a bare table. -/
theorem proc_pagetable_bare {trampoline trapframe usyscall : Nat}
    (hfree : ∀ f ∈ k.freelist, SmallFrame kend f)
    (hok : proc_pagetable kend k trampoline trapframe usyscall = .ok (k', some pt)) :
    Bare kend pt := by
  have e₂ : TRAMPOLINE = (UPAGES + 2) * 4096 := by decide
  have e₁ : TRAPFRAME = (UPAGES + 1) * 4096 := by decide
  have e₀ : USYSCALL = UPAGES * 4096 := by decide
  unfold proc_pagetable uvmcreate at hok
  cases hk : kalloc k with
  | mk o k₀ =>
      cases o with
      | none => simp [hk] at hok
      | some r =>
          obtain ⟨hl, -, -⟩ := kalloc_some hk
          rw [hl] at hfree
          have h₀ := bare_empty (hfree r List.mem_cons_self)
          have hf₀ : ∀ f ∈ k₀.freelist, SmallFrame kend f := fun f hf =>
            hfree f (List.mem_cons_of_mem _ hf)
          simp only [hk] at hok
          -- each call either ends in an error path or hands a bare table on
          split at hok
          · cases hok
          rename_i k₁ pt₁ ret₁ hm₁
          rw [e₂] at hm₁
          obtain ⟨h₁, hf₁⟩ := h₀.mappages hm₁ hf₀ (by omega) (by omega) ⟨rfl, rfl⟩
          split at hok
          · split at hok
            · cases hok
            · simp at hok
          split at hok
          · cases hok
          rename_i k₂ pt₂ ret₂ hm₂
          rw [e₁] at hm₂
          obtain ⟨h₂, hf₂⟩ := h₁.mappages hm₂ hf₁ (by omega) (by omega) ⟨rfl, rfl⟩
          split at hok
          · split at hok
            · cases hok
            · split at hok
              · cases hok
              · simp at hok
          split at hok
          · cases hok
          rename_i k₃ pt₃ ret₃ hm₃
          rw [e₀] at hm₃
          obtain ⟨h₃, hf₃⟩ := h₂.mappages hm₃ hf₂ (by omega) (by omega) ⟨rfl, rfl⟩
          split at hok
          · split at hok
            · cases hok
            · split at hok
              · cases hok
              · split at hok
                · cases hok
                · simp at hok
          simp only [Except.ok.injEq, Prod.mk.injEq, Option.some.injEq] at hok
          rw [← hok.2]
          exact h₃

end Xv6Labs.Super
