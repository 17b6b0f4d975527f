import Xv6Labs.Super.Books
import Xv6Labs.Super.Sbrk

/-!
# What the calls of `vm.c` move

Every call that returns has only moved pages between the free lists, the table it works
on and its own hands, whatever the table looked like and whether the call succeeded:
`walk`, `mappages`, `supermappages`, `uvmunmap`, `uvmalloc`, `sbrksuperuvmalloc`,
`growproc` and `uvmcopy`, with their error paths.

`superwalk` would break this, for it takes a table for a missing level-1 entry from
`superkalloc`. So sizes stay in region 0, the first 1 GB, and a call that may reach its
first slot with a superpage needs a process that has a level-0 table there.
-/

namespace Xv6Labs.Super

open Xv6Labs.Lib

variable {kend : Nat} {k k' : Kernel} {pt pt' : PageTable} {hand superhand : List Nat}
  {r : Nat}

/-! ## `walk` -/

theorem Kept.walkLevel (h : Kept kend ⟨k, pt, hand, superhand⟩) {va level : Nat}
    {d : Descent} (hva : va < MAXVA)
    (hlevel : level = 2 ∨ level = 1 ∧ (pt.ent 2 (vpn 2 va)).v = true)
    (hlev : walkLevel k pt va true level = (k', pt', d)) :
    Moves kend ⟨k, pt, hand, superhand⟩ ⟨k', pt', hand, superhand⟩ := by
  rcases walkLevel_cases hlev with ⟨-, rfl, rfl, -⟩ |
    ⟨hinv, ⟨rfl, rfl, -⟩ | ⟨-, r, k₁, hk, rfl, rfl, -⟩⟩
  · exact .refl h
  · exact .refl h
  · have h₁ := h.kalloc hk
    have h₂ := h₁.kept.write (m := k₁.mem.fill r PGSIZE 0) (fun x hx => by
      refine Books.owns_hand List.mem_cons_self ?_
      by_contra hne
      exact hx (Mem.fill_of_notMem hne))
    refine (h₁.trans h₂).trans ?_
    rcases hlevel with rfl | ⟨rfl, habove⟩
    · refine h₂.kept.newTable_two ?_ hinv
      rw [vpn_two]
      simp only [MAXVA] at hva
      omega
    · refine h₂.kept.newTable_one ?_ ?_ hinv
      · rw [vpn_one]
        simp only [MAXVA] at hva
        omega
      · rwa [← vpn_succ]

theorem Kept.walk (h : Kept kend ⟨k, pt, hand, superhand⟩) {va : Nat} {o : Option PtePtr}
    (hw : Super.walk k pt va true = .ok (k', pt', o)) :
    Moves kend ⟨k, pt, hand, superhand⟩ ⟨k', pt', hand, superhand⟩ := by
  have hva := (h.tree.walk_alloc hw).1
  unfold Super.walk at hw
  rw [if_neg (Nat.not_le.mpr hva)] at hw
  cases hlev : Super.walkLevel k pt va true 2 with
  | mk k₁ rest =>
      obtain ⟨pt₁, d⟩ := rest
      have h₁ := h.walkLevel hva (.inl rfl) hlev
      rw [hlev] at hw
      cases d with
      | null =>
          simp only [Except.ok.injEq, Prod.mk.injEq] at hw
          obtain ⟨rfl, rfl, -⟩ := hw
          exact h₁
      | found =>
          simp only [Except.ok.injEq, Prod.mk.injEq] at hw
          obtain ⟨rfl, rfl, -⟩ := hw
          exact h₁
      | below =>
          have habove : (pt₁.ent 2 (vpn 2 va)).v = true := by
            rcases walkLevel_cases hlev with ⟨hv, -, rfl, -⟩ |
              ⟨-, ⟨-, -, hd⟩ | ⟨-, r, k₂, -, -, rfl, -⟩⟩
            · exact hv
            · cases hd
            · rw [PageTable.newTable_ent_self]
              rfl
          cases hlev₁ : Super.walkLevel k₁ pt₁ va true 1 with
          | mk k₂ rest =>
              obtain ⟨pt₂, d₂⟩ := rest
              have h₂ := h₁.kept.walkLevel hva (.inr ⟨rfl, habove⟩) hlev₁
              simp only [hlev₁] at hw
              obtain ⟨rfl, rfl⟩ : k₂ = k' ∧ pt₂ = pt' := by
                cases d₂ <;>
                  · simp only [Except.ok.injEq, Prod.mk.injEq] at hw
                    exact ⟨hw.1, hw.2.1⟩
              exact h₁.trans h₂

/-! ## `mappages` and `supermappages` -/

theorem Kept.mappages_walk (h : Kept kend ⟨k, pt, hand, superhand⟩) {q pa : Nat}
    {perm : Flags} {ret : Int}
    (hok : mappages k pt (q * 4096) PGSIZE pa perm = .ok (k', pt', ret)) :
    ∃ pt₁, Moves kend ⟨k, pt, hand, superhand⟩ ⟨k', pt₁, hand, superhand⟩ ∧
      (∀ p, seen pt₁ p = seen pt p) ∧ ((ret = -1 ∧ pt' = pt₁) ∨
        (ret = 0 ∧ tableAt pt₁ (q / 512) = true ∧ (pt₁.ent 0 q).v = false ∧
          pt' = pt₁.set 0 q (PA2PTE pa { perm with v := true }))) := by
  obtain ⟨hp₀, hp₁, -⟩ := vpn_page q
  have hal : ¬ q * 4096 % PGSIZE ≠ 0 := not_not.mpr (Nat.mul_mod_left q 4096)
  have hone : PGSIZE / PGSIZE = 0 + 1 := rfl
  unfold mappages at hok
  rw [if_neg hal, if_neg (by decide), if_neg (by decide), hone, mappagesLoop] at hok
  cases hw : Super.walk k pt (q * 4096) true with
  | error e =>
      rw [hw] at hok
      cases hok
  | ok res =>
      obtain ⟨k₁, pt₁, o⟩ := res
      have hM := h.walk hw
      obtain ⟨-, -, hseen, -, -, ho⟩ := h.tree.walk_alloc hw
      rw [hw] at hok
      rcases ho with rfl | ⟨-, ⟨hs, rfl⟩ | ⟨htab, rfl⟩⟩
      · simp only [Except.ok.injEq, Prod.mk.injEq] at hok
        obtain ⟨rfl, rfl, rfl⟩ := hok
        exact ⟨pt₁, hM, hseen, .inl ⟨rfl, rfl⟩⟩
      · -- a superpage is in the way
        have hv := (superAt_iff.mp hs).1
        simp only [hv, if_true] at hok
        cases hok
      · rw [hp₁] at htab
        simp only [hp₀] at hok
        split at hok
        · cases hok
        rename_i hv
        unfold mappagesLoop at hok
        simp only [Except.ok.injEq, Prod.mk.injEq] at hok
        obtain ⟨rfl, rfl, rfl⟩ := hok
        exact ⟨pt₁, hM, hseen, .inr ⟨rfl, htab, by simpa using hv, rfl⟩⟩

def Shows (pt pt' : PageTable) (q : Nat) (e : Pte) : Prop :=
  ∀ p, seen pt' p = if p = q then some (0, e) else seen pt p

theorem Tree.shows {pt₁ : PageTable} {q pa : Nat} {perm : Flags} (h : Tree pt₁)
    (hseen : ∀ p, seen pt₁ p = seen pt p) (htab : tableAt pt₁ (q / 512) = true)
    (hs : perm.s = false) (hleaf : (PA2PTE pa perm).leaf = true) :
    Shows pt (pt₁.set 0 q (PA2PTE pa { perm with v := true })) q
      (PA2PTE pa { perm with v := true }) := by
  obtain ⟨-, hset⟩ := h.set_bot (q := q) (e := PA2PTE pa { perm with v := true }) htab
    (fun _ => ⟨hs, hleaf⟩)
  intro p
  rw [hset, hseen]
  rfl

/-- **`mappages`** of a page in hand puts it into the table, or leaves it in hand. -/
theorem Kept.mappages (h : Kept kend ⟨k, pt, r :: hand, superhand⟩) {q : Nat} {perm : Flags}
    {ret : Int} (hq : q < UPAGES) (hs : perm.s = false) (hleaf : (PA2PTE r perm).leaf = true)
    (hok : mappages k pt (q * 4096) PGSIZE r perm = .ok (k', pt', ret)) :
    (ret = 0 ∧ Moves kend ⟨k, pt, r :: hand, superhand⟩ ⟨k', pt', hand, superhand⟩ ∧
      tableAt pt' (q / 512) = true ∧ Shows pt pt' q (PA2PTE r { perm with v := true })) ∨
    (ret ≠ 0 ∧ Moves kend ⟨k, pt, r :: hand, superhand⟩
      ⟨k', pt', r :: hand, superhand⟩) := by
  obtain ⟨pt₁, hM, hseen, ⟨rfl, rfl⟩ | ⟨rfl, htab, hinv, rfl⟩⟩ := h.mappages_walk hok
  · exact .inr ⟨by decide, hM⟩
  · refine .inl ⟨rfl, hM.trans (hM.kept.setPage hq htab hinv hs hleaf), ?_,
      hM.kept.tree.shows hseen htab hs hleaf⟩
    unfold tableAt at htab ⊢
    simpa using htab

/-- **`supermappages`** of a superpage in hand, in a region that has its level-1 table. -/
theorem Kept.supermappages (h : Kept kend ⟨k, pt, hand, r :: superhand⟩) {a : Nat}
    {perm : Flags} {ret : Int} (habove : (pt.ent 2 (vpn 2 a)).v = true)
    (hzero : a = 0 → tableAt pt 0 = true) (hleaf : (PA2PTE r perm).leaf = true)
    (hok : supermappages k pt a SUPERPGSIZE r perm = .ok (k', pt', ret)) :
    ret = 0 ∧ Moves kend ⟨k, pt, hand, r :: superhand⟩ ⟨k', pt', hand, superhand⟩ := by
  have hone : SUPERPGSIZE / SUPERPGSIZE = 0 + 1 := rfl
  unfold Super.supermappages at hok
  split at hok
  · cases hok
  rename_i hal
  rw [if_neg (by decide), if_neg (by decide), hone, supermappagesLoop] at hok
  cases hw : superwalk k pt a true with
  | error e =>
      rw [hw] at hok
      cases hok
  | ok res =>
      obtain ⟨k₁, pt₁, o⟩ := res
      rw [hw] at hok
      obtain ⟨hva, ⟨-, rfl, rfl, rfl⟩ | ⟨hinv, -⟩⟩ := superwalk_cases hw
      · simp only at hok
        split at hok
        · cases hok
        rename_i hv
        unfold supermappagesLoop at hok
        simp only [Except.ok.injEq, Prod.mk.injEq] at hok
        obtain ⟨rfl, rfl, rfl⟩ := hok
        refine ⟨rfl, h.setSuper ?_ (fun hj => ?_) ?_ (by simpa using hv) hleaf⟩
        · rw [vpn_one]
          simp only [MAXVA] at hva
          omega
        · have hz : a = 0 := by
            rw [vpn_one] at hj
            simp only [SUPERPGSIZE] at hal
            omega
          have htab := (tableAt_iff.mp (hzero hz)).1
          rw [hj] at hv
          exact hv htab
        · rwa [← vpn_succ]
      · rw [habove] at hinv
        cases hinv

/-! ## `uvmunmap` and `uvmdealloc` -/

theorem USYSCALL_eq : USYSCALL = UPAGES * 4096 := by decide

/-- **`uvmunmap`** with `do_free`, in the user part. -/
theorem Kept.uvmunmapLoop {last : Nat} (hlast : last ≤ USYSCALL) (n : Nat) :
    ∀ {k : Kernel} {pt : PageTable} (a : Nat), Kept kend ⟨k, pt, hand, superhand⟩ →
    uvmunmapLoop kend k pt a last true n = .ok (k', pt') →
    Moves kend ⟨k, pt, hand, superhand⟩ ⟨k', pt', hand, superhand⟩ := by
  induction n with
  | zero =>
      intro k pt a h hok
      simp only [Super.uvmunmapLoop, Except.ok.injEq, Prod.mk.injEq] at hok
      obtain ⟨rfl, rfl⟩ := hok
      exact .refl h
  | succ n ih =>
      intro k pt a h hok
      rw [Super.uvmunmapLoop] at hok
      split at hok
      swap
      · simp only [Except.ok.injEq, Prod.mk.injEq] at hok
        obtain ⟨rfl, rfl⟩ := hok
        exact .refl h
      rename_i hlt
      have hU := UPAGES_eq
      have hsys := USYSCALL_eq
      have hva : a < MAXVA := by
        simp only [MAXVA]
        omega
      rw [h.tree.walk k hva] at hok
      by_cases hs : superAt pt (vpn 1 a) = true
      · rw [if_pos hs] at hok
        obtain ⟨hv, hS⟩ := superAt_iff.mp hs
        simp only [hv, hS, Bool.true_eq_false, if_false, if_true] at hok
        split at hok
        · cases hok
        split at hok
        · cases hok
        rename_i k₁ hfree
        have hj : vpn 1 a < 262144 := by
          rw [vpn_one]
          omega
        have h₁ := h.clearSuper hj hs
        have h₂ := h₁.kept.superkfree hfree
        exact (h₁.trans h₂).trans (ih _ h₂.kept hok)
      rw [if_neg hs] at hok
      by_cases ht : tableAt pt (vpn 1 a) = true
      · rw [if_pos ht] at hok
        simp only at hok
        split at hok
        · cases hok
        rename_i hv
        have hv : (pt.ent 0 (vpn 0 a)).v = true := by simpa using hv
        have hS : (pt.ent 0 (vpn 0 a)).s = false := (h.tree.bot _ hv).2.1
        simp only [hS, Bool.false_eq_true, if_false, if_true] at hok
        split at hok
        · cases hok
        split at hok
        · cases hok
        rename_i k₁ hfree
        have hq : vpn 0 a < UPAGES := by
          rw [vpn_zero]
          omega
        have h₁ := h.clearPage hq hv
        have h₂ := h₁.kept.kfree hfree
        exact (h₁.trans h₂).trans (ih _ h₂.kept hok)
      · rw [if_neg ht] at hok
        cases hok

theorem Kept.uvmunmap (h : Kept kend ⟨k, pt, hand, superhand⟩) {va npages : Nat}
    (hlast : va + npages * 4096 ≤ USYSCALL)
    (hok : uvmunmap kend k pt va npages true = .ok (k', pt')) :
    Moves kend ⟨k, pt, hand, superhand⟩ ⟨k', pt', hand, superhand⟩ := by
  unfold Super.uvmunmap at hok
  split at hok
  · cases hok
  · exact Kept.uvmunmapLoop hlast _ _ h hok

theorem uvmdealloc_size {oldsz newsz sz : Nat}
    (hok : uvmdealloc kend k pt oldsz newsz = .ok (k', pt', sz)) :
    sz = if oldsz ≤ newsz then oldsz else newsz := by
  unfold uvmdealloc at hok
  split at hok
  · rename_i hle
    rw [if_pos hle]
    simp only [Except.ok.injEq, Prod.mk.injEq] at hok
    exact hok.2.2.symm
  rename_i hle
  rw [if_neg hle]
  split at hok
  · split at hok
    · cases hok
    · simp only [Except.ok.injEq, Prod.mk.injEq] at hok
      exact hok.2.2.symm
  · simp only [Except.ok.injEq, Prod.mk.injEq] at hok
    exact hok.2.2.symm

/-- **`uvmdealloc`.** -/
theorem Kept.uvmdealloc (h : Kept kend ⟨k, pt, hand, superhand⟩) {oldsz newsz sz : Nat}
    (hold : oldsz ≤ 2 ^ 31)
    (hok : uvmdealloc kend k pt oldsz newsz = .ok (k', pt', sz)) :
    Moves kend ⟨k, pt, hand, superhand⟩ ⟨k', pt', hand, superhand⟩ := by
  unfold Super.uvmdealloc at hok
  split at hok
  · simp only [Except.ok.injEq, Prod.mk.injEq] at hok
    obtain ⟨rfl, rfl, -⟩ := hok
    exact .refl h
  split at hok
  · split at hok
    · cases hok
    rename_i hun
    simp only [Except.ok.injEq, Prod.mk.injEq] at hok
    obtain ⟨rfl, rfl, -⟩ := hok
    refine h.uvmunmap ?_ hun
    have hU := UPAGES_eq
    have hsys := USYSCALL_eq
    simp only [PGROUNDUP, PGSIZE] at *
    omega
  · simp only [Except.ok.injEq, Prod.mk.injEq] at hok
    obtain ⟨rfl, rfl, -⟩ := hok
    exact .refl h

/-! ## `uvmalloc` and `sbrksuperuvmalloc` -/

theorem Kept.fill (h : Kept kend ⟨k, pt, r :: hand, superhand⟩) (c : UInt8) :
    Moves kend ⟨k, pt, r :: hand, superhand⟩
      ⟨{ k with mem := k.mem.fill r PGSIZE c }, pt, r :: hand, superhand⟩ := by
  refine h.write (fun x hx => Books.owns_hand List.mem_cons_self ?_)
  by_contra hne
  exact hx (Mem.fill_of_notMem hne)

theorem Kept.superfill (h : Kept kend ⟨k, pt, hand, r :: superhand⟩) (c : UInt8) :
    Moves kend ⟨k, pt, hand, r :: superhand⟩
      ⟨{ k with mem := k.mem.fill r SUPERPGSIZE c }, pt, hand, r :: superhand⟩ := by
  refine h.write (fun x hx => Books.owns_superhand List.mem_cons_self ?_)
  by_contra hne
  exact hx (Mem.fill_of_notMem hne)

theorem user_leaf (r : Nat) (xperm : Flags) :
    (PA2PTE r { xperm with r := true, u := true }).leaf = true := rfl

/-- A growth to `newsz` that stays in region 0 and cannot map a superpage at address 0. -/
structure Reaches (pt : PageTable) (oldsz newsz : Nat) : Prop where
  max : newsz ≤ 2 ^ 30
  first : newsz < PGROUNDUP oldsz + SUPERPGSIZE ∨ tableAt pt 0 = true

theorem rounds_left {P q n d : Nat} (h : P ≤ q * 4096 + (n + 1) * 4096) (hd : 0 < d) :
    P ≤ (q + d) * 4096 + n * 4096 := by
  rw [← Nat.add_mul] at h ⊢
  exact h.trans (Nat.mul_le_mul_right _ (by omega))

/-- The pages from `N` up to `M` are new 4 KB pages of the user, and the others are the same. -/
structure Extended (pt pt' : PageTable) (N M : Nat) (xperm : Flags) : Prop where
  outside : ∀ p, ¬ (N ≤ p ∧ p < M) → seen pt' p = seen pt p
  pages : ∀ p, N ≤ p → p < M → ∃ e, seen pt' p = some (0, e) ∧
    e.toFlags = { xperm with v := true, r := true, u := true }

theorem Extended.nothing {N M : Nat} (h : M ≤ N) (pt : PageTable) (xperm : Flags) :
    Extended pt pt N M xperm :=
  ⟨fun _ _ => rfl, fun p hN hM => absurd hM (by omega)⟩

theorem Extended.cons {pt₁ : PageTable} {N M : Nat} {xperm : Flags} {e : Pte}
    (h₁ : Shows pt pt₁ N e) (he : e.toFlags = { xperm with v := true, r := true, u := true })
    (h : Extended pt₁ pt' (N + 1) M xperm) (hlt : N < M) : Extended pt pt' N M xperm := by
  refine ⟨fun p hp => ?_, fun p hN hM => ?_⟩
  · rw [h.outside p (by omega), h₁ p, if_neg (by omega)]
  · by_cases hp : p = N
    · refine ⟨e, ?_, he⟩
      rw [h.outside p (by omega), h₁ p, if_pos hp]
    · exact h.pages p (by omega) hM

theorem Extended.layout {N M : Nat} {xperm : Flags} (h : Extended pt pt' N M xperm)
    (hL : Layout pt N) (hle : N ≤ M) (hM : M ≤ UPAGES) : Layout pt' M := by
  intro p
  by_cases hp : N ≤ p ∧ p < M
  · obtain ⟨e, hs, -⟩ := h.pages p hp.1 hp.2
    rw [hs]
    simp only [Option.isSome_some, true_iff]
    exact .inl hp.2
  · rw [h.outside p hp, hL p]
    omega

/-- **`uvmalloc`**, from any point of its loop on. -/
theorem Kept.uvmallocLoop {oldsz newsz sz : Nat} {xperm : Flags} (hx : xperm.s = false)
    (hmax : newsz ≤ 2 ^ 30) (n : Nat) : ∀ {k : Kernel} {pt : PageTable} (q : Nat),
    oldsz ≤ q * 4096 → Kept kend ⟨k, pt, hand, superhand⟩ →
    (newsz < oldsz + SUPERPGSIZE ∨ tableAt pt 0 = true) →
    PGROUNDUP newsz ≤ q * 4096 + n * 4096 →
    uvmallocLoop kend k pt oldsz (q * 4096) newsz xperm n = .ok (k', pt', sz) →
    Moves kend ⟨k, pt, hand, superhand⟩ ⟨k', pt', hand, superhand⟩ ∧
      (sz ≠ 0 → newsz < SUPERPGSIZE → Extended pt pt' q (pages newsz) xperm) := by
  have hU := UPAGES_eq
  induction n with
  | zero =>
      intro k pt q _ h _ hn hok
      simp only [Super.uvmallocLoop, Except.ok.injEq, Prod.mk.injEq] at hok
      obtain ⟨rfl, rfl, -⟩ := hok
      refine ⟨.refl h, fun _ _ => .nothing ?_ pt xperm⟩
      rw [PGROUNDUP_eq] at hn
      omega
  | succ n ih =>
      intro k pt q hle h hfirst hn hok
      -- an allocation fails: everything from `oldsz` on goes back
      have hundo : ∀ {k₁ : Kernel} {pt₁ : PageTable} {d : Nat}, q * 4096 < newsz → 0 = sz →
          Moves kend ⟨k, pt, hand, superhand⟩ ⟨k₁, pt₁, hand, superhand⟩ →
          Super.uvmdealloc kend k₁ pt₁ (q * 4096) oldsz = .ok (k', pt', d) →
          Moves kend ⟨k, pt, hand, superhand⟩ ⟨k', pt', hand, superhand⟩ ∧
            (sz ≠ 0 → newsz < SUPERPGSIZE → Extended pt pt' q (pages newsz) xperm) := by
        intro k₁ pt₁ d hlt hsz hM hun
        exact ⟨hM.trans (hM.kept.uvmdealloc (by omega) hun), fun hne => absurd hsz.symm hne⟩
      rw [Super.uvmallocLoop] at hok
      split at hok
      swap
      · rename_i hlt
        simp only [Except.ok.injEq, Prod.mk.injEq] at hok
        obtain ⟨rfl, rfl, -⟩ := hok
        exact ⟨.refl h, fun _ _ => .nothing (Nat.not_lt.mp (mt lt_pages.mp hlt)) pt xperm⟩
      rename_i hlt
      split at hok
      · rename_i hbig
        split at hok
        · rename_i k₁ hk
          obtain ⟨rfl, -⟩ := superkalloc_none hk
          split at hok
          · cases hok
          rename_i hun
          simp only [Except.ok.injEq, Prod.mk.injEq] at hok
          obtain ⟨rfl, rfl, hsz⟩ := hok
          exact hundo hlt hsz (.refl h) hun
        rename_i mem k₁ hk
        have h₁ := h.superkalloc hk
        have h₂ := h₁.trans (h₁.kept.superfill 0)
        simp only at hok
        split at hok
        · cases hok
        rename_i k₂ pt₂ ret hmap
        have htab : tableAt pt 0 = true := by
          rcases hfirst with hlt' | htab
          · simp only [SUPERPGSIZE] at *
            omega
          · exact htab
        have habove : (pt.ent 2 (vpn 2 (q * 4096))).v = true := by
          have hreg : vpn 2 (q * 4096) = 0 := by
            rw [vpn_two]
            omega
          rw [hreg]
          exact (h.tree.mid 0 (tableAt_iff.mp htab).1).1
        obtain ⟨rfl, h₃⟩ := h₂.kept.supermappages habove (fun _ => htab)
          (user_leaf mem xperm) hmap
        have hM := h₂.trans h₃
        rw [if_neg (by decide), show q * 4096 + SUPERPGSIZE = (q + 512) * 4096 by
          simp only [SUPERPGSIZE]; omega] at hok
        have htab' := hM.table 0 htab
        obtain ⟨h₄, -⟩ := ih (q + 512) (hle.trans (Nat.mul_le_mul_right _ (by omega))) hM.kept
          (.inr htab') (rounds_left hn (by decide)) hok
        exact ⟨hM.trans h₄, fun _ hlow => absurd hbig.2 (by omega)⟩
      · split at hok
        · rename_i k₁ hk
          obtain ⟨rfl, -⟩ := kalloc_none hk
          split at hok
          · cases hok
          rename_i hun
          simp only [Except.ok.injEq, Prod.mk.injEq] at hok
          obtain ⟨rfl, rfl, hsz⟩ := hok
          exact hundo hlt hsz (.refl h) hun
        rename_i mem k₁ hk
        have h₁ := h.kalloc hk
        have h₂ := h₁.trans (h₁.kept.fill 0)
        simp only at hok
        split at hok
        · cases hok
        rename_i k₂ pt₂ ret hmap
        have hq : q < UPAGES := by omega
        have hs : ({ xperm with r := true, u := true } : Flags).s = false := hx
        rcases h₂.kept.mappages hq hs (user_leaf mem xperm) hmap with ⟨rfl, h₃, -, hshow⟩ |
          ⟨hret, h₃⟩
        · have hM := h₂.trans h₃
          rw [if_neg (by decide), show q * 4096 + PGSIZE = (q + 1) * 4096 by
            simp only [PGSIZE]; omega] at hok
          obtain ⟨h₄, hext⟩ := ih (q + 1) (hle.trans (Nat.mul_le_mul_right _ (by omega))) hM.kept
            (hfirst.imp_right (hM.table 0)) (rounds_left hn Nat.one_pos) hok
          exact ⟨hM.trans h₄, fun hne hlow =>
            (hext hne hlow).cons hshow rfl (lt_pages.mpr hlt)⟩
        · rw [if_pos hret] at hok
          have hM := h₂.trans h₃
          split at hok
          · cases hok
          rename_i k₃ hfree
          split at hok
          · cases hok
          rename_i hun
          simp only [Except.ok.injEq, Prod.mk.injEq] at hok
          obtain ⟨rfl, rfl, hsz⟩ := hok
          exact hundo hlt hsz (hM.trans (hM.kept.kfree hfree)) hun

theorem rounds_le {oldsz newsz : Nat} (h : oldsz ≤ newsz) : PGROUNDUP newsz ≤
    pages oldsz * 4096 + (PGROUNDUP newsz - PGROUNDUP oldsz) / PGSIZE * 4096 := by
  simp only [PGROUNDUP_eq, PGSIZE, pages]
  omega

/-- **`uvmalloc`.** -/
theorem Kept.uvmalloc (h : Kept kend ⟨k, pt, hand, superhand⟩) {oldsz newsz sz : Nat}
    {xperm : Flags} (hx : xperm.s = false) (hreach : Reaches pt oldsz newsz)
    (hok : uvmalloc kend k pt oldsz newsz xperm = .ok (k', pt', sz)) :
    Moves kend ⟨k, pt, hand, superhand⟩ ⟨k', pt', hand, superhand⟩ ∧
      (oldsz ≤ newsz → sz ≠ 0 → newsz < SUPERPGSIZE →
        Extended pt pt' (pages oldsz) (pages newsz) xperm) := by
  unfold Super.uvmalloc at hok
  split at hok
  · rename_i hlt
    simp only [Except.ok.injEq, Prod.mk.injEq] at hok
    obtain ⟨rfl, rfl, rfl⟩ := hok
    exact ⟨.refl h, fun hle => absurd hlt (Nat.not_lt.mpr hle)⟩
  rename_i hle
  obtain ⟨hM, hext⟩ := Kept.uvmallocLoop hx hreach.max _ (pages oldsz) (Nat.le_refl _) h
    hreach.first (rounds_le (Nat.not_lt.mp hle)) hok
  exact ⟨hM, fun _ => hext⟩

theorem uvmallocLoop_size {oldsz newsz sz : Nat} {xperm : Flags} (n : Nat) :
    ∀ {k : Kernel} {pt : PageTable} {a : Nat},
    uvmallocLoop kend k pt oldsz a newsz xperm n = .ok (k', pt', sz) → sz = newsz ∨ sz = 0 := by
  intro k pt a hok
  rw [uvmallocLoop_eq _ _ _ _ _ _ _ _ {}] at hok
  split at hok
  · cases hok
  simp only [Except.ok.injEq, Prod.mk.injEq] at hok
  obtain ⟨-, -, rfl⟩ := hok
  split
  · exact .inl rfl
  · exact .inr rfl

theorem uvmalloc_size {oldsz m sz : Nat} {xperm : Flags}
    (hok : uvmalloc kend k pt oldsz (oldsz + m) xperm = .ok (k', pt', sz)) :
    sz = oldsz + m ∨ sz = 0 := by
  unfold Super.uvmalloc at hok
  rw [if_neg (by omega)] at hok
  exact uvmallocLoop_size _ hok

/-- **`sbrksuperuvmalloc`.** -/
theorem Kept.sbrksuperuvmalloc (h : Kept kend ⟨k, pt, hand, superhand⟩)
    {oldsz newsz : Nat} {help : SbrkHelp} {xperm : Flags} (hx : xperm.s = false)
    (hreach : Reaches pt oldsz newsz)
    (hok : sbrksuperuvmalloc kend k pt oldsz newsz xperm = .ok (k', pt', help)) :
    Moves kend ⟨k, pt, hand, superhand⟩ ⟨k', pt', hand, superhand⟩ := by
  unfold Super.sbrksuperuvmalloc at hok
  split at hok
  · simp only [Except.ok.injEq, Prod.mk.injEq] at hok
    obtain ⟨rfl, rfl, -⟩ := hok
    exact .refl h
  · rename_i hle
    have hloop := uvmallocLoop_eq kend (PGROUNDUP oldsz) newsz xperm
      ((PGROUNDUP newsz - PGROUNDUP oldsz) / PGSIZE) k pt (PGROUNDUP oldsz) {}
    rw [hok] at hloop
    exact (Kept.uvmallocLoop hx hreach.max _ (pages oldsz) (Nat.le_refl _) h hreach.first
      (rounds_le (Nat.not_lt.mp hle)) hloop).1

/-! ## `growproc` -/

theorem sbrksuperuvmalloc_size {oldsz newsz : Nat} {help : SbrkHelp} {xperm : Flags}
    (hle : oldsz ≤ newsz) (hmax : newsz ≤ 2 ^ 30)
    (hok : sbrksuperuvmalloc kend k pt oldsz newsz xperm = .ok (k', pt', help))
    (hstate : help.state = true) : toUint64 help.sz = newsz := by
  unfold sbrksuperuvmalloc at hok
  rw [if_neg (Nat.not_lt.mpr hle)] at hok
  have hfuel : pages newsz ≤
      pages oldsz + (PGROUNDUP newsz - PGROUNDUP oldsz) / PGSIZE := by
    simp only [PGROUNDUP_eq, PGSIZE]
    omega
  rw [PGROUNDUP_eq oldsz] at hok
  obtain ⟨cs, P', -, -, hhelp⟩ := sbrksuperuvmallocLoop_run _ hfuel hok hstate
  have hsz : help.sz = toInt newsz := by rw [hhelp]
  rw [hsz]
  exact toUint64_toInt (by omega)

theorem lower_eq {sz c : Nat} (hsz : sz ≤ 2 ^ 30) (hc : 0 < c) (hmax : c ≤ 2097152) :
    (if sz ≤ minus sz c then sz else minus sz c) = lower sz c := by
  have hminus : c ≤ sz → minus sz c = sz - c := by
    unfold minus
    omega
  have hwrap : ¬ c ≤ sz → sz ≤ minus sz c := by
    unfold minus
    omega
  unfold lower
  by_cases hle : c ≤ sz
  · rw [if_pos hle, hminus hle, if_neg (by omega)]
  · rw [if_neg hle, if_pos (hwrap hle)]

variable {p p' : Proc}

/-- **The shrink branch**, whatever the record says. -/
theorem Kept.shrinkLoop (i : Nat) : ∀ {k : Kernel} {p : Proc} {n : Int}, n < 0 →
    p.sz ≤ 2 ^ 30 → Kept kend ⟨k, p.pagetable, hand, superhand⟩ →
    shrinkLoop kend k p n i = .ok (k', p') →
    Moves kend ⟨k, p.pagetable, hand, superhand⟩ ⟨k', p'.pagetable, hand, superhand⟩ ∧
      p'.sz ≤ 2 ^ 30 := by
  induction i with
  | zero =>
      intro k p n _ hsz h hok
      simp only [Super.shrinkLoop, Except.ok.injEq, Prod.mk.injEq] at hok
      obtain ⟨rfl, rfl⟩ := hok
      exact ⟨.refl h, hsz⟩
  | succ i ih =>
      intro k p n hn hsz h hok
      rw [Super.shrinkLoop] at hok
      split at hok
      · cases hok
      split at hok
      · split at hok
        · cases hok
        rename_i k₁ pt₁ sz₁ hun
        have h₁ := h.uvmdealloc (by omega) hun
        have hsz₁ := uvmdealloc_size hun
        rw [lower_eq hsz (by decide) (by decide)] at hsz₁
        have hle := lower_le p.sz SUPERPGSIZE
        split at hok
        · rename_i hsplit
          split at hok
          · cases hok
          rename_i k₂ pt₂ sz₂ hal
          simp only [Except.ok.injEq, Prod.mk.injEq] at hok
          obtain ⟨rfl, rfl⟩ := hok
          have hadd : sz₁ + (n + SUPERPGSIZE).toNat ≤ 2 ^ 30 := by
            have hpage : SUPERPGSIZE = 2097152 := rfl
            unfold lower at hsz₁
            split_ifs at hsz₁ <;> omega
          have hreach : Reaches pt₁ sz₁ (sz₁ + (n + SUPERPGSIZE).toNat) := by
            refine ⟨hadd, .inl ?_⟩
            have hup : sz₁ ≤ PGROUNDUP sz₁ := by
              unfold PGROUNDUP
              omega
            simp only [SUPERPGSIZE] at *
            omega
          refine ⟨h₁.trans (h₁.kept.uvmalloc rfl hreach hal).1, ?_⟩
          rcases uvmalloc_size hal with rfl | rfl
          · exact hadd
          · exact Nat.zero_le _
        split at hok
        · simp only [Except.ok.injEq, Prod.mk.injEq] at hok
          obtain ⟨rfl, rfl⟩ := hok
          exact ⟨h₁, by simp only; omega⟩
        · obtain ⟨h₂, hsz₂⟩ := ih (p := { p with pagetable := pt₁, sz := sz₁ }) (by omega)
            (by simp only; omega) h₁.kept hok
          exact ⟨h₁.trans h₂, hsz₂⟩
      · split at hok
        · cases hok
        rename_i k₁ pt₁ sz₁ hun
        have h₁ := h.uvmdealloc (by omega) hun
        have hsz₁ := uvmdealloc_size hun
        rw [lower_eq hsz (by decide) (by decide)] at hsz₁
        have hle := lower_le p.sz PGSIZE
        split at hok
        · simp only [Except.ok.injEq, Prod.mk.injEq] at hok
          obtain ⟨rfl, rfl⟩ := hok
          exact ⟨h₁, by simp only; omega⟩
        split at hok
        · simp only [Except.ok.injEq, Prod.mk.injEq] at hok
          obtain ⟨rfl, rfl⟩ := hok
          exact ⟨h₁, by simp only; omega⟩
        · obtain ⟨h₂, hsz₂⟩ := ih (p := { p with pagetable := pt₁, sz := sz₁ }) (by omega)
            (by simp only; omega) h₁.kept hok
          exact ⟨h₁.trans h₂, hsz₂⟩

theorem Proc.append_pagetable {c : Char} {count : Nat} (h : p.append c count = .ok p') :
    p'.pagetable = p.pagetable := by
  rcases p.append_cases c count with ⟨-, p₁, hok, hpt, -⟩ | ⟨-, herr⟩
  · rw [h] at hok
    obtain rfl := Except.ok.inj hok
    exact hpt
  · rw [h] at herr
    cases herr

/-- **`growproc`.** -/
theorem Kept.growproc (h : Kept kend ⟨k, p.pagetable, hand, superhand⟩) {n ret : Int}
    (hsz : p.sz ≤ 2 ^ 30) (hreach : 0 < n → Reaches p.pagetable p.sz (p.sz + n.toNat))
    (hok : growproc kend k p n = .ok (k', p', ret)) :
    Moves kend ⟨k, p.pagetable, hand, superhand⟩ ⟨k', p'.pagetable, hand, superhand⟩ ∧
      p'.sz ≤ 2 ^ 30 := by
  unfold Super.growproc at hok
  split at hok
  · rename_i hn
    split at hok
    · cases hok
    rename_i k₁ pt₁ help hal
    have h₁ := h.sbrksuperuvmalloc rfl (hreach hn) hal
    simp only at hok
    split at hok
    · simp only [Except.ok.injEq, Prod.mk.injEq] at hok
      obtain ⟨rfl, rfl, -⟩ := hok
      exact ⟨h₁, hsz⟩
    rename_i hstate
    have hsize := sbrksuperuvmalloc_size (Nat.le_add_right _ _) (hreach hn).max hal
      (by simpa using hstate)
    split at hok
    · cases hok
    rename_i p₁ hp₁
    split at hok
    · cases hok
    rename_i p₂ hp₂
    split at hok
    · cases hok
    rename_i p₃ hp₃
    simp only [Except.ok.injEq, Prod.mk.injEq] at hok
    obtain ⟨rfl, rfl, -⟩ := hok
    have htable : p₃.pagetable = pt₁ := by
      rw [Proc.append_pagetable hp₃, Proc.append_pagetable hp₂, Proc.append_pagetable hp₁]
    simp only [htable]
    refine ⟨h₁, ?_⟩
    rw [hsize]
    exact (hreach hn).max
  split at hok
  · rename_i hn
    split at hok
    · cases hok
    rename_i k₁ p₁ hloop
    simp only [Except.ok.injEq, Prod.mk.injEq] at hok
    obtain ⟨rfl, rfl, -⟩ := hok
    exact h.shrinkLoop _ hn hsz hloop
  · simp only [Except.ok.injEq, Prod.mk.injEq] at hok
    obtain ⟨rfl, rfl, -⟩ := hok
    exact ⟨.refl h, hsz⟩

/-! ## `uvmcopy` -/

theorem Kept.copy (h : Kept kend ⟨k, pt, r :: hand, superhand⟩) (src : Nat) :
    Moves kend ⟨k, pt, r :: hand, superhand⟩
      ⟨{ k with mem := k.mem.copy r src PGSIZE }, pt, r :: hand, superhand⟩ := by
  refine h.write (fun x hx => Books.owns_hand List.mem_cons_self ?_)
  by_contra hne
  exact hx (Mem.copy_of_notMem hne)

theorem Kept.supercopy (h : Kept kend ⟨k, pt, hand, r :: superhand⟩) (src : Nat) :
    Moves kend ⟨k, pt, hand, r :: superhand⟩
      ⟨{ k with mem := k.mem.copy r src SUPERPGSIZE }, pt, hand, r :: superhand⟩ := by
  refine h.write (fun x hx => Books.owns_superhand List.mem_cons_self ?_)
  by_contra hne
  exact hx (Mem.copy_of_notMem hne)

variable {old old' new new' : PageTable} {sz : Nat} {ret : Int}

theorem Kept.uvmcopyErr (h : Kept kend ⟨k, new, hand, superhand⟩) {i szinc : Nat}
    (hmax : i + szinc ≤ 2 ^ 31)
    (hok : uvmcopyErr kend k old new i szinc = .ok (k', old', new', ret)) :
    Moves kend ⟨k, new, hand, superhand⟩ ⟨k', new', hand, superhand⟩ ∧ old' = old ∧
      ret = -1 := by
  unfold Super.uvmcopyErr at hok
  split at hok
  · cases hok
  rename_i hun
  simp only [Except.ok.injEq, Prod.mk.injEq] at hok
  obtain ⟨rfl, rfl, rfl, rfl⟩ := hok
  refine ⟨h.uvmunmap ?_ hun, rfl, rfl⟩
  have hU := UPAGES_eq
  have hsys := USYSCALL_eq
  simp only [PGSIZE]
  omega

/-- **`uvmcopy`**, from page `q` on, moves pages of the child only. A copy of something has
the level-0 table of the first page. -/
theorem Kept.uvmcopyLoop (hT : Tree old) (hfirst : superAt old 0 = false)
    (hmax : sz ≤ 2 ^ 30) (n : Nat) : ∀ {k : Kernel} {new : PageTable} (q : Nat),
    Kept kend ⟨k, new, hand, superhand⟩ → (q = 0 ∨ tableAt new 0 = true) →
    uvmcopyLoop kend k old new (q * 4096) sz n = .ok (k', old', new', ret) →
    Moves kend ⟨k, new, hand, superhand⟩ ⟨k', new', hand, superhand⟩ ∧ old' = old ∧
      (ret = 0 ∧ (q * 4096 < sz → 0 < n → tableAt new' 0 = true) ∨ ret = -1) := by
  have hU := UPAGES_eq
  induction n with
  | zero =>
      intro k new q h _ hok
      simp only [Super.uvmcopyLoop, Except.ok.injEq, Prod.mk.injEq] at hok
      obtain ⟨rfl, rfl, rfl, rfl⟩ := hok
      exact ⟨.refl h, rfl, .inl ⟨rfl, fun _ hn => absurd hn (Nat.lt_irrefl 0)⟩⟩
  | succ n ih =>
      intro k new q h hq hok
      -- memory runs out: the child gives everything back
      have hundo : ∀ {k₁ : Kernel} {new₁ : PageTable} {szinc : Nat},
          q * 4096 + szinc ≤ 2 ^ 31 →
          Moves kend ⟨k, new, hand, superhand⟩ ⟨k₁, new₁, hand, superhand⟩ →
          Super.uvmcopyErr kend k₁ old new₁ (q * 4096) szinc = .ok (k', old', new', ret) →
          Moves kend ⟨k, new, hand, superhand⟩ ⟨k', new', hand, superhand⟩ ∧ old' = old ∧
            (ret = 0 ∧ (q * 4096 < sz → 0 < n + 1 → tableAt new' 0 = true) ∨ ret = -1) := by
        intro k₁ new₁ szinc hle hM herr
        obtain ⟨hE, hold, hret⟩ := hM.kept.uvmcopyErr hle herr
        exact ⟨hM.trans hE, hold, .inr hret⟩
      obtain ⟨hp₀, hp₁, -⟩ := vpn_page q
      rw [Super.uvmcopyLoop] at hok
      split at hok
      swap
      · rename_i hge
        simp only [Except.ok.injEq, Prod.mk.injEq] at hok
        obtain ⟨rfl, rfl, rfl, rfl⟩ := hok
        exact ⟨.refl h, rfl, .inl ⟨rfl, fun hlt _ => absurd hlt hge⟩⟩
      rename_i hlt
      have hpage : q < UPAGES := by omega
      have hva : q * 4096 < MAXVA := by
        simp only [MAXVA]
        omega
      rw [hT.walk k hva, hp₀, hp₁] at hok
      by_cases hs : superAt old (q / 512) = true
      · rw [if_pos hs] at hok
        obtain ⟨hv, hS⟩ := superAt_iff.mp hs
        have hne : q ≠ 0 := by
          rintro rfl
          rw [hfirst] at hs
          cases hs
        have htab := hq.resolve_left hne
        simp only [hv, hS, Bool.true_eq_false, if_false, if_true] at hok
        split at hok
        · rename_i k₁ hk
          obtain ⟨rfl, -⟩ := superkalloc_none hk
          exact hundo (by simp only [SUPERPGSIZE]; omega) (.refl h) hok
        rename_i mem k₁ hk
        have h₁ := h.superkalloc hk
        have h₂ := h₁.trans (h₁.kept.supercopy (PTE2PA (old.ent 1 (q / 512))))
        split at hok
        · cases hok
        rename_i k₂ new₂ ret₂ hmap
        have habove : (new.ent 2 (vpn 2 (q * 4096))).v = true := by
          have hreg : vpn 2 (q * 4096) = 0 := by
            rw [vpn_two]
            omega
          rw [hreg]
          exact (h.tree.mid 0 (tableAt_iff.mp htab).1).1
        have hleaf : (PA2PTE mem (old.ent 1 (q / 512)).toFlags).leaf = true :=
          (hT.mid _ hv).2.symm.trans hS
        obtain ⟨rfl, h₃⟩ := h₂.kept.supermappages habove (fun _ => htab) hleaf hmap
        have hM := h₂.trans h₃
        rw [if_neg (by decide), show q * 4096 + SUPERPGSIZE = (q + 512) * 4096 by
          simp only [SUPERPGSIZE]; omega] at hok
        have htab' := hM.table 0 htab
        obtain ⟨h₄, hold, hret⟩ := ih (q + 512) hM.kept (.inr htab') hok
        exact ⟨hM.trans h₄, hold, hret.imp_left (fun hr => ⟨hr.1, fun _ _ => h₄.table 0 htab'⟩)⟩
      rw [if_neg hs] at hok
      by_cases ht : tableAt old (q / 512) = true
      swap
      · rw [if_neg ht] at hok
        cases hok
      rw [if_pos ht] at hok
      simp only at hok
      split at hok
      · cases hok
      rename_i hv
      obtain ⟨-, hS, hleaf⟩ := hT.bot q (by simpa using hv)
      simp only [hS, Bool.false_eq_true, if_false] at hok
      split at hok
      · rename_i k₁ hk
        obtain ⟨rfl, -⟩ := kalloc_none hk
        exact hundo (by simp only [PGSIZE]; omega) (.refl h) hok
      rename_i mem k₁ hk
      have h₁ := h.kalloc hk
      have h₂ := h₁.trans (h₁.kept.copy (PTE2PA (old.ent 0 q)))
      split at hok
      · cases hok
      rename_i k₂ new₂ ret₂ hmap
      have hleaf' : (PA2PTE mem (old.ent 0 q).toFlags).leaf = true := hleaf
      rcases h₂.kept.mappages hpage hS hleaf' hmap with ⟨rfl, h₃, htab, -⟩ | ⟨hret, h₃⟩
      · have hM := h₂.trans h₃
        rw [if_neg (by decide), show q * 4096 + PGSIZE = (q + 1) * 4096 by
          simp only [PGSIZE]; omega] at hok
        have hfirst' : tableAt new₂ 0 = true := by
          rcases hq with rfl | hq
          · exact htab
          · exact hM.table 0 hq
        obtain ⟨h₄, hold, hret⟩ := ih (q + 1) hM.kept (.inr hfirst') hok
        exact ⟨hM.trans h₄, hold,
          hret.imp_left (fun hr => ⟨hr.1, fun _ _ => h₄.table 0 hfirst'⟩)⟩
      · rw [if_pos hret] at hok
        have hM := h₂.trans h₃
        split at hok
        · cases hok
        rename_i k₃ hfree
        exact hundo (by simp only [PGSIZE]; omega) (hM.trans (hM.kept.kfree hfree)) hok

/-- **`uvmcopy`.** -/
theorem Kept.uvmcopy (h : Kept kend ⟨k, new, hand, superhand⟩) (hT : Tree old)
    (hfirst : superAt old 0 = false) (hmax : sz ≤ 2 ^ 30)
    (hok : uvmcopy kend k old new sz = .ok (k', old', new', ret)) :
    Moves kend ⟨k, new, hand, superhand⟩ ⟨k', new', hand, superhand⟩ ∧ old' = old ∧
      (ret = 0 ∧ (0 < sz → tableAt new' 0 = true) ∨ ret = -1) := by
  unfold Super.uvmcopy at hok
  rw [← Nat.zero_mul 4096] at hok
  obtain ⟨hM, hold, hret⟩ := Kept.uvmcopyLoop hT hfirst hmax _ 0 h (.inl rfl) hok
  refine ⟨hM, hold, hret.imp_left (fun hr => ⟨hr.1, fun hsz => hr.2 (by omega) ?_⟩)⟩
  simp only [PGROUNDUP_eq, PGSIZE]
  unfold pages
  omega

end Xv6Labs.Super
