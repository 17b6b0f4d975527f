import Xv6Labs.Cow.Exact

/-!
# A fork that runs out of memory

`uvmcopy` needs memory for the child's page tables only. When there is none at
some page, the parent's entry for that page is already marked but not counted,
and the cleanup drops the count of every page the child was given so far. The
counts come out as they were, because the ledger is exact before and after and
the user entries of all processes map the same frames.
-/

namespace Xv6Labs.Cow

open Xv6Labs.Lib

variable {n kend : Nat} {km km' : Kmem} {pts : Tables n} {kern : List Nat}
  {p c : Fin n} {pt pt' : PageTable}

/-! ## No panic -/

theorem Inv.uvmunmapLoop_total : ∀ (m a : Nat) {km : Kmem} {pts : Tables n}
    {pt : PageTable}, Inv kend km pts kern → pts p = some pt → a % 4096 = 0 →
    (∀ k, a / 4096 ≤ k → k < a / 4096 + m → (pt.ent 0 k).v = true ∧
      (pt.ent 0 k).toFlags ≠ { v := true }) →
    ∃ r, Cow.uvmunmapLoop kend km pt a true m = .ok r := by
  intro m
  induction m with
  | zero =>
      intro a km pts pt _ _ _ _
      exact ⟨_, rfl⟩
  | succ m ih =>
      intro a km pts pt h hp ha hmap
      have hwf := h.wf p pt hp
      obtain ⟨hv, hflags⟩ := hmap (vpn 0 a) (Nat.le_refl _) (by rw [vpn_zero]; omega)
      have hva : a < MAXVA := by
        have := hwf.bound _ hv
        simp only [vpn_zero, entries, MAXVA] at *
        omega
      obtain ⟨km₁, hfree, hinv, -⟩ := h.unmapPage hp hv
      obtain ⟨r, hr⟩ := ih (a + 4096) hinv (Function.update_self ..) (by omega)
        (fun k h₁ h₂ => by
          have hne : ¬ (0 = 0 ∧ k = vpn 0 a) := by
            rw [vpn_zero]
            omega
          rw [PageTable.set_ent_of_ne _ _ hne]
          exact hmap k (by omega) (by omega))
      refine ⟨r, ?_⟩
      unfold Cow.uvmunmapLoop
      rw [walk_noalloc hva, hwf.lookup hv]
      simp only [hv, Bool.true_eq_false, hflags, if_false, if_true, hfree]
      exact hr

/-- **`uvmcopy` of mapped pages ends**, into a child whose entries so far are
copies. -/
theorem Inv.uvmcopyLoop_total (hpc : p ≠ c) (own : Nat → Option UInt8) :
    ∀ (m i : Nat) {km : Kmem} {pts : Tables n} {old new : PageTable},
    Inv kend km pts kern → pts p = some old → pts c = some new → i % 4096 = 0 →
    (∀ k, k < i / 4096 + m → (old.ent 0 k).v = true) →
    (∀ y, y / 4096 < i / 4096 + m → own y = none) →
    (∀ y, read km.mem (some new) y =
      if y / 4096 < i / 4096 then read km.mem (some old) y else own y) →
    (∀ k, k < i / 4096 → (new.ent 0 k).cow = true) →
    ∃ r, Cow.uvmcopyLoop kend km old new i m = .ok r := by
  intro m
  induction m with
  | zero =>
      intro i km pts old new _ _ _ _ _ _ _ _
      exact ⟨_, rfl⟩
  | succ m ih =>
      intro i km pts old new h hp hc hi hmap hown hdone hcow
      have hwf := h.wf p old hp
      have hv : (old.ent 0 (vpn 0 i)).v = true := hmap _ (by rw [vpn_zero]; omega)
      have hva : i < MAXVA := by
        have := hwf.bound _ hv
        simp only [vpn_zero, entries, MAXVA] at *
        omega
      obtain ⟨km₂, new₂, ret, hmp, hround⟩ := h.uvmcopyRound hpc hp hc hi hv
        (hown i (by omega)) hdone
      have hgiven : ∀ k, k < i / 4096 → (new.ent 0 k).v = true := by
        intro k hk
        have hread := hdone (k * 4096)
        have hkv : vpn 0 (k * 4096) = k := by
          rw [vpn_zero]
          omega
        rw [if_pos (by omega), read_some hwf, read_some (h.wf c new hc), hkv,
          if_pos (hmap k (by omega))] at hread
        by_contra hne
        rw [if_neg hne] at hread
        cases hread
      unfold Cow.uvmcopyLoop
      rw [walk_noalloc hva, hwf.lookup hv]
      simp only [hv, Bool.true_eq_false, if_false, hmp]
      rcases hround with ⟨rfl, hsame, hq⟩ | ⟨rfl, hR⟩
      · -- the pages to unmap again are those the child was given
        have hmarked : ∀ k, k < i / 4096 →
            (new₂.ent 0 k).v = true ∧ (new₂.ent 0 k).toFlags ≠ { v := true } := by
          intro k hk
          have hvn := hgiven k hk
          rw [hsame.keep k hvn]
          refine ⟨hvn, fun hflags => ?_⟩
          have := hcow k hk
          rw [hflags] at this
          cases this
        obtain ⟨r, hr⟩ := hq.inv.uvmunmapLoop_total (i / 4096) 0
          (Function.update_self ..) (by omega) (fun k _ hk => hmarked k (by omega))
        obtain ⟨km₃, new₃⟩ := r
        simp only [ne_eq, show (-1 : Int) ≠ 0 by decide, not_false_eq_true, if_true,
          uvmunmap, PGSIZE, Nat.zero_mod, not_true_eq_false, if_false, hr]
        exact ⟨_, rfl⟩
      · simp only [ne_eq, not_true_eq_false, if_false]
        refine ih (i + PGSIZE) hR.inv ?_ (Function.update_self ..)
          (by simp only [PGSIZE]; omega) (fun k hk => ?_) (fun y hy => ?_) (fun y => ?_)
          (fun k hk => ?_)
        · rw [Function.update_of_ne hpc, Function.update_self]
          rfl
        · simp only [PGSIZE] at hk
          by_cases hki : k = vpn 0 i
          · rw [hki]
            show ((old.set 0 (vpn 0 i) (cowEntry _)).ent 0 (vpn 0 i)).v = true
            rw [PageTable.set_ent_self]
            exact hv
          · rw [PageTable.set_ent_of_ne _ _ (fun hh => hki hh.2)]
            exact hmap k (by omega)
        · simp only [PGSIZE] at hy
          exact hown y (by omega)
        · have hold := hR.others p hpc y
          rw [Function.update_self, hp] at hold
          rw [hR.child y]
          show _ = if _ then read _ (some (old.set 0 (vpn 0 i) (cowEntry _))) y else own y
          rw [hold]
          rfl
        · by_cases hki : k = vpn 0 i
          · rw [hki]
            exact hR.given.cow
          · -- one of the pages done before
            simp only [PGSIZE] at hk
            rw [vpn_zero] at hki
            obtain ⟨-, hsame⟩ := hR.kept k (by rwa [vpn_zero])
            rw [hsame (hgiven k (by omega))]
            exact hcow k (by omega)

/-! ## The counts -/

theorem userHits_sameRights {old old' : PageTable}
    (h : ∀ k, SameRights (old.ent 0 k) (old'.ent 0 k)) (pa : Nat) :
    userHits pa (some old') = userHits pa (some old) :=
  hits_congr (fun k _ => by simp only [Pte.frame, (h k).v, (h k).frame]) pa

theorem userHits_kept {new new' : PageTable} (h : ∀ k, (new'.ent 0 k).v = (new.ent 0 k).v ∧
    ((new.ent 0 k).v = true → new'.ent 0 k = new.ent 0 k)) (pa : Nat) :
    userHits pa (some new') = userHits pa (some new) := by
  refine hits_congr (fun k _ => ?_) pa
  by_cases hv : (new.ent 0 k).v = true
  · rw [(h k).2 hv]
  · simp only [Pte.frame, (h k).1, hv, if_false, Bool.false_eq_true]

theorem Shape.kernRefs_eq_zero {pa : Nat} (h : Shape pts kern)
    (hpos : 0 < userRefs pts pa) : kernRefs pts kern pa = 0 := by
  by_contra hne
  have := h.kernel pa (Nat.pos_of_ne_zero hne)
  unfold refs at this
  omega

/-- Two states of the kernel that agree on the user references of a frame in use
agree on its count, and the frame is free in neither. -/
theorem Inv.count_eq {pts' : Tables n} {pa : Nat} (h : Inv kend km pts kern)
    (h' : Inv kend km' pts' kern) (hpos : 0 < userRefs pts pa)
    (heq : userRefs pts' pa = userRefs pts pa) :
    km'.count (pa / 4096) = km.count (pa / 4096) ∧ pa ∉ km'.freelist := by
  have hrefs : refs pts kern pa = userRefs pts pa := by
    unfold refs
    rw [h.kernRefs_eq_zero hpos, Nat.add_zero]
  have hrefs' : refs pts' kern pa = userRefs pts pa := by
    unfold refs
    rw [h'.kernRefs_eq_zero (by omega), Nat.add_zero, heq]
  have hm : Managed kend pa := h.ledger.held pa (by omega)
  refine ⟨?_, h'.ledger.notMem_of_pos (by omega)⟩
  rw [h'.ledger.count pa hm, h.ledger.count pa hm, hrefs, hrefs']

/-- **A failed fork gives everything back.** For every parent whose pages below
`PGROUNDUP(sz)` are mapped, every child without a page there and every state of
the allocator, `uvmcopy` returns. Either it gave the child every page, or some
`mappages` failed and it returns -1: every frame in use has its old count and is
not free, the child has no page there and its other entries are as they were,
and every entry of the parent maps the same frame with the same V, R, X and U
bits and the same bytes. -/
theorem uvmcopy_failure_clean {new : PageTable} {sz : Nat} (hpc : p ≠ c)
    (h : Inv kend km pts kern) (hp : pts p = some pt) (hc : pts c = some new)
    (hmap : ∀ k, k < PGROUNDUP sz / PGSIZE → (pt.ent 0 k).v = true)
    (hbare : ∀ k, k < PGROUNDUP sz / PGSIZE → (new.ent 0 k).v = false) :
    ∃ km' pt' new' ret, uvmcopy kend km pt new sz = .ok (km', pt', new', ret) ∧
      ((ret = 0 ∧ ∀ k, k < PGROUNDUP sz / PGSIZE → (new'.ent 0 k).v = true) ∨
        (ret = -1 ∧
          (∀ pa, 0 < userRefs pts pa →
            km'.count (pa / 4096) = km.count (pa / 4096) ∧ pa ∉ km'.freelist) ∧
          (∀ k, (new'.ent 0 k).v = (new.ent 0 k).v ∧
            ((new.ent 0 k).v = true → new'.ent 0 k = new.ent 0 k)) ∧
          (∀ k, SameRights (pt.ent 0 k) (pt'.ent 0 k)) ∧
          ∀ y, read km'.mem (some pt') y = read km.mem (some pt) y)) := by
  have hwfc := h.wf c new hc
  have hown : ∀ y, y / 4096 < 0 / 4096 + PGROUNDUP sz / PGSIZE →
      read km.mem (some new) y = none := by
    intro y hy
    rw [read_some hwfc, vpn_zero, hbare (y / 4096) (by omega), if_neg Bool.false_ne_true]
  have hdone : ∀ y, read km.mem (some new) y =
      if y / 4096 < 0 / 4096 then read km.mem (some pt) y else read km.mem (some new) y := by
    intro y
    rw [if_neg (by omega)]
  obtain ⟨⟨km', pt', new', ret⟩, hu⟩ := h.uvmcopyLoop_total hpc (read km.mem (some new))
    (PGROUNDUP sz / PGSIZE) 0 hp hc (by omega) (fun k hk => hmap k (by omega)) hown hdone
    (fun k hk => by omega)
  have hcopied := h.uvmcopyLoop hpc _ _ 0 hp hc (by omega) hown hdone hu
  have hrights : ∀ k, SameRights (pt.ent 0 k) (pt'.ent 0 k) :=
    fun k => (uvmcopyLoop_parent _ 0 hu k).1.sameRights
  have hwf' := hcopied.inv.wf c new' (Function.update_self ..)
  have hkv : ∀ k, vpn 0 (k * 4096) = k := by
    intro k
    rw [vpn_zero]
    omega
  refine ⟨km', pt', new', ret, hu, ?_⟩
  rcases hcopied.child with ⟨rfl, hch⟩ | ⟨rfl, hch⟩
  · refine .inl ⟨rfl, fun k hk => ?_⟩
    have hread := hch (k * 4096)
    rw [if_pos (by omega), read_some hwf', read_some (h.wf p pt hp), hkv,
      if_pos (hmap k hk)] at hread
    by_contra hne
    rw [if_neg hne] at hread
    cases hread
  · have hsame : ∀ k, (new'.ent 0 k).v = (new.ent 0 k).v ∧
        ((new.ent 0 k).v = true → new'.ent 0 k = new.ent 0 k) := by
      intro k
      by_cases hk : k < PGROUNDUP sz / PGSIZE
      · have hread := hch (k * 4096)
        rw [hown _ (by omega), read_some hwf', hkv] at hread
        have hno : (new'.ent 0 k).v = false := by
          by_contra hne
          rw [if_pos (by simpa using hne)] at hread
          cases hread
        exact ⟨hno.trans (hbare k hk).symm, fun hv => by rw [hbare k hk] at hv; cases hv⟩
      · exact hcopied.kept k (by omega)
    refine .inr ⟨rfl, fun pa hpos => h.count_eq hcopied.inv hpos ?_, hsame, hrights, ?_⟩
    · have h₁ := userRefs_update pts p (some pt') pa
      have h₂ := userRefs_update (Function.update pts p (some pt')) c (some new') pa
      rw [hp, userHits_sameRights hrights] at h₁
      rw [Function.update_of_ne hpc.symm, hc, userHits_kept hsame] at h₂
      omega
    · intro y
      have hothers := hcopied.others p hpc y
      rwa [Function.update_self, hp] at hothers

/-- One page, a bare child, and a single free page where two tables are needed: the next page
that takes a table is page 512. -/
theorem uvmcopy_failure_clean_two_tables :
    ∃ (km : Kmem) (s : Sys 2) (pr prc : Proc),
      kinit (PHYSTOP - 24576) (fun _ => 0) = .ok km ∧
      Run (Step (PHYSTOP - 24576)) (Sys.init 2 km)
        [(.create 0, .silent), (.grow 0 true false, .grow 0 0),
          (.create 1, .silent)] s ∧
      s.proc 0 = some pr ∧ s.proc 1 = some prc ∧
      ∃ km' pt' new',
        uvmcopy (PHYSTOP - 24576) s.km pr.pagetable prc.pagetable pr.sz =
          .ok (km', pt', new', -1) ∧
        (∀ pa, 0 < userRefs s.tables pa →
          km'.count (pa / 4096) = s.km.count (pa / 4096) ∧ pa ∉ km'.freelist) ∧
        (∀ k, (new'.ent 0 k).v = (prc.pagetable.ent 0 k).v ∧
          ((prc.pagetable.ent 0 k).v = true → new'.ent 0 k = prc.pagetable.ent 0 k)) ∧
        (∀ k, SameRights (pr.pagetable.ent 0 k) (pt'.ent 0 k)) ∧
        ∀ y, read km'.mem (some pt') y = read s.km.mem (some pr.pagetable) y := by
  obtain ⟨km, s, pr, prc, hk, hr, hp, hc, hmap, hbare, km', pt', new', hu⟩ :
      ∃ (km : Kmem) (s : Sys 2) (pr prc : Proc),
        kinit (PHYSTOP - 24576) (fun _ => 0) = .ok km ∧
        Run (Step (PHYSTOP - 24576)) (Sys.init 2 km)
          [(.create 0, .silent), (.grow 0 true false, .grow 0 0),
            (.create 1, .silent)] s ∧
        s.proc 0 = some pr ∧ s.proc 1 = some prc ∧
        (∀ k, k < PGROUNDUP pr.sz / PGSIZE → (pr.pagetable.ent 0 k).v = true) ∧
        (∀ k, k < PGROUNDUP pr.sz / PGSIZE → (prc.pagetable.ent 0 k).v = false) ∧
        ∃ km' pt' new',
          uvmcopy (PHYSTOP - 24576) s.km pr.pagetable prc.pagetable pr.sz =
            .ok (km', pt', new', -1) := by
    refine ⟨_, _, _, _, rfl, .cons rfl (.cons rfl (.cons rfl (.nil _))), rfl, rfl,
      fun k hk => ?_, fun _ _ => rfl, _, _, _, rfl⟩
    obtain rfl : k = 0 := Nat.lt_one_iff.mp hk
    rfl
  refine ⟨km, s, pr, prc, hk, hr, hp, hc, km', pt', new', hu, ?_⟩
  obtain ⟨h, -⟩ := Sys.run_refines hk hr
  obtain ⟨km₁, pt₁, new₁, ret, hu₁, hres⟩ := uvmcopy_failure_clean (by decide) h.inv
    (Sys.tables_some hp) (Sys.tables_some hc) hmap hbare
  rw [hu] at hu₁
  simp only [Except.ok.injEq, Prod.mk.injEq] at hu₁
  obtain ⟨rfl, rfl, rfl, rfl⟩ := hu₁
  rcases hres with ⟨hret, -⟩ | ⟨-, hclean⟩
  · exact absurd hret (by decide)
  · exact hclean

end Xv6Labs.Cow
