import Xv6Labs.Cow.Protected
import Xv6Labs.Cow.ForkFail

/-!
# The kernel never panics

The panics of `walk`, `mappages`, `uvmunmap`, `uvmcopy` and `kfree` guard
against a page table that does not fit `p->sz`. `Whole` says that it fits: the
user pages are exactly those below `PGROUNDUP(p->sz)`. All operations keep it,
the bare `uvmunmap` with arguments of its caller's choice excepted, so none of
the panics is reached, however little memory is left.
-/

namespace Xv6Labs.Cow

open Xv6Labs.Lib

variable {n kend : Nat} {km km' : Kmem} {pts : Tables n} {kern : List Nat}
  {p c q : Fin n} {pt pt' pt'' : PageTable} {s t : Sys n} {pr : Proc} {ev : Effect n}

/-! ## Page tables that fit their size -/

/-- The user pages are those below `sz`. -/
structure Whole (pt : PageTable) (sz : Nat) : Prop where
  mapped : ∀ k, (pt.ent 0 k).v = true ↔ k < PGROUNDUP sz / 4096
  user : ∀ k, (pt.ent 0 k).v = true → (pt.ent 0 k).u = true

structure SamePages (pt pt' : PageTable) : Prop where
  v : ∀ k, (pt'.ent 0 k).v = (pt.ent 0 k).v
  u : ∀ k, (pt.ent 0 k).v = true → (pt'.ent 0 k).u = (pt.ent 0 k).u

theorem SamePages.refl (pt : PageTable) : SamePages pt pt := ⟨fun _ => rfl, fun _ _ => rfl⟩

theorem SamePages.trans (h : SamePages pt pt') (h' : SamePages pt' pt'') :
    SamePages pt pt'' := by
  constructor
  · intro k
    rw [h'.v, h.v]
  · intro k hk
    rw [h'.u k (by rw [h.v]; exact hk), h.u k hk]

theorem Whole.samePages {sz : Nat} (h : Whole pt sz) (hs : SamePages pt pt') :
    Whole pt' sz := by
  constructor
  · intro k
    rw [hs.v]
    exact h.mapped k
  · intro k hk
    rw [hs.v] at hk
    rw [hs.u k hk]
    exact h.user k hk

theorem SameUser.samePages (h : SameUser pt pt') : SamePages pt pt' := by
  constructor
  · intro k
    by_cases hk : (pt.ent 0 k).v = true
    · rw [h.keep k hk]
    · have hk' : ¬ (pt'.ent 0 k).v = true := fun hv => hk (h.only k hv)
      rw [Bool.not_eq_true] at hk hk'
      rw [hk, hk']
  · intro k hk
    rw [h.keep k hk]

theorem SamePages.set {k : Nat} {e : Pte} (hv : e.v = (pt.ent 0 k).v)
    (hu : e.u = (pt.ent 0 k).u) : SamePages pt (pt.set 0 k e) := by
  constructor
  · intro l
    by_cases hl : l = k
    · rw [hl, PageTable.set_ent_self, hv]
    · rw [pt.set_ent_of_ne e (fun hh => hl hh.2)]
  · intro l _
    by_cases hl : l = k
    · rw [hl, PageTable.set_ent_self, hu]
    · rw [pt.set_ent_of_ne e (fun hh => hl hh.2)]

theorem cowhandle_samePages {va : Nat} {ret : Int}
    (hc : cowhandle kend km pt va = .ok (km', pt', ret)) : SamePages pt pt' := by
  obtain ⟨-, ⟨-, -, rfl, -⟩ | ⟨-, -, -, -, -, r, km₁, -, rfl, -⟩⟩ := cowhandle_cases hc
  · exact .refl _
  · exact .set rfl rfl

theorem pagefault_samePages {va sp : Nat} {b : Bool}
    (hf : pagefault kend km pt va sp = .ok (km', pt', b)) : SamePages pt pt' := by
  unfold pagefault at hf
  simp only at hf
  split at hf
  · simp only [Except.ok.injEq, Prod.mk.injEq] at hf
    rw [← hf.2.1]
    exact .refl _
  split at hf
  · cases hf
  · rename_i hc
    simp only [Except.ok.injEq, Prod.mk.injEq] at hf
    rw [← hf.2.1]
    exact cowhandle_samePages hc

theorem copyout_samePages (N : Nat) : ∀ {km km' : Kmem} {pt pt' : PageTable}
    {dstva : Nat} {src left : List UInt8} {ret : Int}, src.length ≤ N →
    copyout kend km pt dstva src = .ok (km', pt', ret, left) → SamePages pt pt' := by
  induction N with
  | zero =>
      intro km km' pt pt' dstva src left ret hN hc
      rw [copyout, if_pos (Nat.le_zero.mp hN)] at hc
      simp only [Except.ok.injEq, Prod.mk.injEq] at hc
      rw [← hc.2.1]
      exact .refl _
  | succ N ih =>
      intro km km' pt pt' dstva src left ret hN hc
      rw [copyout] at hc
      split at hc
      · simp only [Except.ok.injEq, Prod.mk.injEq] at hc
        rw [← hc.2.1]
        exact .refl _
      simp only at hc
      split at hc
      · cases hc
      · rename_i hpage
        simp only [Except.ok.injEq, Prod.mk.injEq] at hc
        rw [← hc.2.1]
        obtain ⟨-, -, rfl, -⟩ | ⟨-, hno, -⟩ := copyoutPage_cases hpage
        · exact .refl _
        · exact absurd rfl hno
      · rename_i km₁ pt₁ pa0 hpage
        have hround : SamePages pt pt₁ := by
          obtain ⟨hno, -⟩ | ⟨-, -, -, -, ⟨-, -, rfl⟩ | ⟨-, -, hch⟩⟩ :=
            copyoutPage_cases hpage
          · cases hno
          · exact .refl _
          · exact cowhandle_samePages hch
        refine hround.trans (ih ?_ hc)
        simp only [List.length_drop, PGSIZE, PGROUNDDOWN]
        omega

theorem uvmcopyLoop_samePages {m i : Nat} {old new old' new' : PageTable} {ret : Int}
    (hu : uvmcopyLoop kend km old new i m = .ok (km', old', new', ret)) :
    SamePages old old' := by
  have hrights := fun k => (uvmcopyLoop_parent m i hu k).1.sameRights
  exact ⟨fun k => (hrights k).v, fun k _ => (hrights k).u⟩

/-! ## Shrinking and growing -/

/-- **A whole table cut down** to the pages below `sz'`. -/
theorem Whole.unmap {sz sz' : Nat} (h : Whole pt sz) (hle : PGROUNDUP sz' ≤ PGROUNDUP sz)
    (hu : uvmunmap kend km pt (PGROUNDUP sz')
      ((PGROUNDUP sz - PGROUNDUP sz') / PGSIZE) true = .ok (km', pt')) : Whole pt' sz' := by
  have hal : PGROUNDUP sz' % PGSIZE = 0 := by
    simp only [PGROUNDUP, PGSIZE]
    omega
  unfold uvmunmap at hu
  rw [if_neg (not_not.mpr hal)] at hu
  have hent := uvmunmapLoop_ent _ _ hu
  -- the range reaches from the new end to the old one
  have hrange : ∀ k, k < PGROUNDUP sz / 4096 →
      (PGROUNDUP sz' / 4096 ≤ k ∧
        k < PGROUNDUP sz' / 4096 + (PGROUNDUP sz - PGROUNDUP sz') / PGSIZE ↔
      PGROUNDUP sz' / 4096 ≤ k) := by
    intro k hk
    simp only [PGROUNDUP, PGSIZE] at *
    omega
  constructor
  · intro k
    rw [hent k]
    by_cases hk : k < PGROUNDUP sz / 4096
    · by_cases hin : PGROUNDUP sz' / 4096 ≤ k
      · rw [if_pos ((hrange k hk).mpr hin)]
        simp only [Pte.zero, Bool.false_eq_true, false_iff]
        omega
      · rw [if_neg (fun hh => hin hh.1), h.mapped]
        omega
    · have hout : ¬ k < PGROUNDUP sz' / 4096 := by omega
      have hv : ¬ (pt.ent 0 k).v = true := fun hv => hk ((h.mapped k).mp hv)
      split
      · simp only [Pte.zero, Bool.false_eq_true, false_iff]
        exact hout
      · exact ⟨fun hv' => absurd hv' hv, fun hk' => absurd hk' hout⟩
  · intro k hk
    rw [hent k] at hk ⊢
    split at hk
    · cases hk
    · rw [if_neg (by assumption)]
      exact h.user k hk

theorem Inv.unmap_total {sz a : Nat} (h : Inv kend km pts kern) (hp : pts p = some pt)
    (hw : Whole pt sz) (ha : a % 4096 = 0) (m : Nat)
    (hm : a / 4096 + m ≤ PGROUNDUP sz / 4096) :
    ∃ km' pt', uvmunmap kend km pt a m true = .ok (km', pt') := by
  obtain ⟨⟨km', pt'⟩, hu⟩ := h.uvmunmapLoop_total m a hp ha (fun k _ hk => by
    have hv : (pt.ent 0 k).v = true := (hw.mapped k).mpr (by omega)
    refine ⟨hv, fun hflags => ?_⟩
    have hu := hw.user k hv
    rw [hflags] at hu
    cases hu)
  refine ⟨km', pt', ?_⟩
  unfold uvmunmap
  rw [if_neg (by simp only [PGSIZE]; omega)]
  exact hu

theorem Inv.uvmdealloc_total {sz : Nat} (h : Inv kend km pts kern) (hp : pts p = some pt)
    (hw : Whole pt sz) (newsz : Nat) :
    ∃ km' pt' sz', uvmdealloc kend km pt sz newsz = .ok (km', pt', sz') ∧
      Whole pt' sz' := by
  have hal : PGROUNDUP newsz % 4096 = 0 := by
    simp only [PGROUNDUP]
    omega
  unfold uvmdealloc
  by_cases hle : sz ≤ newsz
  · rw [if_pos hle]
    exact ⟨km, pt, sz, rfl, hw⟩
  rw [if_neg hle]
  by_cases hlt : PGROUNDUP newsz < PGROUNDUP sz
  · rw [if_pos hlt]
    obtain ⟨km', pt', hu⟩ := h.unmap_total hp hw hal
      ((PGROUNDUP sz - PGROUNDUP newsz) / PGSIZE) (by simp only [PGROUNDUP, PGSIZE]; omega)
    rw [hu]
    exact ⟨km', pt', newsz, rfl, hw.unmap (Nat.le_of_lt hlt) hu⟩
  · rw [if_neg hlt]
    refine ⟨km, pt, newsz, rfl, fun k => ?_, hw.user⟩
    rw [hw.mapped k]
    simp only [PGROUNDUP] at *
    omega

/-- Pages on different frames fit into memory. -/
theorem Inv.whole_bound {sz : Nat} (h : Inv kend km pts kern) (hp : pts p = some pt)
    (hd : Distinct pt) (hw : Whole pt sz) : PGROUNDUP sz ≤ PHYSTOP := by
  have hcard := Finset.card_le_card_of_injOn
    (s := Finset.range (PGROUNDUP sz / 4096)) (t := Finset.range (PHYSTOP / 4096))
    (fun k => PTE2PA (pt.ent 0 k) / 4096) ?_ ?_
  · simp only [Finset.card_range] at hcard
    simp only [PGROUNDUP, PHYSTOP] at *
    omega
  · intro k hk
    have hm := h.managed hp ((hw.mapped k).mpr (Finset.mem_range.mp hk))
    have h₁ := hm.hi
    have h₂ := hm.aligned
    simp only [Finset.coe_range, Set.mem_Iio]
    simp only [PHYSTOP] at *
    omega
  · intro k hk l hl heq
    have hk' := (hw.mapped k).mpr (Finset.mem_range.mp hk)
    have hl' := (hw.mapped l).mpr (Finset.mem_range.mp hl)
    exact hd k l hk' hl' ((h.managed hp hk').eq_of_div (h.managed hp hl') heq)

/-- **One more page**: `uvmalloc` maps it or leaves the pages as they are. -/
theorem Inv.uvmallocPage_total {sz : Nat} (h : Inv kend km pts kern)
    (hp : pts p = some pt) (hw : Whole pt sz) (hbound : PGROUNDUP sz < MAXVA) (w x : Bool) :
    ∃ km' pt' ret, Cow.uvmallocPage kend km pt (PGROUNDUP sz) w x = .ok (km', pt', ret) ∧
      ((ret = 0 ∧ Whole pt' (PGROUNDUP sz + PGSIZE)) ∨ (ret ≠ 0 ∧ Whole pt' sz)) := by
  have hal : PGROUNDUP sz % 4096 = 0 := by
    simp only [PGROUNDUP]
    omega
  unfold Cow.uvmallocPage
  rcases hk : kalloc km with ⟨_ | r, km₁⟩
  · exact ⟨km₁, pt, -1, rfl, .inr ⟨by decide, hw⟩⟩
  obtain ⟨hi₁, -⟩ := h.kallocKern hk
  have hi₂ := hi₁.mem (km₁.mem.fill r PGSIZE 0)
  obtain ⟨km₂, pt₂, o, hwalk⟩ := walk_ok hbound { km₁ with mem := km₁.mem.fill r PGSIZE 0 }
    pt true
  obtain ⟨-, hq, -, hsame, hkey⟩ := hi₂.walk hp hwalk
  have hw₂ := hw.samePages hsame.samePages
  simp only [mappages_page hal, hwalk]
  cases o with
  | none =>
      obtain ⟨km₃, hfree, -⟩ := hq.inv.kfreeKern
      simp only [ne_eq, show (-1 : Int) ≠ 0 by decide, not_false_eq_true, if_true, hfree]
      exact ⟨km₃, pt₂, -1, rfl, .inr ⟨by decide, hw₂⟩⟩
  | some k =>
      obtain ⟨rfl, -⟩ := hkey k rfl
      -- the page is the first one that is not mapped
      have hnew : vpn 0 (PGROUNDUP sz) = PGROUNDUP sz / 4096 := rfl
      have hv : ¬ (pt₂.ent 0 (vpn 0 (PGROUNDUP sz))).v = true := by
        rw [hw₂.mapped, hnew]
        exact Nat.lt_irrefl _
      simp only [hv, ne_eq]
      refine ⟨_, _, 0, rfl, .inl ⟨rfl, fun k => ?_, fun k hk => ?_⟩⟩
      · by_cases hk : k = vpn 0 (PGROUNDUP sz)
        · rw [hk, PageTable.set_ent_self]
          refine ⟨fun _ => ?_, fun _ => rfl⟩
          rw [hnew]
          simp only [PGROUNDUP, PGSIZE]
          omega
        · rw [pt₂.set_ent_of_ne _ (fun hh => hk hh.2), hw₂.mapped]
          rw [hnew] at hk
          simp only [PGROUNDUP, PGSIZE] at *
          omega
      · by_cases hk' : k = vpn 0 (PGROUNDUP sz)
        · rw [hk', PageTable.set_ent_self]
          rfl
        · rw [pt₂.set_ent_of_ne _ (fun hh => hk' hh.2)] at hk ⊢
          exact hw₂.user k hk

/-! ## The machine -/

def AllWhole (s : Sys n) : Prop := ∀ q qr, s.proc q = some qr → Whole qr.pagetable qr.sz

/-- What the kernel relies on between two operations. -/
structure Sound (kend : Nat) (s : Sys n) : Prop where
  sys : SysInv kend s
  distinct : AllDistinct s
  whole : AllWhole s

/-- Every operation but `uvmunmap` of a range its caller chooses. -/
def Op.OfProcess : Op n → Prop
  | .unmap _ _ _ => False
  | _ => True

theorem AllWhole.put (h : AllWhole s) (km : Kmem) (p : Fin n) (pr : Proc)
    (hw : Whole pr.pagetable pr.sz) : AllWhole (s.put km p pr) := by
  intro q qr hq
  by_cases hqp : q = p
  · subst hqp
    simp only [Sys.put, Function.update_self, Option.some.injEq] at hq
    rw [← hq]
    exact hw
  · simp only [Sys.put, Function.update_of_ne hqp] at hq
    exact h q qr hq

theorem Bare.whole (h : Bare (some pt)) : Whole pt 0 := by
  constructor
  · intro k
    rw [h pt rfl]
    simp [PGROUNDUP]
  · intro k hk
    rw [h pt rfl] at hk
    cases hk

theorem Sys.fault_total (h : Sound kend s) (hp : s.proc p = some pr) (va sp : Nat) :
    ∃ t pr', s.fault kend p pr va sp = .ok (t, pr') ∧ AllWhole t := by
  obtain ⟨km', pt', b, hf, -⟩ := h.sys.inv.pagefault_exact (Sys.tables_some hp) va sp
  unfold Sys.fault
  rw [hf]
  exact ⟨_, _, rfl, h.whole.put _ _ _ ((h.whole p pr hp).samePages (pagefault_samePages hf))⟩

theorem Sys.fork_total (h : Sound kend s) (hp : s.proc p = some pr) (hc : s.proc c = none) :
    ∃ t ev, s.fork kend p c pr = .ok (t, ev) ∧ AllWhole t := by
  have hpc : p ≠ c := by
    rintro rfl
    rw [hp] at hc
    cases hc
  have hw := h.whole p pr hp
  have hcT : s.tables c = none := by simp [Sys.tables, hc]
  rcases hu : uvmcreate s.km with ⟨km₁, _ | new⟩
  · unfold Sys.fork
    rw [hu]
    exact ⟨_, _, rfl, h.whole⟩
  obtain ⟨hq, hbare⟩ := h.sys.inv.uvmcreate hcT hu
  have hp₁ : Function.update s.tables c (some new) p = some pr.pagetable := by
    rw [Function.update_of_ne hpc, Sys.tables_some hp]
  obtain ⟨⟨km₂, old', new', ret⟩, hcopy⟩ := hq.inv.uvmcopyLoop_total hpc
    (fun _ => none) (PGROUNDUP pr.sz / PGSIZE) 0 hp₁ (Function.update_self ..) (by omega)
    (fun k hk => (hw.mapped k).mpr (by simp only [PGSIZE] at hk; omega))
    (fun _ _ => rfl) (fun y => by rw [hbare.read, if_neg (by omega)])
    (fun k hk => by omega)
  have hparent : Whole old' pr.sz := hw.samePages (uvmcopyLoop_samePages hcopy)
  have hfork : ∃ t ev, s.fork kend p c pr = .ok (t, ev) ∧
      (ev = .silent ∧ AllWhole t ∨ ev = .fork p c ∧
        t = (s.put km₂ p { pr with pagetable := old' }).put km₂ c ⟨new', pr.sz, false⟩) := by
    unfold Sys.fork
    rw [hu]
    simp only [uvmcopy, hcopy]
    split
    · rename_i hret
      obtain ⟨km₃, hfree, -⟩ := (h.sys.uvmcopy hp hc hu hcopy).failed h.sys hp hc hret
      rw [hfree]
      refine ⟨_, _, rfl, .inl ⟨rfl, ?_⟩⟩
      exact h.whole.put km₂ p { pr with pagetable := old' } hparent
    · exact ⟨_, _, rfl, .inr ⟨rfl, rfl⟩⟩
  obtain ⟨t, ev, he, ⟨rfl, hall⟩ | ⟨rfl, rfl⟩⟩ := hfork
  · exact ⟨t, _, he, hall⟩
  -- the child maps what the parent maps
  obtain ⟨pr', prc, -, hprc, hfwd, hback⟩ := Sys.fork_marked h.sys hp hc he
  have hprc' : new' = prc.pagetable := by
    simp only [Sys.put, Function.update_self, Option.some.injEq] at hprc
    rw [← hprc]
  have hchild : Whole new' pr.sz := by
    rw [hprc']
    constructor
    · intro k
      rw [← hw.mapped k]
      constructor
      · intro hk
        rw [← (hback k hk).v]
        exact hk
      · intro hk
        rw [((hfwd k hk).2).v]
        exact hk
    · intro k hk
      rw [(hback k hk).u]
      refine hw.user k ?_
      rw [← (hback k hk).v]
      exact hk
  exact ⟨_, _, he, (h.whole.put km₂ p { pr with pagetable := old' } hparent).put km₂ c
    ⟨new', pr.sz, false⟩ hchild⟩

theorem Sys.store_total (h : Sound kend s) (hp : s.proc p = some pr) (va sp : Nat)
    (b : UInt8) : ∃ t ev, s.store kend p pr va sp b = .ok (t, ev) ∧ AllWhole t := by
  obtain ⟨t, pr', hf, hall⟩ := Sys.fault_total h hp va sp
  unfold Sys.store
  split
  · exact ⟨_, _, rfl, h.whole⟩
  rw [hf]
  simp only
  split
  · exact ⟨_, _, rfl, hall⟩
  · split
    · exact ⟨_, _, rfl, hall⟩
    · exact ⟨_, _, rfl, hall⟩

/-- **No operation of a process panics.** -/
theorem Sys.exec_total (h : Sound kend s) {o : Op n} (ho : o.OfProcess) :
    ∃ t ev, s.exec kend o = .ok (t, ev) ∧ AllWhole t := by
  cases o with
  | kalloc =>
      simp only [Sys.exec]
      split
      · exact ⟨_, _, rfl, h.whole⟩
      · exact ⟨_, _, rfl, h.whole⟩
  | kfree pa =>
      simp only [Sys.exec]
      split
      · rename_i hmem
        obtain ⟨km₁, hf, -⟩ := (h.sys.inv.perm (List.perm_cons_erase hmem)).kfreeKern
        rw [hf]
        exact ⟨_, _, rfl, h.whole⟩
      · exact ⟨_, _, rfl, h.whole⟩
  | create c =>
      simp only [Sys.exec]
      split
      · exact ⟨_, _, rfl, h.whole⟩
      · exact ⟨_, _, rfl, h.whole⟩
      · rename_i km₁ pt hc hu
        have hcT : s.tables c = none := by simp [Sys.tables, hc]
        obtain ⟨-, hbare⟩ := h.sys.inv.uvmcreate hcT hu
        exact ⟨_, _, rfl, h.whole.put km₁ c ⟨pt, 0, false⟩ hbare.whole⟩
  | fork p c =>
      simp only [Sys.exec]
      split
      · rename_i pr hl hc
        exact Sys.fork_total h (Sys.live_some hl) hc
      · exact ⟨_, _, rfl, h.whole⟩
  | load p va sp =>
      simp only [Sys.exec]
      split
      · exact ⟨_, _, rfl, h.whole⟩
      rename_i pr hl
      split
      · exact ⟨_, _, rfl, h.whole⟩
      obtain ⟨t, pr', hf, hall⟩ := Sys.fault_total h (Sys.live_some hl) va sp
      rw [hf]
      exact ⟨_, _, rfl, hall⟩
  | store p va sp b =>
      simp only [Sys.exec]
      split
      · exact ⟨_, _, rfl, h.whole⟩
      · rename_i pr hl
        exact Sys.store_total h (Sys.live_some hl) va sp b
  | fault p va sp =>
      simp only [Sys.exec]
      split
      · exact ⟨_, _, rfl, h.whole⟩
      rename_i pr hl
      obtain ⟨t, pr', hf, hall⟩ := Sys.fault_total h (Sys.live_some hl) va sp
      rw [hf]
      exact ⟨_, _, rfl, hall⟩
  | copyout p dstva src =>
      simp only [Sys.exec]
      split
      · exact ⟨_, _, rfl, h.whole⟩
      rename_i pr hl
      have hp := Sys.live_some hl
      obtain ⟨⟨km₁, pt₁, ret, left⟩, hco⟩ : ∃ r, Cow.copyout kend s.km pr.pagetable dstva src =
          .ok r :=
        h.sys.inv.copyout_total src.length (Nat.le_refl _) (Sys.tables_some hp)
      rw [hco]
      exact ⟨_, _, rfl, h.whole.put km₁ p { pr with pagetable := pt₁ }
        ((h.whole p pr hp).samePages (copyout_samePages src.length (Nat.le_refl _) hco))⟩
  | grow p w x =>
      simp only [Sys.exec]
      split
      · exact ⟨_, _, rfl, h.whole⟩
      rename_i pr hl
      have hp := Sys.live_some hl
      have hw := h.whole p pr hp
      have hbound : PGROUNDUP pr.sz < MAXVA := by
        have := h.sys.inv.whole_bound (Sys.tables_some hp) (h.distinct p pr hp) hw
        simp only [PHYSTOP, MAXVA] at *
        omega
      obtain ⟨km₁, pt₁, ret, hg, ⟨rfl, hw'⟩ | ⟨hret, hw'⟩⟩ :=
        h.sys.inv.uvmallocPage_total (Sys.tables_some hp) hw hbound w x
      · rw [hg]
        exact ⟨_, _, rfl, h.whole.put km₁ p
          ⟨pt₁, PGROUNDUP pr.sz + PGSIZE, pr.killed⟩ hw'⟩
      · rw [hg]
        simp only [hret, if_false]
        exact ⟨_, _, rfl, h.whole.put km₁ p { pr with pagetable := pt₁ } hw'⟩
  | shrink p newsz =>
      simp only [Sys.exec]
      split
      · exact ⟨_, _, rfl, h.whole⟩
      rename_i pr hl
      have hp := Sys.live_some hl
      obtain ⟨km₁, pt₁, sz, hd, hw'⟩ :=
        h.sys.inv.uvmdealloc_total (Sys.tables_some hp) (h.whole p pr hp) newsz
      rw [hd]
      exact ⟨_, _, rfl, h.whole.put km₁ p ⟨pt₁, sz, pr.killed⟩ hw'⟩
  | unmap p va npages => exact ho.elim
  | exit p =>
      simp only [Sys.exec]
      split
      · exact ⟨_, _, rfl, h.whole⟩
      rename_i pr hp
      obtain ⟨km₁, pt₁, hu⟩ := h.sys.inv.unmap_total (Sys.tables_some hp) (h.whole p pr hp)
        (Nat.zero_mod 4096) (PGROUNDUP pr.sz / PGSIZE) (by simp only [PGSIZE]; omega)
      obtain ⟨km', hfree, -⟩ := h.sys.uvmfree hp hu
      rw [hfree]
      refine ⟨_, _, rfl, fun q qr hq => ?_⟩
      by_cases hqp : q = p
      · subst hqp
        simp at hq
      · simp only [Function.update_of_ne hqp] at hq
        exact h.whole q qr hq

theorem Sound.step {l : Op n × Effect n} (h : Sound kend s) (ho : l.1.OfProcess)
    (hs : Step kend s l t) : Sound kend t := by
  obtain ⟨t', ev, he, hall⟩ := Sys.exec_total h ho
  have hsame : t' = t := by
    rw [Step, he] at hs
    exact congrArg Prod.fst (Except.ok.inj hs)
  rw [hsame] at hall
  exact ⟨(Sys.exec_refines h.sys hs).1, h.distinct.step h.sys hs, hall⟩

theorem Sound.run {ls : List (Op n × Effect n)} (h : Sound kend s)
    (hr : Run (Step kend) s ls t) (hls : ∀ l ∈ ls, l.1.OfProcess) : Sound kend t :=
  (always_of_each (Q := fun _ l => l.1.OfProcess) (fun _ _ _ h ho hs => h.step ho hs) h
    (each_of_forall hls)).last hr

theorem Sound.init {mem : Mem} (hk : kinit kend mem = .ok km) :
    Sound kend (Sys.init n km) :=
  ⟨SysInv.init hk, fun _ _ hq => (nomatch hq), fun _ _ hq => (nomatch hq)⟩

/-- **No system call, fault or exit panics the kernel.** Whatever the processes have done
before, in whatever order, and however little memory is left, the next operation returns,
and every process then has exactly the pages below its size. -/
theorem kernel_never_panics {mem : Mem} {ls : List (Op n × Effect n)}
    (hk : kinit kend mem = .ok km) (hr : Run (Step kend) (Sys.init n km) ls s)
    (hls : ∀ l ∈ ls, l.1.OfProcess) {o : Op n} (ho : o.OfProcess) :
    ∃ t ev, s.exec kend o = .ok (t, ev) ∧
      ∀ q qr k, t.proc q = some qr →
        ((qr.pagetable.ent 0 k).v = true ↔ k < PGROUNDUP qr.sz / PGSIZE) := by
  obtain ⟨t, ev, he, hall⟩ := Sys.exec_total ((Sound.init hk).run hr hls) ho
  exact ⟨t, ev, he, fun q qr k hq => (hall q qr hq).mapped k⟩

/-- The parent of a fork exits while its child shares its page. -/
theorem kernel_never_panics_after_fork :
    ∃ (km : Kmem) (s t : Sys 2) (ev : Effect 2),
      kinit (PHYSTOP - 32768) (fun _ => 0) = .ok km ∧
      Run (Step (PHYSTOP - 32768)) (Sys.init 2 km)
        [(.create 0, .silent), (.grow 0 true false, .grow 0 0),
          (.fork 0 1, .fork 0 1)] s ∧
      s.exec (PHYSTOP - 32768) (.exit 0) = .ok (t, ev) := by
  obtain ⟨km, s, hk, hr⟩ : ∃ (km : Kmem) (s : Sys 2),
      kinit (PHYSTOP - 32768) (fun _ => 0) = .ok km ∧
      Run (Step (PHYSTOP - 32768)) (Sys.init 2 km)
        [(.create 0, .silent), (.grow 0 true false, .grow 0 0),
          (.fork 0 1, .fork 0 1)] s :=
    ⟨_, _, rfl, .cons rfl (.cons rfl (.cons rfl (.nil _)))⟩
  obtain ⟨t, ev, he, -⟩ := kernel_never_panics hk hr (by
    intro l hl
    simp only [List.mem_cons, List.not_mem_nil, or_false] at hl
    rcases hl with rfl | rfl | rfl <;> trivial) (o := .exit 0) trivial
  exact ⟨km, s, t, ev, hk, hr, he⟩

end Xv6Labs.Cow
