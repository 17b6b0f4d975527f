import Xv6Labs.Super.Sbrk

/-!
# What sequences of `growproc` calls keep

Three questions about a process after any number of calls: whether its user pages are
those its size covers and nothing panics, whether a call leaves the bytes it should, and
whether it changes the size by what was asked for. Each has the answer "as long as no
call ...", with the condition on the calls that `Called` suggests, and a run of a process
of one page that breaks it.
-/

namespace Xv6Labs.Super

open Xv6Labs.Lib

variable {kend : Nat} {k k' : Kernel} {pt pt' : PageTable} {p p' : Proc} {t t₀ : Task}
  {n ret : Int} {es : List Event}

def Task.Meets (Q : Task → Int → Prop) (t : Task) : Event → Prop
  | .growproc n => Q t n
  | .others _ => True

/-- What a call that returns leaves, unless a split has lost its superpage. -/
theorem Called.covered (hC : Called kend k p n k' p' ret) (h : Covered kend ⟨k, p⟩)
    (hmem : n < 0 → ∀ i S m, p.stop n = .split i S m → EnoughSplit k p S m ∨ S = 0) :
    Covered kend ⟨k', p'⟩ := by
  cases hC with
  | nothing _ => exact h
  | grown _ hG _ => exact ⟨hG.space, hG.layout⟩
  | undone _ hU => exact ⟨hU.space, hU.layout⟩
  | dropped _ _ hU hL => exact ⟨hU.space, hL⟩
  | split _ _ _ _ _ hG => exact ⟨hG.space, hG.layout⟩
  | lost hn hstop hE _ hD =>
      rcases hmem hn _ _ _ hstop with hE' | rfl
      · exact absurd hE' hE
      · exact ⟨hD.space, hD.layout⟩

/-! ## The address space -/

/-- A call that keeps the address space in order: it wants no superpage where a level-0 table
was left behind, the record has room for what it appends, no chunk it gives back begins
inside a superpage, and there is memory for what stays of a superpage it splits. -/
structure Task.SafeCall (t : Task) (n : Int) : Prop where
  clear : 0 < n → Clear t.k t.p.pagetable (pages t.p.sz) (t.p.sz + n.toNat)
  room : 0 < n → Enough t.k t.p.pagetable (pages t.p.sz) (t.p.sz + n.toNat) →
    t.p.Fits (newEntries t.p.sz (t.p.sz + n.toNat))
  inside : n < 0 → t.p.next ≤ 10000
  uncut : n < 0 → Uncut t.p.pagetable t.p.record t.p.sz n t.p.next.toNat
  memory : n < 0 → ∀ i S m, t.p.stop n = .split i S m → EnoughSplit t.k t.p S m ∨ S = 0

/-- The user pages are those the size covers, and the process can be torn down. -/
structure Sound (kend : Nat) (t : Task) : Prop where
  user : ∀ va, va < USYSCALL →
    ((sv39 t.p.pagetable va).isSome = true ↔ va < PGROUNDUP t.p.sz)
  freed : ∃ k', proc_freepagetable kend t.k t.p.pagetable t.p.sz = .ok k'

theorem Covered.sound (h : Covered kend t) : Sound kend t := by
  constructor
  · intro va hva
    have hpage := user_page hva
    rw [h.space.sv39, Option.isSome_map, vpn_zero, h.layout (va / 4096), PGROUNDUP_eq]
    omega
  · exact h.space.proc_freepagetable h.layout (PGROUNDUP_eq _)

theorem Covered.safe_step {t' : Task} {e : Event} (h : Covered kend t)
    (hQ : t.Meets Task.SafeCall e) (hstep : Task.Step kend t e t') : Covered kend t' := by
  cases hstep with
  | growproc _ _ hok =>
      have hsafe : Task.SafeCall _ _ := hQ
      exact (h.growproc_cases hsafe.uncut hok).covered h hsafe.memory
  | others hS => exact ⟨hS, h.layout⟩

theorem Covered.safe_run (h : Covered kend t₀)
    (heach : Each (Task.Step kend) (Task.Meets Task.SafeCall) t₀ es)
    (hrun : Run (Task.Step kend) t₀ es t) : Covered kend t := by
  have hstep : ∀ s e t, Covered kend s → s.Meets Task.SafeCall e →
      Task.Step kend s e t → Covered kend t := fun _ _ _ h hQ hs => h.safe_step hQ hs
  exact (always_of_each hstep h heach).last hrun

/-- **Sequences of calls that meet `SafeCall`** keep the address space whole, and the
next such call does not panic. -/
theorem sbrk_safe_when (h : Exec kend t₀)
    (heach : Each (Task.Step kend) (Task.Meets Task.SafeCall) t₀ es)
    (hrun : Run (Task.Step kend) t₀ es t) :
    Sound kend t ∧ ∀ n, t.SafeCall n → ∃ r, growproc kend t.k t.p n = .ok r := by
  have hcov := h.toCovered.safe_run heach hrun
  refine ⟨hcov.sound, fun n hsafe => ?_⟩
  exact Covered.growproc_ok hcov (fun hn => ⟨hsafe.clear hn, hsafe.room hn⟩)
    (fun hn => ⟨hsafe.inside hn, hsafe.uncut hn⟩)

/-- A superpage comes and goes. -/
theorem sbrk_safe_when_tinyImage : ∃ s t,
    Run (Task.Step 0x80200000) tinyImageTask [.growproc 4190208] s ∧
      superAt s.p.pagetable 1 = true ∧
      Run (Task.Step 0x80200000) tinyImageTask [.growproc 4190208, .growproc (-2097152)] t ∧
      t.p.sz = 2097152 ∧ Sound 0x80200000 t := by
  obtain ⟨s, hgrow, hrun, hcov, hsz, hnext, hlast, hsuper, hon⟩ := tinyImage_superpage
  obtain ⟨k₂, pt₂, hok₂, -, -⟩ := hcov.shrink_chunk hlast hnext (by decide) hsz hon
  have hfirst : tinyImageTask.SafeCall 4190208 :=
    ⟨fun _ => tinyImage_clear _ 4194304 (by decide),
      fun _ _ => tinyImage_fits 4194304 (by decide) (by decide),
      fun h => absurd h (by decide), fun h => absurd h (by decide),
      fun h => absurd h (by decide)⟩
  have hsecond : s.SafeCall (-2097152) := by
    refine ⟨fun h => absurd h (by decide), fun h => absurd h (by decide), fun _ => ?_,
      fun _ => Proc.uncut_last (by omega) hnext hsz hon, fun _ i S m hstop => ?_⟩
    · rw [hnext]
      decide
    · rw [Proc.stop_chunk hlast hnext hsz] at hstop
      cases hstop
  have heach : Each (Task.Step 0x80200000) (Task.Meets Task.SafeCall) tinyImageTask
      [.growproc 4190208, .growproc (-2097152)] := by
    refine ⟨hfirst, fun u hu => ⟨?_, fun _ _ => trivial⟩⟩
    obtain rfl := hu.det hgrow
    exact hsecond
  have hstep : Task.Step 0x80200000 s (.growproc (-2097152))
      ⟨k₂, { s.p with pagetable := pt₂, sz := 2097152, next := (511 : Nat) }⟩ :=
    .growproc ⟨by decide, by decide⟩ (by rw [hsz]; omega) hok₂
  have hall := hrun.append (.cons hstep (.nil _))
  exact ⟨s, _, hrun, hsuper, hall, rfl, (sbrk_safe_when tinyImage_exec heach hall).1⟩

/-- A slot that is in use is in the way. -/
theorem Covered.growproc_remap (h : Covered kend t) (hn : 0 < n)
    (hC : ¬ Clear t.k t.p.pagetable (pages t.p.sz) (t.p.sz + n.toNat)) :
    growproc kend t.k t.p n = .error "mappages: remap" := by
  rcases Covered.grow h hn with ⟨-, herr⟩ | ⟨hC', -⟩ | ⟨hC', -⟩ | ⟨hC', -⟩
  · exact herr
  · exact absurd hC' hC
  · exact absurd hC' hC
  · exact absurd hC' hC

/-- **A table left behind**: the page that opened the second slot goes again, its level-0
table stays, and the next growth wants a superpage there. -/
theorem sbrk_panics : Exec 0x80200000 tinyImageTask ∧ ∃ t,
    Run (Task.Step 0x80200000) tinyImageTask
      [.growproc 2097152, .growproc (-4096), .others t.k] t ∧ t.p.sz = 2097152 ∧
    growproc 0x80200000 t.k t.p 2097152 = .error "mappages: remap" := by
  obtain ⟨k₁, pt₁, hok₁, hG⟩ := tinyImage_grows 2097152 2101248
    (by decide) rfl (by decide) (by decide) (by decide)
  have hL₁ : Layout pt₁ 513 := hG.layout
  have hno : ∀ j, superAt pt₁ j = false := by
    intro j
    by_contra hne
    have hs : superAt pt₁ j = true := by simpa using hne
    have hle := hL₁.super_le (by decide) hs
    have hfirst := hG.super 1 (by decide) (by decide)
    rw [show 1 / 512 = j by omega, hs] at hfirst
    have := hfirst.mp rfl
    omega
  have htab : tableAt pt₁ 1 = true := hL₁.table_of_mod hG.space (by decide)
  obtain ⟨hnext, hrec⟩ := tinyImage_record pt₁ 2101248 (by decide)
  have hsz : (tinyImageProc.afterGrowth pt₁ 2101248).sz = 2101248 := rfl
  have hpt : (tinyImageProc.afterGrowth pt₁ 2101248).pagetable = pt₁ := rfl
  generalize tinyImageProc.afterGrowth pt₁ 2101248 = p₁ at hok₁ hnext hrec hsz hpt
  subst hpt
  have hcov₁ : Covered 0x80200000 ⟨k₁, p₁⟩ := by
    refine ⟨hG.space, ?_⟩
    simp only [hsz]
    exact hG.layout
  obtain ⟨k₂, pt₂, hok₂, hU, hL₂⟩ := hcov₁.shrink_last (n := -4096) (i := 511)
    (S := 2097152) (by decide) (by decide) hnext (by decide) (hrec 511) hsz
    (fun hs => by simp only [hno, Bool.false_eq_true] at hs)
  simp only [hsz, if_true] at hU hok₂
  change Unmapped 0x80200000 k₁ p₁.pagetable k₂ pt₂ 512 513 at hU
  have hno₂ : ∀ j, superAt pt₂ j = false := by
    intro j
    by_contra hne
    have hs : superAt pt₂ j = true := by simpa using hne
    have hle : j * 512 + 512 ≤ 512 := hL₂.super_le (by decide) hs
    have hseen : seen pt₂ (j * 512) = seen p₁.pagetable (j * 512) := by
      rw [hU.seen, if_neg (by omega)]
    have hsame := superAt_congr hseen
    rw [Nat.mul_div_cancel _ (by decide), hs, hno] at hsame
    cases hsame
  have hS₃ : Space 0x80200000 { k₂ with superfreelist := [SPLIT] } pt₂ := by
    have h := hU.space
    refine ⟨h.toTree, h.root, h.small, h.smallInj, fun j hj => ?_, h.superInj, h.free, h.nodup,
      fun f hf => ?_, List.nodup_singleton _, h.tables⟩
    · rw [hno₂] at hj
      cases hj
    · rw [List.mem_singleton.mp hf]
      constructor <;> decide
  refine ⟨tinyImage_exec, ⟨{ k₂ with superfreelist := [SPLIT] }, _⟩,
    .cons (.growproc ⟨by decide, by decide⟩ (by decide) hok₁)
      (.cons (.growproc ⟨by decide, by decide⟩ (by simp only [hsz]; decide) hok₂)
        (.cons (.others hS₃) (.nil _))), rfl, ?_⟩
  refine Covered.growproc_remap ⟨hS₃, hL₂⟩ (by decide) (fun hC => ?_)
  have hv : (pt₂.ent 1 1).v = true := (tableAt_iff.mp ((hU.table 1).trans htab)).1
  have hpage : pages 2097152 = 512 := by decide
  rcases hC 1 (by simp only [hpage]; decide) (by simp only; decide) hv with h | h
  · simp only [hpage] at h
    exact absurd h (Nat.not_lt_zero _)
  · simp only [hpage] at h
    exact absurd h (Nat.not_succ_le_zero 0)

/-! ## The data -/

/-- A call after which the process finds the bytes it should: no chunk it gives back begins
inside a superpage, and of a superpage that is split the part that is mapped again was
zero. -/
def Task.GentleCall (t : Task) (n : Int) : Prop :=
  n < 0 → Uncut t.p.pagetable t.p.record t.p.sz n t.p.next.toNat ∧
    ∀ i S m, t.p.stop n = .split i S m → EnoughSplit t.k t.p S m →
      ∀ va, pages S * 4096 ≤ va → va < t.p.sz → va < S + m →
        read t.k.mem t.p.pagetable va = some 0

/-- What is below both sizes reads the same, what is new reads 0. -/
structure DataKept (k : Kernel) (p : Proc) (k' : Kernel) (p' : Proc) : Prop where
  kept : ∀ va, va < p.sz → va < p'.sz →
    read k'.mem p'.pagetable va = read k.mem p.pagetable va
  zero : p.sz < p'.sz → ∀ va, PGROUNDUP p.sz ≤ va → va < p'.sz →
    read k'.mem p'.pagetable va = some 0

/-- A process whose size is 0 while its first page is mapped: a split has lost its
superpage. -/
structure Stuck (kend : Nat) (t : Task) : Prop where
  space : Space kend t.k t.p.pagetable
  size : t.p.sz = 0
  page : (t.p.pagetable.ent 0 0).v = true

theorem DataKept.refl (k : Kernel) (p : Proc) : DataKept k p k p :=
  ⟨fun _ _ _ => rfl, fun h => absurd h (Nat.lt_irrefl _)⟩

theorem page_ge {va sz : Nat} (h : PGROUNDUP sz ≤ va) : pages sz ≤ va / 4096 := by
  rw [PGROUNDUP_eq] at h
  omega

theorem Called.dataKept (hC : Called kend k p n k' p' ret) (h : Covered kend ⟨k, p⟩)
    (hgentle : Task.GentleCall ⟨k, p⟩ n) : DataKept k p k' p' := by
  have hup := UPAGES_eq
  have hmax : pages p.sz ≤ 32768 := h.space.layout_le h.layout
  cases hC with
  | nothing _ => exact DataKept.refl _ _
  | grown _ hG _ =>
      constructor
      · intro va hva _
        exact hG.kept va (page_lt hva)
      · intro _ va hlo hva
        exact hG.zero va (page_ge hlo) (page_lt hva)
  | undone _ hU =>
      constructor
      · intro va hva _
        exact hU.kept va (page_lt hva)
      · intro hlt
        exact absurd hlt (Nat.lt_irrefl _)
  | dropped _ _ hU _ =>
      have hle : (p.stop n).sz ≤ p.sz := shrinkEnd_le ..
      constructor
      · intro va hva hva'
        have hlt : va / 4096 < pages (p.stop n).sz := page_lt hva'
        have hlt' := page_lt hva
        exact hU.kept va (by omega) (by omega)
      · intro hlt
        exact absurd hlt (Nat.not_lt.mpr hle)
  | @split _ _ _ _ _ S m hn hstop _ hE hU hG =>
      have hle : S ≤ p.sz := by
        have := shrinkEnd_le p.record p.next.toNat p.sz n
        change (p.stop n).sz ≤ p.sz at this
        rwa [hstop] at this
      have hmono := pages_mono hle
      constructor
      · intro va hva hva'
        have hlt := page_lt hva
        by_cases hlow : va / 4096 < pages S
        · rw [hG.kept va hlow, hU.kept va (by omega) (by omega)]
        · rw [hG.zero va (Nat.not_lt.mp hlow) (page_lt hva')]
          exact ((hgentle hn).2 _ S m hstop hE va (by omega) hva hva').symm
      · intro _ va hlo hva
        have hge := page_ge hlo
        exact hG.zero va (by omega) (page_lt hva)
  | lost _ _ _ _ _ =>
      constructor
      · intro va _ hva
        exact absurd hva (Nat.not_lt_zero _)
      · intro hlt
        exact absurd hlt (Nat.not_lt_zero _)

theorem Called.table (hC : Called kend k p n k' p' ret)
    (ht : tableAt p.pagetable 0 = true) : tableAt p'.pagetable 0 = true := by
  cases hC with
  | nothing _ => exact ht
  | grown _ hG _ => exact hG.tables 0 ht
  | undone _ hU => exact hU.tables 0 ht
  | dropped _ _ hU _ => exact (hU.table 0).trans ht
  | split _ _ _ _ hU hG => exact hG.tables 0 ((hU.table 0).trans ht)
  | lost _ _ _ hU hD => exact hD.tables 0 ((hU.table 0).trans ht)

theorem page_of_table (ht : tableAt pt 0 = true) (hs : (seen pt 0).isSome = true) :
    (pt.ent 0 0).v = true := by
  have hno : superAt pt (0 / 512) = false := by
    simp [superAt, (tableAt_iff.mp ht).2]
  unfold seen at hs
  rw [hno, if_neg Bool.false_ne_true] at hs
  by_contra hne
  rw [if_neg hne] at hs
  cases hs

theorem Called.stuck_or_covered (hC : Called kend k p n k' p' ret) (h : Covered kend ⟨k, p⟩)
    (ht : tableAt p.pagetable 0 = true) : Covered kend ⟨k', p'⟩ ∨ Stuck kend ⟨k', p'⟩ := by
  have ht' := hC.table ht
  by_cases hmem : n < 0 → ∀ i S m, p.stop n = .split i S m → EnoughSplit k p S m ∨ S = 0
  · exact .inl (hC.covered h hmem)
  · right
    cases hC with
    | @lost _ _ _ _ _ S _ hn hstop _ _ hD =>
        refine ⟨hD.space, rfl, page_of_table ht' ((hD.layout 0).mpr (.inl ?_))⟩
        by_contra hzero
        apply hmem
        intro _ i' S' m' hstop'
        rw [hstop] at hstop'
        obtain ⟨-, rfl, -⟩ := ShrinkEnd.split.inj hstop'
        right
        unfold pages at hzero
        omega
    | nothing hn => exact absurd (fun hneg => by omega) hmem
    | grown hn _ _ => exact absurd (fun hneg => by omega) hmem
    | undone hn _ => exact absurd (fun hneg => by omega) hmem
    | dropped _ hno _ _ => exact absurd (fun _ i S m hs => absurd hs (hno i S m)) hmem
    | split _ hstop _ hE _ _ =>
        refine absurd (fun _ i S m hs => .inl ?_) hmem
        rw [hstop] at hs
        obtain ⟨-, rfl, rfl⟩ := ShrinkEnd.split.inj hs
        exact hE

/-- Growing from 0 does not get past a first page that is mapped. -/
theorem Space.grow_stuck (h : Space kend k pt) (hpage : (pt.ent 0 0).v = true) (newsz : Nat)
    (hnew : 0 < newsz) :
    (∃ e, Super.sbrksuperuvmalloc kend k pt 0 newsz { w := true } = .error e) ∨
      ∃ help, Super.sbrksuperuvmalloc kend k pt 0 newsz { w := true } = .ok (k, pt, help) ∧
        help.state = false := by
  have hv : (pt.ent 1 0).v = true := (tableAt_iff.mp (h.bot 0 hpage).1).1
  have hused : ((pt.ent 1 (0 / 512)).s || (pt.ent 1 (0 / 512)).leaf ||
      (pt.ent 0 0).v) = true := by
    rw [hpage, Bool.or_true]
  obtain ⟨fuel, hfuel⟩ : ∃ fuel, (PGROUNDUP newsz - PGROUNDUP 0) / PGSIZE = fuel + 1 := by
    refine ⟨(PGROUNDUP newsz - PGROUNDUP 0) / PGSIZE - 1, ?_⟩
    simp only [PGROUNDUP, PGSIZE]
    omega
  have hzero : PGROUNDUP 0 = 0 := rfl
  have hback : ∀ k, Super.uvmdealloc kend k pt 0 0 = .ok (k, pt, 0) :=
    fun _ => if_pos (Nat.le_refl 0)
  unfold Super.sbrksuperuvmalloc
  rw [if_neg (Nat.not_lt_zero _), hfuel, hzero, sbrksuperuvmallocLoop, if_pos hnew]
  by_cases hbig : 0 % SUPERPGSIZE = 0 ∧ newsz - 0 ≥ SUPERPGSIZE
  · rw [if_pos hbig]
    simp only
    rcases hk : Super.superkalloc k with ⟨_ | r, k₁⟩
    · obtain ⟨rfl, -⟩ := superkalloc_none hk
      simp only [hback]
      exact .inr ⟨_, rfl, rfl⟩
    · have hmap := Region.supermappages (j := 0) h.region
        { k₁ with mem := k₁.mem.fill r SUPERPGSIZE 0 } r { r := true, w := true, u := true }
      rw [if_pos hv, Nat.zero_mul] at hmap
      simp only [hmap]
      exact .inl ⟨_, rfl⟩
  · rw [if_neg hbig]
    simp only
    rcases hk : Super.kalloc k with ⟨_ | r, k₁⟩
    · obtain ⟨rfl, -⟩ := kalloc_none hk
      simp only [hback]
      exact .inr ⟨_, rfl, rfl⟩
    · have hmap := Region.mappages (q := 0) h.region
        { k₁ with mem := k₁.mem.fill r PGSIZE 0 } r { r := true, w := true, u := true }
      rw [if_pos hv, if_pos hused, Nat.zero_mul] at hmap
      simp only [hmap]
      exact .inl ⟨_, rfl⟩

/-- **A stuck process** does not get anywhere: a call fails or panics. -/
theorem Stuck.growproc (h : Stuck kend t) (hpos : 0 ≤ t.p.sz + n)
    (hok : Super.growproc kend t.k t.p n = .ok (k', p', ret)) : k' = t.k ∧ p' = t.p := by
  obtain ⟨k, pt, sz, record, next⟩ := t
  obtain rfl : sz = 0 := h.size
  simp only at hpos hok ⊢
  unfold Super.growproc at hok
  by_cases hn : n > 0
  · rw [if_pos hn] at hok
    simp only [Nat.zero_add] at hok
    rcases Space.grow_stuck h.space h.page n.toNat (by omega) with
      ⟨e, herr⟩ | ⟨help, hfail, hst⟩
    · rw [herr] at hok
      cases hok
    · rw [hfail] at hok
      simp only [hst, if_true, Except.ok.injEq, Prod.mk.injEq] at hok
      exact ⟨hok.1.symm, hok.2.1.symm⟩
  · rw [if_neg hn, if_neg (by omega)] at hok
    simp only [Except.ok.injEq, Prod.mk.injEq] at hok
    exact ⟨hok.1.symm, hok.2.1.symm⟩

/-- **Sequences of calls that meet `GentleCall`**: so does every call keep the data. -/
theorem sbrk_keeps_data_when (h : Exec kend t₀)
    (heach : Each (Task.Step kend) (Task.Meets Task.GentleCall) t₀ es)
    (hrun : Run (Task.Step kend) t₀ es t) {n : Int} (hpos : 0 ≤ t.p.sz + n)
    (hgentle : t.GentleCall n) {k' : Kernel} {p' : Proc}
    (hok : growproc kend t.k t.p n = .ok (k', p', 0)) : DataKept t.k t.p k' p' := by
  have hstep : ∀ s e u, ((Covered kend s ∨ Stuck kend s) ∧ tableAt s.p.pagetable 0 = true) →
      s.Meets Task.GentleCall e → Task.Step kend s e u →
      (Covered kend u ∨ Stuck kend u) ∧ tableAt u.p.pagetable 0 = true := by
    rintro s e u ⟨hcov | hstuck, ht⟩ hQ hs
    · cases hs with
      | growproc _ _ hok =>
          have hcall : Task.GentleCall _ _ := hQ
          have hC := hcov.growproc_cases (fun hn => (hcall hn).1) hok
          exact ⟨hC.stuck_or_covered hcov ht, hC.table ht⟩
      | others hS => exact ⟨.inl ⟨hS, hcov.layout⟩, ht⟩
    · cases hs with
      | growproc _ hp hok =>
          obtain ⟨rfl, rfl⟩ := Stuck.growproc hstuck hp hok
          exact ⟨.inr hstuck, ht⟩
      | others hS => exact ⟨.inr ⟨hS, hstuck.size, hstuck.page⟩, ht⟩
  have hfirst : tableAt t₀.p.pagetable 0 = true := by
    obtain ⟨e, he⟩ := Option.isSome_iff_exists.mp ((h.layout 0).mpr (.inl (page_lt h.pos)))
    unfold seen at he
    rw [h.first, if_neg Bool.false_ne_true] at he
    split at he
    · rename_i hv
      exact (h.space.bot 0 hv).1
    · cases he
  obtain ⟨hcov | hstuck, -⟩ :=
    (always_of_each hstep ⟨.inl h.toCovered, hfirst⟩ heach).last hrun
  · exact (Covered.growproc_cases hcov (fun hn => (hgentle hn).1) hok).dataKept hcov hgentle
  · obtain ⟨rfl, rfl⟩ := Stuck.growproc hstuck hpos hok
    exact DataKept.refl _ _

/-- The superpage is given back, and what is below stays. -/
theorem sbrk_keeps_data_when_tinyImage : ∃ t k' p',
    Run (Task.Step 0x80200000) tinyImageTask [.growproc 4190208] t ∧
      superAt t.p.pagetable 1 = true ∧
      growproc 0x80200000 t.k t.p (-2097152) = .ok (k', p', 0) ∧ p'.sz = 2097152 ∧
      DataKept t.k t.p k' p' := by
  obtain ⟨t, -, hrun, hcov, hsz, hnext, hlast, hsuper, hon⟩ := tinyImage_superpage
  have heach : Each (Task.Step 0x80200000) (Task.Meets Task.GentleCall) tinyImageTask
      [.growproc 4190208] := ⟨fun hn => absurd hn (by decide), fun _ _ => trivial⟩
  have hgentle : t.GentleCall (-2097152) := by
    refine fun _ => ⟨Proc.uncut_last (by omega) hnext hsz hon, fun i S m hstop => ?_⟩
    rw [Proc.stop_chunk hlast hnext hsz] at hstop
    cases hstop
  obtain ⟨k₂, pt₂, hok₂, -, -⟩ := hcov.shrink_chunk hlast hnext (by decide) hsz hon
  refine ⟨t, _, _, hrun, hsuper, hok₂, rfl,
    sbrk_keeps_data_when tinyImage_exec heach hrun ?_ hgentle hok₂⟩
  omega

/-- **A superpage that is split loses its bytes**: of 2 MB that hold 1 all but the last page
are to stay, and read 0. -/
theorem sbrk_loses_data : Exec 0x80200000 tinyImageTask ∧ ∃ t k' p',
    Run (Task.Step 0x80200000) tinyImageTask [.growproc 4190208, .others t.k] t ∧
      growproc 0x80200000 t.k t.p (-4096) = .ok (k', p', 0) ∧
      2097152 < t.p.sz ∧ 2097152 < p'.sz ∧ read t.k.mem t.p.pagetable 2097152 = some 1 ∧
      read k'.mem p'.pagetable 2097152 = some 0 := by
  obtain ⟨k₁, pt₁, hok₁, hG⟩ := tinyImage_grows 4190208 4194304
    (by decide) rfl (by decide) (by decide) (by decide)
  have hsuper : superAt pt₁ 1 = true := (hG.super 512 (by decide) (by decide)).mpr (by decide)
  have hfree : 1100 = k₁.freelist.length + 511 + 0 := by
    have hlen : tinyImageKernel.freelist.length = 1100 := by
      simp [tinyImageKernel, pageRange]
    rw [← hlen]
    exact hG.free
  have hsz : (tinyImageProc.afterGrowth pt₁ 4194304).sz = 4194304 := rfl
  have hpt : (tinyImageProc.afterGrowth pt₁ 4194304).pagetable = pt₁ := rfl
  have hnext : (tinyImageProc.afterGrowth pt₁ 4194304).next = (511 + 1 : Nat) := by
    unfold Proc.afterGrowth Proc.grown
    simp only
    decide
  have hrec : (tinyImageProc.afterGrowth pt₁ 4194304).record 511 = '1' := by
    unfold Proc.afterGrowth Proc.grown
    simp only
    decide
  generalize tinyImageProc.afterGrowth pt₁ 4194304 = p₁ at hok₁ hsz hpt hnext hrec
  subst hpt
  -- the process fills its pages with ones
  have hcov : Covered 0x80200000 ⟨{ k₁ with mem := fun _ => 1 }, p₁⟩ := by
    refine ⟨hG.space.mem _, ?_⟩
    simp only [hsz]
    exact hG.layout
  have hchunk : chunkSize (p₁.record 511) = 2097152 := by
    rw [hrec]
    decide
  have hstop : p₁.stop (-4096) = .split 511 2097152 2093056 :=
    Proc.stop_split (by decide) hnext hrec hsz
  have hon : OnBoundary p₁.pagetable (pages 2097152) := fun _ => by decide
  obtain ⟨k₂, pt₂, hU, hL, hok₂⟩ := hcov.shrink (n := -4096) (by decide)
    (by rw [hnext]; decide) (Proc.uncut_last (by rw [hchunk]; decide) hnext
      (by rw [hchunk]; exact hsz) hon)
  rw [hstop] at hU hL hok₂
  have hU' : Unmapped 0x80200000 { k₁ with mem := fun _ => 1 } p₁.pagetable k₂ pt₂
      (pages 2097152) (pages p₁.sz) := hU
  have henough : EnoughSplit { k₁ with mem := fun _ => 1 } p₁ 2097152 2093056 := by
    have hs : smallNeed (pages 2097152) (2097152 + 2093056) = 511 := by decide
    have ht : tableNeed p₁.pagetable (pages 2097152) (2097152 + 2093056) ≤ 1 := by
      unfold tableNeed
      split <;> omega
    unfold EnoughSplit
    simp only
    omega
  rcases hU'.finish_split (i := 511) (m := 2093056) hL (by decide) with
    ⟨-, k₃, pt₃, hfin, hG₃⟩ | ⟨hE, -⟩
  swap
  · exact absurd henough hE
  rw [hfin] at hok₂
  refine ⟨tinyImage_exec, ⟨{ k₁ with mem := fun _ => 1 }, p₁⟩, k₃, _,
    .cons (.growproc ⟨by decide, by decide⟩ (by decide) hok₁)
      (.cons (.others hcov.space) (.nil _)), hok₂, ?_, ?_, ?_, ?_⟩
  · simp only [hsz]
    decide
  · simp only
    decide
  · have hseen : (seen p₁.pagetable (2097152 / 4096)).isSome = true :=
      (hG.layout _).mpr (.inl (by decide))
    obtain ⟨e, he⟩ := Option.isSome_iff_exists.mp hseen
    rw [hG.space.read]
    unfold frameOf
    rw [he]
    rfl
  · exact hG₃.zero 2097152 (by decide) (by decide)

/-! ## The size -/

/-- No chunk a call gives back is larger than what the process has left. -/
def Within (record : Nat → Char) (sz : Nat) (n : Int) : Nat → Prop
  | 0 => True
  | i + 1 => chunkSize (record i) ≤ sz ∧
      (n + chunkSize (record i) < 0 →
        Within record (sz - chunkSize (record i)) (n + chunkSize (record i)) i)

/-- How the size a call leaves compares with the one it was asked for. -/
def ShrinkEnd.Against (size : Int) : ShrinkEnd → Prop
  | ran S => size < S
  | exact _ S => S = size
  | past _ S => S < size
  | split _ S m => ((S + m : Nat) : Int) = size

theorem Within.against {record : Nat → Char} {i : Nat} : ∀ {sz : Nat} {n : Int},
    Within record sz n i → n < 0 → (shrinkEnd record sz n i).Against (sz + n) := by
  induction i with
  | zero =>
      intro sz n _ hn
      show (sz : Int) + n < sz
      omega
  | succ i ih =>
      intro sz n h hn
      obtain ⟨hle, hrest⟩ := h
      have hlower : lower sz (chunkSize (record i)) = sz - chunkSize (record i) := if_pos hle
      unfold shrinkEnd
      rw [hlower]
      split_ifs with hpos hone hzero
      · show (((sz - chunkSize (record i)) + (n + chunkSize (record i)).toNat : Nat) : Int) = _
        omega
      · show ((sz - chunkSize (record i) : Nat) : Int) < _
        omega
      · show ((sz - chunkSize (record i) : Nat) : Int) = _
        omega
      · have hnext := ih (hrest (by omega)) (by omega)
        have hsum : ((sz - chunkSize (record i) : Nat) : Int) + (n + chunkSize (record i)) =
            sz + n := by omega
        rwa [hsum] at hnext

/-- The entries that are taken off add up to what was asked for, or the last of them is a
superpage with memory for the part that stays. -/
def StopsExactly (k : Kernel) (p : Proc) (n : Int) : Prop :=
  (∃ i S, p.stop n = .exact i S) ∨ ∃ i S m, p.stop n = .split i S m ∧ EnoughSplit k p S m

/-- A call that keeps size and page table together. -/
def Task.TidyCall (t : Task) (n : Int) : Prop :=
  n < 0 → Uncut t.p.pagetable t.p.record t.p.sz n t.p.next.toNat ∧
    ∀ i S m, t.p.stop n = .split i S m → EnoughSplit t.k t.p S m ∨ S = 0

/-- The size changes by `n`, or the call fails and changes nothing. -/
structure SizeExact (k : Kernel) (p : Proc) (n : Int) (k' : Kernel) (p' : Proc) (ret : Int) :
    Prop where
  done : ret = 0 → (p'.sz : Int) = p.sz + n
  failed : ret = -1 → p'.sz = p.sz ∧ p'.record = p.record ∧ p'.next = p.next ∧
    (∀ q, q < UPAGES → leafAt p'.pagetable q = leafAt p.pagetable q) ∧
    ∀ va, va < USYSCALL → read k'.mem p'.pagetable va = read k.mem p.pagetable va

theorem Tree.leafAt_eq (h : Tree pt) (q : Nat) : leafAt pt q = seen pt q := by
  have hq : q * 4096 / 4096 = q := Nat.mul_div_cancel q (by decide)
  cases hs : seen pt q with
  | none =>
      rw [leafAt_eq_none]
      exact h.sv39_of_none (by rw [hq]; exact hs)
  | some e =>
      have hseen : seen pt (q * 4096 / 4096) = some (e.1, e.2) := by
        rw [hq]
        exact hs
      obtain ⟨h₁, h₂⟩ := h.sv39_of_seen hseen
      exact leafAt_eq_some.mpr ⟨_, h₁, by rw [h₂]⟩

theorem Undone.unchanged {N : Nat} (h : Undone kend k pt k' pt' N) (hS : Space kend k pt)
    (hL : Layout pt N) : (∀ q, q < UPAGES → leafAt pt' q = leafAt pt q) ∧
      ∀ va, va < USYSCALL → read k'.mem pt' va = read k.mem pt va := by
  have hseen : ∀ q, q < UPAGES → Super.seen pt' q = Super.seen pt q := by
    intro q hq
    by_cases hN : q < N
    · exact h.seen q hN
    · have hnone : ∀ {pt : PageTable}, Layout pt N → Super.seen pt q = none := fun hL => by
        rw [← Option.not_isSome_iff_eq_none, hL q]
        omega
      rw [hnone h.layout, hnone hL]
  constructor
  · intro q hq
    rw [h.space.leafAt_eq, hS.leafAt_eq, hseen q hq]
  · intro va hva
    by_cases hN : va / 4096 < N
    · exact h.kept va hN
    · have hup := user_page hva
      have hnone : ∀ {pt : PageTable}, Layout pt N → frameOf pt (va / 4096) = none :=
        fun {pt} hL => by
          have hs : Super.seen pt (va / 4096) = none := by
            rw [← Option.not_isSome_iff_eq_none, hL (va / 4096)]
            omega
          unfold frameOf
          rw [hs]
          rfl
      rw [h.space.read, hS.read, hnone h.layout, hnone hL]
      rfl

/-- **One call**: it is exact unless it shrinks by something else than what was asked for. -/
theorem Called.sizeExact_iff (hC : Called kend k p n k' p' ret) (h : Covered kend ⟨k, p⟩)
    (hw : n < 0 → Within p.record p.sz n p.next.toNat) :
    SizeExact k p n k' p' ret ↔ (n < 0 → StopsExactly k p n) := by
  cases hC with
  | nothing hn =>
      refine iff_of_true ⟨fun _ => ?_, fun hret => ?_⟩ (fun hneg => by omega)
      · rw [hn, Int.add_zero]
      · exact absurd hret (by decide)
  | grown hn hG _ =>
      refine iff_of_true ⟨fun _ => ?_, fun hret => ?_⟩ (fun hneg => by omega)
      · show ((p.sz + n.toNat : Nat) : Int) = _
        omega
      · exact absurd hret (by decide)
  | undone hn hU =>
      refine iff_of_true ⟨fun hret => ?_, fun _ => ?_⟩ (fun hneg => by omega)
      · exact absurd hret (by decide)
      · exact ⟨rfl, rfl, rfl, hU.unchanged h.space h.layout⟩
  | @dropped _ pt' hn hstop hU hL =>
      have hagainst : (p.stop n).Against (p.sz + n) := (hw hn).against hn
      have hsize : SizeExact k p n k' { p with
          pagetable := pt', sz := (p.stop n).sz, next := (p.stop n).next p.next } 0 ↔
          ((p.stop n).sz : Int) = p.sz + n :=
        ⟨fun hE => hE.done rfl, fun hE => ⟨fun _ => hE, fun hret => absurd hret (by decide)⟩⟩
      rw [hsize]
      unfold StopsExactly
      cases hend : p.stop n with
      | ran S =>
          rw [hend] at hagainst
          refine iff_of_false (fun hE => ?_) (fun hE => ?_)
          · exact absurd (show (p.sz : Int) + n < S from hagainst) (by
              rw [← hE]
              exact Int.lt_irrefl _)
          · rcases hE hn with ⟨i, S, hh⟩ | ⟨i, S, m, hh, -⟩ <;> cases hh
      | exact i S =>
          rw [hend] at hagainst
          exact iff_of_true hagainst (fun _ => .inl ⟨i, S, rfl⟩)
      | past i S =>
          rw [hend] at hagainst
          refine iff_of_false (fun hE => ?_) (fun hE => ?_)
          · exact absurd (show (S : Int) < p.sz + n from hagainst) (by
              rw [← hE]
              exact Int.lt_irrefl _)
          · rcases hE hn with ⟨i, S, hh⟩ | ⟨i, S, m, hh, -⟩ <;> cases hh
      | split i S m => exact absurd hend (hstop i S m)
  | split hn hstop _ hE _ _ =>
      have hagainst : (p.stop n).Against (p.sz + n) := (hw hn).against hn
      rw [hstop] at hagainst
      refine iff_of_true ⟨fun _ => hagainst, fun hret => absurd hret (by decide)⟩
        (fun _ => .inr ⟨_, _, _, hstop, hE⟩)
  | @lost _ _ _ _ i S m hn hstop hE _ _ =>
      have hagainst : (p.stop n).Against (p.sz + n) := (hw hn).against hn
      obtain ⟨hm, -⟩ := shrinkEnd_split hn hstop
      rw [hstop] at hagainst
      have hsum : ((S + m : Nat) : Int) = p.sz + n := hagainst
      refine iff_of_false (fun hexact => ?_) (fun hstops => ?_)
      · have hzero : ((0 : Nat) : Int) = p.sz + n := hexact.done rfl
        omega
      · rcases hstops hn with ⟨i', S', hh⟩ | ⟨i', S', m', hh, hE'⟩
        · rw [hstop] at hh
          cases hh
        · rw [hstop] at hh
          obtain ⟨-, rfl, rfl⟩ := ShrinkEnd.split.inj hh
          exact hE hE'

/-- **Sequences of calls**: as long as size and page table stay together, a call that cuts
no superpage is exact if and only if it stops exactly. -/
theorem growproc_exact_iff (h : Exec kend t₀)
    (heach : Each (Task.Step kend) (Task.Meets Task.TidyCall) t₀ es)
    (hrun : Run (Task.Step kend) t₀ es t) {n : Int}
    (hcall : n < 0 → Uncut t.p.pagetable t.p.record t.p.sz n t.p.next.toNat ∧
      Within t.p.record t.p.sz n t.p.next.toNat)
    {k' : Kernel} {p' : Proc} {ret : Int}
    (hok : growproc kend t.k t.p n = .ok (k', p', ret)) :
    SizeExact t.k t.p n k' p' ret ↔ (n < 0 → StopsExactly t.k t.p n) := by
  have hstep : ∀ s e u, Covered kend s → s.Meets Task.TidyCall e → Task.Step kend s e u →
      Covered kend u := by
    intro s e u hcov hQ hs
    cases hs with
    | growproc _ _ hok =>
        have htidy : Task.TidyCall _ _ := hQ
        exact (hcov.growproc_cases (fun hn => (htidy hn).1) hok).covered hcov
          (fun hn => (htidy hn).2)
    | others hS => exact ⟨hS, hcov.layout⟩
  have hcov : Covered kend t := (always_of_each hstep h.toCovered heach).last hrun
  exact (Covered.growproc_cases hcov (fun hn => (hcall hn).1) hok).sizeExact_iff hcov
    (fun hn => (hcall hn).2)

/-- The superpage is given back, and the size falls by 2 MB. -/
theorem growproc_exact_iff_tinyImage : ∃ t k' p',
    Run (Task.Step 0x80200000) tinyImageTask [.growproc 4190208] t ∧
      superAt t.p.pagetable 1 = true ∧
      growproc 0x80200000 t.k t.p (-2097152) = .ok (k', p', 0) ∧
      SizeExact t.k t.p (-2097152) k' p' 0 := by
  obtain ⟨t, -, hrun, hcov, hsz, hnext, hlast, hsuper, hon⟩ := tinyImage_superpage
  have heach : Each (Task.Step 0x80200000) (Task.Meets Task.TidyCall) tinyImageTask
      [.growproc 4190208] := ⟨fun hn => absurd hn (by decide), fun _ _ => trivial⟩
  have hwithin : Within t.p.record t.p.sz (-2097152) t.p.next.toNat := by
    rw [hnext]
    refine ⟨?_, fun hlt => ?_⟩
    · rw [hsz]
      exact Nat.le_add_left _ _
    · rw [hlast] at hlt
      exact absurd hlt (by decide)
  obtain ⟨k₂, pt₂, hok₂, -, -⟩ := hcov.shrink_chunk hlast hnext (by decide) hsz hon
  exact ⟨t, _, _, hrun, hsuper, hok₂, (growproc_exact_iff tinyImage_exec heach hrun
    (fun _ => ⟨Proc.uncut_last (by omega) hnext hsz hon, hwithin⟩) hok₂).mpr
    (fun _ => .inl ⟨511, 2097152, Proc.stop_chunk hlast hnext hsz⟩)⟩

/-- **The image cannot be given back**: without entries in the record the call reports success
and leaves the size alone. -/
theorem growproc_keeps_image : Exec 0x80200000 tinyImageTask ∧ ∃ k' p',
    growproc 0x80200000 tinyImageTask.k tinyImageTask.p (-4096) = .ok (k', p', 0) ∧
      0 ≤ (tinyImageTask.p.sz : Int) + -4096 ∧
      (p'.sz : Int) ≠ tinyImageTask.p.sz + -4096 :=
  ⟨tinyImage_exec, tinyImageTask.k, tinyImageTask.p, rfl, by decide, by decide⟩

end Xv6Labs.Super
