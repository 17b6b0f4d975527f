import Xv6Labs.Cow.Perm

/-!
# `cowhandle` and `copyout`, exactly

What one call changes, and that it changes nothing else, in every state the
kernel can reach. `cowhandle` moves four things at once, the entry, the bytes,
the counts and the free list (`CowMoved`), or it touches none of them. `copyout`
writes a first part of the bytes it was given, all of them when it returns 0.
-/

namespace Xv6Labs.Cow

open Xv6Labs.Lib

variable {n kend : Nat} {km km' : Kmem} {pts : Tables n} {kern : List Nat}
  {p : Fin n} {pt pt' : PageTable}

theorem userRefs_eq_zero_iff {pa : Nat} (hwf : ∀ p pt, pts p = some pt → WF pt) :
    userRefs pts pa = 0 ↔
      ∀ q qt k, pts q = some qt → (qt.ent 0 k).frame ≠ some pa := by
  unfold userRefs
  rw [Finset.sum_eq_zero_iff]
  constructor
  · intro h q qt k hq hfr
    have hzero := h q (Finset.mem_univ q)
    rw [hq] at hzero
    refine hits_eq_zero_iff.mp hzero k ?_ hfr
    exact (hwf q qt hq).bound k (Pte.frame_eq_some.mp hfr).1
  · intro h q _
    cases hq : pts q with
    | none => rfl
    | some qt => exact hits_eq_zero_iff.mpr (fun k _ => h q qt k hq)

/-- A `kfree` that returns, inverted: the count drops, and the page is left alone
or listed and overwritten. -/
theorem kfree_cases {x : Nat} (h : kfree kend km x = .ok km') :
    km'.count = Function.update km.count (x / 4096) (km.count (x / 4096) - 1) ∧
      ((1 < km.count (x / 4096) ∧ km'.freelist = km.freelist ∧ km'.mem = km.mem) ∨
        (km.count (x / 4096) ≤ 1 ∧ km'.freelist = x :: km.freelist ∧
          km'.mem = km.mem.fill x PGSIZE 1)) := by
  unfold kfree at h
  split at h
  · cases h
  · simp only [refcget, refcremove, Function.update_self] at h
    split at h
    · obtain rfl := Except.ok.inj h
      exact ⟨rfl, .inl ⟨by omega, rfl, rfl⟩⟩
    · obtain rfl := Except.ok.inj h
      exact ⟨rfl, .inr ⟨by omega, rfl, rfl⟩⟩

/-! ## `cowhandle` -/

/-- What `cowhandle` has done when entry `k` moved from frame `old` to frame
`new`. -/
structure CowMoved (km : Kmem) (pts : Tables n) (p : Fin n) (pt : PageTable) (k : Nat)
    (km' : Kmem) (pt' : PageTable) (old new : Nat) : Prop where
  before : (pt.ent 0 k).frame = some old
  after : (pt'.ent 0 k).frame = some new
  flags : (pt'.ent 0 k).toFlags =
    { (pt.ent 0 k).toFlags with cow := false, w := true }
  fresh : new ∈ km.freelist ∧ new ∉ km'.freelist
  counted : km'.count (new / 4096) = 1
  copied : ∀ off, off < 4096 → km'.mem (new + off) = km.mem (old + off)
  dropped : km'.count (old / 4096) = km.count (old / 4096) - 1
  /-- the old frame is free exactly when nothing maps it any more -/
  freed : old ∈ km'.freelist ↔ ∀ q qt j,
    Function.update pts p (some pt') q = some qt → (qt.ent 0 j).frame ≠ some old
  entries : ∀ level j, ¬ (level = 0 ∧ j = k) → pt'.ent level j = pt.ent level j
  tables : pt'.tables = pt.tables
  counts : ∀ i, i ≠ old / 4096 → i ≠ new / 4096 → km'.count i = km.count i
  /-- a frame is overwritten only when it is the new one or was freed -/
  bytes : ∀ x, ¬ (new ≤ x ∧ x < new + 4096) →
    (old ≤ x ∧ x < old + 4096 → old ∉ km'.freelist) → km'.mem x = km.mem x
  list : ∀ f, f ≠ old → f ≠ new → (f ∈ km'.freelist ↔ f ∈ km.freelist)

/-- **A `cowhandle` that returns 0** moves one entry to a private copy. -/
theorem Inv.cowhandle_moved {va : Nat} (h : Inv kend km pts kern) (hp : pts p = some pt)
    (hc : Cow.cowhandle kend km pt va = .ok (km', pt', 0)) :
    ∃ old new, CowMoved km pts p pt (vpn 0 va) km' pt' old new := by
  obtain ⟨hq, -⟩ := h.cowhandle hp hc
  obtain ⟨-, ⟨hret, -⟩ | ⟨-, -, hv, -, -, r, km₁, hk, rfl, hf⟩⟩ := cowhandle_cases hc
  · exact absurd hret (by decide)
  generalize vpn 0 va = k at *
  obtain ⟨hr0, hmr, -⟩ := h.ledger.kalloc hk
  obtain ⟨rest, hl, rfl⟩ := kalloc_eq_some hk
  have hkb := (h.wf p pt hp).bound k hv
  have hold := h.managed hp hv
  have hne : PTE2PA (pt.ent 0 k) ≠ r := h.ne_of_free hp hv (userRefs_of_refs hr0)
  have hdiv : PTE2PA (pt.ent 0 k) / 4096 ≠ r / 4096 := fun hh =>
    hne (hold.eq_of_div hmr hh)
  have hcr : km.count (r / 4096) = 0 := by
    rw [h.ledger.count r hmr, hr0]
    rfl
  have hnd := h.ledger.nodup
  rw [hl, List.nodup_cons] at hnd
  -- the free list after the old page was given back
  have hfree : PTE2PA (pt.ent 0 k) ∈ km'.freelist ↔ ∀ q qt j,
      Function.update pts p (some (pt.set 0 k (PA2PTE r
        { (pt.ent 0 k).toFlags with cow := false, w := true }))) q = some qt →
      (qt.ent 0 j).frame ≠ some (PTE2PA (pt.ent 0 k)) := by
    rw [hq.inv.ledger.free _ hold, ← userRefs_eq_zero_iff hq.inv.wf]
    unfold refs
    rw [kernRefs_set hp, h.kernRefs_mapped hp hv, Nat.add_zero]
  have hpage : PTE2PA (PA2PTE r { (pt.ent 0 k).toFlags with cow := false, w := true }) =
      r := PTE2PA_PA2PTE hmr.aligned _
  generalize hpa : PTE2PA (pt.ent 0 k) = old at *
  have hcopy : ∀ off, off < 4096 →
      ((km.mem.fill r PGSIZE 5).copy r old PGSIZE) (r + off) = km.mem (old + off) := by
    intro off hoff
    rw [Mem.copy_of_mem ⟨by omega, by simp only [PGSIZE]; omega⟩,
      Nat.add_sub_cancel_left]
    refine Mem.fill_of_notMem (fun hin => hne ?_)
    exact hold.eq_of_mem hmr ⟨by omega, by simp only [PGSIZE]; omega⟩ hin
  have hout : ∀ x, ¬ (r ≤ x ∧ x < r + PGSIZE) →
      ((km.mem.fill r PGSIZE 5).copy r old PGSIZE) x = km.mem x := by
    intro x hx
    rw [Mem.copy_of_notMem hx, Mem.fill_of_notMem hx]
  have hapart : ∀ x, old ≤ x ∧ x < old + PGSIZE → ¬ (r ≤ x ∧ x < r + PGSIZE) :=
    fun x h₁ h₂ => hne (hold.eq_of_mem hmr h₁ h₂)
  obtain ⟨hcount, hlist⟩ := kfree_cases hf
  simp only [refcadd] at hcount
  refine ⟨old, r, ?_, ?_, ?_, ?_, ?_, ?_, ?_, hfree, ?_, rfl, ?_, ?_, ?_⟩
  · rw [Pte.frame_of_v hv, hpa]
  · rw [PageTable.set_ent_self, Pte.frame_of_v (by exact hv), hpage]
  · rw [PageTable.set_ent_self]
    rfl
  · refine ⟨by rw [hl]; exact List.mem_cons_self, ?_⟩
    rcases hlist with ⟨-, hfl, -⟩ | ⟨-, hfl, -⟩
    · rw [hfl]
      exact hnd.1
    · rw [hfl, List.mem_cons]
      rintro (heq | hin)
      · exact hne heq.symm
      · exact hnd.1 hin
  · rw [hcount, Function.update_of_ne hdiv.symm, Function.update_self, hcr]
    rfl
  · intro off hoff
    rcases hlist with ⟨-, -, hm⟩ | ⟨-, -, hm⟩
    · rw [hm]
      exact hcopy off hoff
    · rw [hm, Mem.fill_of_notMem (fun hin => hapart _ hin ⟨by omega, by
        simp only [PGSIZE]
        omega⟩)]
      exact hcopy off hoff
  · rw [hcount, Function.update_self, Function.update_of_ne hdiv]
  · intro level j hj
    exact pt.set_ent_of_ne _ hj
  · intro i h₁ h₂
    rw [hcount, Function.update_of_ne h₁, Function.update_of_ne h₂]
  · intro x h₁ h₂
    rcases hlist with ⟨-, -, hm⟩ | ⟨-, hfl, hm⟩
    · rw [hm]
      exact hout x h₁
    · have hx : ¬ (old ≤ x ∧ x < old + PGSIZE) := by
        intro hin
        refine h₂ hin ?_
        rw [hfl]
        exact List.mem_cons_self
      rw [hm, Mem.fill_of_notMem hx]
      exact hout x h₁
  · intro f h₁ h₂
    rw [hl, List.mem_cons]
    rcases hlist with ⟨-, hfl, -⟩ | ⟨-, hfl, -⟩
    · rw [hfl]
      show f ∈ rest ↔ f = r ∨ f ∈ rest
      simp [h₂]
    · rw [hfl, List.mem_cons]
      show f = old ∨ f ∈ rest ↔ f = r ∨ f ∈ rest
      simp [h₁, h₂]

/-- **`cowhandle` is exact and all-or-nothing.** In every reachable state, for
every process and every address below `MAXVA`, `cowhandle` returns: 0 after
moving the entry of that page as `CowMoved` says, or -1 with nothing changed. -/
theorem cowhandle_exact {mem : Mem} {ls : List (Op n × Effect n)} {s : Sys n}
    {pr : Proc} {va : Nat} (hk : kinit kend mem = .ok km)
    (hr : Run (Step kend) (Sys.init n km) ls s) (hp : s.proc p = some pr)
    (hva : va < MAXVA) :
    ∃ km' pt' ret, cowhandle kend s.km pr.pagetable va = .ok (km', pt', ret) ∧
      ((ret = 0 ∧ ∃ old new,
          CowMoved s.km s.tables p pr.pagetable (vpn 0 va) km' pt' old new) ∨
        (ret = -1 ∧ km' = s.km ∧ pt' = pr.pagetable)) := by
  obtain ⟨h, -⟩ := Sys.run_refines hk hr
  have hp' := Sys.tables_some hp
  obtain ⟨⟨km', pt', ret⟩, hc⟩ := h.inv.cowhandle_total hp' hva
  refine ⟨km', pt', ret, hc, ?_⟩
  obtain ⟨-, ⟨rfl, rfl, rfl, -⟩ | ⟨rfl, -⟩⟩ := cowhandle_cases hc
  · exact .inr ⟨rfl, rfl, rfl⟩
  · exact .inl ⟨rfl, h.inv.cowhandle_moved hp' hc⟩

/-- A page, its fork, and the parent's handling of it. -/
theorem cowhandle_exact_shared_page :
    ∃ (km : Kmem) (s : Sys 2) (pr : Proc),
      kinit (PHYSTOP - 32768) (fun _ => 0) = .ok km ∧
      Run (Step (PHYSTOP - 32768)) (Sys.init 2 km)
        [(.create 0, .silent), (.grow 0 true false, .grow 0 0),
          (.fork 0 1, .fork 0 1)] s ∧
      s.proc 0 = some pr ∧
      ∃ km' pt' old new,
        cowhandle (PHYSTOP - 32768) s.km pr.pagetable 7 = .ok (km', pt', 0) ∧
        CowMoved s.km s.tables 0 pr.pagetable (vpn 0 7) km' pt' old new := by
  obtain ⟨km, s, pr, hk, hr, hp, hzero⟩ : ∃ (km : Kmem) (s : Sys 2) (pr : Proc),
      kinit (PHYSTOP - 32768) (fun _ => 0) = .ok km ∧
      Run (Step (PHYSTOP - 32768)) (Sys.init 2 km)
        [(.create 0, .silent), (.grow 0 true false, .grow 0 0),
          (.fork 0 1, .fork 0 1)] s ∧
      s.proc 0 = some pr ∧
      ∃ km' pt', cowhandle (PHYSTOP - 32768) s.km pr.pagetable 7 = .ok (km', pt', 0) :=
    ⟨_, _, _, rfl, .cons rfl (.cons rfl (.cons rfl (.nil _))), rfl, _, _, rfl⟩
  refine ⟨km, s, pr, hk, hr, hp, ?_⟩
  obtain ⟨km', pt', ret, hc, hres⟩ := cowhandle_exact hk hr hp (by decide : 7 < MAXVA)
  obtain ⟨km₁, pt₁, hc₁⟩ := hzero
  rw [hc₁] at hc
  simp only [Except.ok.injEq, Prod.mk.injEq] at hc
  obtain ⟨rfl, rfl, rfl⟩ := hc
  rcases hres with ⟨-, old, new, hm⟩ | ⟨hret, -⟩
  · exact ⟨km₁, pt₁, old, new, hc₁, hm⟩
  · exact absurd hret (by decide)

/-! ## `copyout` -/

theorem Inv.copyoutPage_total (h : Inv kend km pts kern) (hp : pts p = some pt)
    (va0 : Nat) : ∃ r, Cow.copyoutPage kend km pt va0 = .ok r := by
  unfold Cow.copyoutPage
  by_cases hva : MAXVA ≤ va0
  · exact ⟨_, if_pos hva⟩
  rw [if_neg hva, walk_noalloc (Nat.not_le.mp hva)]
  cases hl : lookup pt va0 with
  | none => exact ⟨_, rfl⟩
  | some k =>
      simp only
      split
      · exact ⟨_, rfl⟩
      split
      · split
        · exact ⟨_, rfl⟩
        · obtain ⟨⟨km₁, pt₁, ret⟩, hc⟩ := h.cowhandle_total hp (Nat.not_le.mp hva)
          rw [hc]
          simp only
          split
          · exact ⟨_, rfl⟩
          · rename_i hret
            obtain ⟨-, hok⟩ := h.cowhandle hp hc
            rw [walk_noalloc (Nat.not_le.mp hva), (hok (by simpa using hret)).2.2]
            exact ⟨_, rfl⟩
      · exact ⟨_, rfl⟩

/-- **`copyout` ends and never panics**, whatever it is asked to copy. -/
theorem Inv.copyout_total (N : Nat) : ∀ {km : Kmem} {pts : Tables n} {pt : PageTable}
    {dstva : Nat} {src : List UInt8}, src.length ≤ N → Inv kend km pts kern →
    pts p = some pt → ∃ r, Cow.copyout kend km pt dstva src = .ok r := by
  induction N with
  | zero =>
      intro km pts pt dstva src hN _ _
      rw [Cow.copyout, if_pos (Nat.le_zero.mp hN)]
      exact ⟨_, rfl⟩
  | succ N ih =>
      intro km pts pt dstva src hN h hp
      rw [Cow.copyout]
      split
      · exact ⟨_, rfl⟩
      rename_i hlen
      obtain ⟨⟨km₁, pt₁, o⟩, hpage⟩ := h.copyoutPage_total hp (PGROUNDDOWN dstva)
      simp only [hpage]
      cases o with
      | none => exact ⟨_, rfl⟩
      | some pa0 =>
          obtain ⟨hq, -⟩ := h.copyoutPage hp hpage
          refine ih ?_ (hq.inv.mem _) (Function.update_self ..)
          simp only [List.length_drop, PGSIZE, PGROUNDDOWN]
          omega

/-- **`copyout` writes exactly the requested bytes.** In every reachable state,
for every process, destination and source, `copyout` returns. After 0 the
process reads `src` from `dstva` on; after -1 it reads the first `m` bytes of
it, where `m` is 0 or ends at a page boundary. Every other byte of every process
reads as before. -/
theorem copyout_exact {mem : Mem} {ls : List (Op n × Effect n)} {s : Sys n}
    {pr : Proc} (hk : kinit kend mem = .ok km)
    (hr : Run (Step kend) (Sys.init n km) ls s) (hp : s.proc p = some pr)
    (dstva : Nat) (src : List UInt8) :
    ∃ km' pt' ret left,
      copyout kend s.km pr.pagetable dstva src = .ok (km', pt', ret, left) ∧
      ∃ m, (ret = 0 ∧ m = src.length ∨
          ret = -1 ∧ m < src.length ∧ (m = 0 ∨ (dstva + m) % PGSIZE = 0)) ∧
        ∀ q y, read km'.mem (Function.update s.tables p (some pt') q) y =
          if q = p ∧ dstva ≤ y ∧ y < dstva + m then some (src.getD (y - dstva) 0)
          else s.view q y := by
  obtain ⟨h, -⟩ := Sys.run_refines hk hr
  have hp' := Sys.tables_some hp
  obtain ⟨⟨km', pt', ret, left⟩, hc⟩ :=
    h.inv.copyout_total src.length (Nat.le_refl _) hp'
  obtain ⟨m, -, hm⟩ := h.inv.copyout src.length (Nat.le_refl _) hp' hc
  exact ⟨km', pt', ret, left, hc, m, hm.ret, hm.reads⟩

theorem copyout_done {km : Kmem} {pt : PageTable} {dstva : Nat} :
    copyout kend km pt dstva [] = .ok (km, pt, 0, []) := by
  rw [copyout]
  rfl

theorem copyout_round {km km' : Kmem} {pt pt' : PageTable} {dstva pa0 k : Nat}
    {b : UInt8} {src : List UInt8}
    (hpage : copyoutPage kend km pt (PGROUNDDOWN dstva) = .ok (km', pt', some pa0))
    (hk : min (PGSIZE - (dstva - PGROUNDDOWN dstva)) (b :: src).length = k) :
    copyout kend km pt dstva (b :: src) =
      copyout kend { km' with
          mem := km'.mem.store (pa0 + (dstva - PGROUNDDOWN dstva)) ((b :: src).take k) }
        pt' (PGROUNDDOWN dstva + PGSIZE) ((b :: src).drop k) := by
  rw [copyout, if_neg (by simp), ← hk]
  simp only [hpage]

/-- Three bytes across a page boundary, into two pages the process shares with its
child: both get a frame of their own. -/
theorem copyout_exact_shared_pages :
    ∃ (km : Kmem) (s : Sys 2) (pr : Proc),
      kinit (PHYSTOP - 65536) (fun _ => 0) = .ok km ∧
      Run (Step (PHYSTOP - 65536)) (Sys.init 2 km)
        [(.create 0, .silent), (.grow 0 true false, .grow 0 0),
          (.grow 0 true false, .grow 0 4096), (.grow 0 true false, .grow 0 8192),
          (.fork 0 1, .fork 0 1)] s ∧
      s.proc 0 = some pr ∧
      ∃ km' pt',
        copyout (PHYSTOP - 65536) s.km pr.pagetable 8191 [7, 8, 9] =
          .ok (km', pt', 0, []) ∧
        ∀ q y, read km'.mem (Function.update s.tables 0 (some pt') q) y =
          if q = 0 ∧ 8191 ≤ y ∧ y < 8194 then some ([7, 8, 9].getD (y - 8191) 0)
          else s.view q y := by
  obtain ⟨km, s, pr, hk, hr, hp, km', pt', hc⟩ : ∃ (km : Kmem) (s : Sys 2) (pr : Proc),
      kinit (PHYSTOP - 65536) (fun _ => 0) = .ok km ∧
      Run (Step (PHYSTOP - 65536)) (Sys.init 2 km)
        [(.create 0, .silent), (.grow 0 true false, .grow 0 0),
          (.grow 0 true false, .grow 0 4096), (.grow 0 true false, .grow 0 8192),
          (.fork 0 1, .fork 0 1)] s ∧
      s.proc 0 = some pr ∧
      ∃ km' pt', copyout (PHYSTOP - 65536) s.km pr.pagetable 8191 [7, 8, 9] =
        .ok (km', pt', 0, []) :=
    ⟨_, _, _, rfl, .cons rfl (.cons rfl (.cons rfl (.cons rfl (.cons rfl (.nil _))))), rfl,
      _, _, (copyout_round rfl rfl).trans ((copyout_round rfl rfl).trans copyout_done)⟩
  refine ⟨km, s, pr, hk, hr, hp, km', pt', hc, ?_⟩
  obtain ⟨km₁, pt₁, ret, left, hc₁, m, hret, hread⟩ := copyout_exact hk hr hp 8191 [7, 8, 9]
  rw [hc] at hc₁
  simp only [Except.ok.injEq, Prod.mk.injEq] at hc₁
  obtain ⟨rfl, rfl, rfl, rfl⟩ := hc₁
  rcases hret with ⟨-, rfl⟩ | ⟨hret, -⟩
  · exact hread
  · exact absurd hret (by decide)

end Xv6Labs.Cow
