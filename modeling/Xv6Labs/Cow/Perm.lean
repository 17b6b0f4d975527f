import Xv6Labs.Cow.Refine

/-!
# Write permission across forks

A page without `PTE_W` is followed from one process through all its
descendants, under forks and page faults. `uvmcopy` never adds `PTE_W`
(`uvmcopyLoop_noGrant`), but it marks read-only pages `PTE_COW` like the
writable ones, and `cowhandle` adds `PTE_W` to whatever is marked. The only
addresses it turns away are 0 and, in `usertrap`, the two pages around the
stack pointer, so the permission is kept exactly on the runs without a fault
of the kind `GrantingFault` describes (`write_permission_kept_iff`).
-/

namespace Xv6Labs.Cow

open Xv6Labs.Lib

/-! ## The code never adds `PTE_W` outside `cowhandle` -/

def NoGrant (pt pt' : PageTable) : Prop :=
  ∀ k, (pt'.ent 0 k).w = true → (pt.ent 0 k).w = true

theorem NoGrant.refl (pt : PageTable) : NoGrant pt pt := fun _ h => h

theorem NoGrant.trans {pt pt' pt'' : PageTable} (h : NoGrant pt pt')
    (h' : NoGrant pt' pt'') : NoGrant pt pt'' := fun k hk => h k (h' k hk)

theorem noGrant_set (pt : PageTable) (k : Nat) {e : Pte} (he : e.w = false) :
    NoGrant pt (pt.set 0 k e) := by
  intro j hj
  by_cases hjk : j = k
  · subst hjk
    rw [PageTable.set_ent_self, he] at hj
    cases hj
  · rwa [pt.set_ent_of_ne e (fun hh => hjk hh.2)] at hj

theorem noGrant_newTable (pt : PageTable) {level : Nat} (k r : Nat)
    (hlevel : level = 1 ∨ level = 2) (flags : Flags) :
    NoGrant pt (pt.newTable level k r flags) := by
  intro j hj
  by_cases hb : 0 + 1 = level ∧ j / 512 = k
  · rw [pt.newTable_ent_below flags hb.1 hb.2] at hj
    cases hj
  · rwa [pt.newTable_ent_of_ne flags (by omega) hb] at hj

variable {kend : Nat} {km km' : Kmem} {pt pt' : PageTable}

theorem walkLevel_noGrant {va level : Nat} {alloc b : Bool}
    (hlevel : level = 1 ∨ level = 2)
    (h : walkLevel km pt va alloc level = (km', pt', b)) : NoGrant pt pt' := by
  unfold walkLevel at h
  split at h
  · simp only [Prod.mk.injEq] at h
    rw [← h.2.1]
    exact .refl pt
  split at h
  · split at h
    · simp only [Prod.mk.injEq] at h
      rw [← h.2.1]
      exact .refl pt
    · simp only [Prod.mk.injEq] at h
      rw [← h.2.1]
      exact noGrant_newTable pt _ _ hlevel _
  · simp only [Prod.mk.injEq] at h
    rw [← h.2.1]
    exact .refl pt

theorem walk_noGrant {va : Nat} {alloc : Bool} {o : Option Nat}
    (h : walk km pt va alloc = .ok (km', pt', o)) : NoGrant pt pt' := by
  unfold walk at h
  split at h
  · cases h
  split at h
  · rename_i h₂
    simp only [Except.ok.injEq, Prod.mk.injEq] at h
    rw [← h.2.1]
    exact walkLevel_noGrant (.inr rfl) h₂
  · rename_i h₂
    have hstep := walkLevel_noGrant (.inr rfl) h₂
    split at h
    · rename_i h₁
      simp only [Except.ok.injEq, Prod.mk.injEq] at h
      rw [← h.2.1]
      exact hstep.trans (walkLevel_noGrant (.inl rfl) h₁)
    · rename_i h₁
      simp only [Except.ok.injEq, Prod.mk.injEq] at h
      rw [← h.2.1]
      exact hstep.trans (walkLevel_noGrant (.inl rfl) h₁)

theorem mappages_noGrant {va pa : Nat} {perm : Flags} {ret : Int}
    (hva : va % 4096 = 0) (hw : perm.w = false)
    (h : mappages km pt va PGSIZE pa perm = .ok (km', pt', ret)) :
    NoGrant pt pt' := by
  rw [mappages_page hva] at h
  split at h
  · cases h
  · rename_i hwalk
    simp only [Except.ok.injEq, Prod.mk.injEq] at h
    rw [← h.2.1]
    exact walk_noGrant hwalk
  · rename_i hwalk
    split at h
    · cases h
    simp only [Except.ok.injEq, Prod.mk.injEq] at h
    rw [← h.2.1]
    exact (walk_noGrant hwalk).trans (noGrant_set _ _ hw)

theorem uvmunmapLoop_noGrant {doFree : Bool} :
    ∀ (m a : Nat) {km : Kmem} {pt : PageTable},
    uvmunmapLoop kend km pt a doFree m = .ok (km', pt') → NoGrant pt pt'
  | 0, a, km, pt, h => by
      simp only [uvmunmapLoop, Except.ok.injEq, Prod.mk.injEq] at h
      rw [← h.2]
      exact .refl pt
  | m + 1, a, km, pt, h => by
      simp only [uvmunmapLoop] at h
      split at h
      · cases h
      · cases h
      split at h
      · cases h
      split at h
      · cases h
      split at h
      · split at h
        · cases h
        exact (noGrant_set pt _ rfl).trans (uvmunmapLoop_noGrant m _ h)
      · exact (noGrant_set pt _ rfl).trans (uvmunmapLoop_noGrant m _ h)

/-- **`uvmcopy`** adds `PTE_W` to no entry of the parent or the child. -/
theorem uvmcopyLoop_noGrant : ∀ (m i : Nat) {km km' : Kmem}
    {old new old' new' : PageTable} {ret : Int}, i % 4096 = 0 →
    uvmcopyLoop kend km old new i m = .ok (km', old', new', ret) →
    NoGrant old old' ∧ NoGrant new new'
  | 0, i, km, km', old, new, old', new', ret, _, h => by
      simp only [uvmcopyLoop, Except.ok.injEq, Prod.mk.injEq] at h
      rw [← h.2.1, ← h.2.2.1]
      exact ⟨.refl old, .refl new⟩
  | m + 1, i, km, km', old, new, old', new', ret, hi, h => by
      simp only [uvmcopyLoop] at h
      split at h
      · cases h
      · cases h
      rename_i k _
      split at h
      · cases h
      have hmark : NoGrant old (old.set 0 k (PA2PTE (PTE2PA (old.ent 0 k))
        (cowFlags (old.ent 0 k).toFlags))) := noGrant_set old k rfl
      split at h
      · cases h
      rename_i hmap
      have hchild := mappages_noGrant hi rfl hmap
      split at h
      · split at h
        · cases h
        rename_i hun
        simp only [Except.ok.injEq, Prod.mk.injEq] at h
        rw [← h.2.1, ← h.2.2.1]
        refine ⟨hmark, hchild.trans ?_⟩
        unfold uvmunmap at hun
        rw [if_neg (by simp [PGSIZE])] at hun
        exact uvmunmapLoop_noGrant _ _ hun
      · obtain ⟨h₁, h₂⟩ := uvmcopyLoop_noGrant m (i + PGSIZE)
          (by simp only [PGSIZE]; omega) h
        exact ⟨hmark.trans h₁, hchild.trans h₂⟩

/-! ## One page through a family of processes -/

variable {n : Nat}

/-- What the processes may do: fork, and fault at any address with any stack
pointer. -/
inductive Act (n : Nat) where
  | fork (p c : Fin n)
  | fault (p : Fin n) (va sp : Nat)

def Act.op : Act n → Op n
  | .fork p c => .fork p c
  | .fault p va sp => .fault p va sp

/-- A kernel state with the processes descended from one process. -/
structure Lineage (n : Nat) where
  sys : Sys n
  kin : Finset (Fin n)

def Lineage.join (kin : Finset (Fin n)) : Effect n → Finset (Fin n)
  | .fork p c => if p ∈ kin then insert c kin else kin
  | _ => kin

def Lineage.exec (kend : Nat) (g : Lineage n) (a : Act n) :
    Except String (Lineage n) :=
  match g.sys.exec kend a.op with
  | .error e => .error e
  | .ok (s, ev) => .ok ⟨s, join g.kin ev⟩

def LineageStep (kend : Nat) (g : Lineage n) (a : Act n) (g' : Lineage n) : Prop :=
  g.exec kend a = .ok g'

def NoWrite (k : Nat) (g : Lineage n) : Prop :=
  ∀ d ∈ g.kin, ∀ pr, g.sys.proc d = some pr → (pr.pagetable.ent 0 k).w = false

/-- The faults that end with a writable copy: neither `usertrap` (the pages
around the stack pointer, `MAXVA`) nor `cowhandle` (address 0) turns the
address away, the entry is marked `PTE_COW`, and a page is free. -/
structure Granted (km : Kmem) (pt : PageTable) (va sp : Nat) : Prop where
  nonzero : va ≠ 0
  bound : va < MAXVA
  guard : ¬ ((PGROUNDDOWN sp + 2 ^ 64 - PGSIZE) % 2 ^ 64 ≤ va ∧
    va ≤ PGROUNDDOWN sp)
  room : km.freelist ≠ []
  v : (pt.ent 0 (vpn 0 va)).v = true
  cow : (pt.ent 0 (vpn 0 va)).cow = true

/-- A descendant faults inside page `k` and is granted a writable copy. -/
def GrantingFault (k : Nat) (g : Lineage n) : Act n → Prop
  | .fork _ _ => False
  | .fault p va sp =>
      p ∈ g.kin ∧ vpn 0 va = k ∧
      ∃ pr, g.sys.live p = some pr ∧ Granted g.sys.km pr.pagetable va sp

structure LineageInv (kend : Nat) (g : Lineage n) : Prop where
  sys : SysInv kend g.sys
  slots : ∀ d ∈ g.kin, g.sys.proc d ≠ none

/-! ## Faults -/

theorem Inv.cowhandle_total {pts : Tables n} {kern : List Nat} {p : Fin n}
    {va : Nat} (h : Inv kend km pts kern) (hp : pts p = some pt)
    (hva : va < MAXVA) : ∃ r, Cow.cowhandle kend km pt va = .ok r := by
  unfold Cow.cowhandle
  rw [walk_noalloc hva]
  cases hl : lookup pt va with
  | none => exact ⟨_, rfl⟩
  | some k =>
      simp only
      split
      · exact ⟨_, rfl⟩
      rename_i hflag
      split
      · exact ⟨_, rfl⟩
      have hv : (pt.ent 0 k).v = true := by simpa using fun hh => hflag (.inl hh)
      cases hk : kalloc km with
      | mk o km₁ =>
          cases o with
          | none => exact ⟨_, rfl⟩
          | some r =>
              obtain ⟨-, -, hled⟩ := h.ledger.kalloc hk
              -- the page given back is still counted once for this entry
              have hpos : 0 < refs pts kern (PTE2PA (pt.ent 0 k)) := by
                have := userRefs_pos_of hp ((h.wf p pt hp).bound k hv) hv
                unfold refs
                omega
              let after : Nat → Nat := fun pa =>
                refs pts kern pa + (if pa = r then 1 else 0) -
                  if pa = PTE2PA (pt.ent 0 k) then 1 else 0
              have hgive : ∀ pa, after pa +
                  (if pa = PTE2PA (pt.ent 0 k) then 1 else 0) =
                  refs pts kern pa + if pa = r then 1 else 0 := by
                intro pa
                simp only [after]
                by_cases hpa : pa = PTE2PA (pt.ent 0 k)
                · rw [if_pos hpa, hpa]
                  omega
                · rw [if_neg hpa]
                  omega
              obtain ⟨km₂, hf, -⟩ := ((hled _ (fun _ => rfl)).mem
                (km₁.mem.copy r (PTE2PA (pt.ent 0 k)) PGSIZE)).kfree hgive
              simp only [hf]
              exact ⟨_, rfl⟩

/-- **The page-fault branch, exactly**: it returns, and it changes an entry if
and only if the fault is granted; then that entry has `PTE_W`. -/
theorem Inv.pagefault_exact {pts : Tables n} {kern : List Nat} {p : Fin n}
    (h : Inv kend km pts kern) (hp : pts p = some pt) (va sp : Nat) :
    ∃ km' pt' b, Cow.pagefault kend km pt va sp = .ok (km', pt', b) ∧
      ((¬ Granted km pt va sp ∧ pt' = pt) ∨
        (Granted km pt va sp ∧ ∃ e, e.w = true ∧ pt' = pt.set 0 (vpn 0 va) e)) := by
  unfold Cow.pagefault
  simp only
  split
  · rename_i hout
    refine ⟨km, pt, true, rfl, .inl ⟨fun hg => ?_, rfl⟩⟩
    rcases hout with hout | hout
    · have := hg.bound
      omega
    · exact hg.guard hout
  rename_i hout
  rw [not_or] at hout
  obtain ⟨⟨km₁, pt₁, ret⟩, hc⟩ := h.cowhandle_total hp (Nat.not_le.mp hout.1)
  rw [hc]
  refine ⟨km₁, pt₁, _, rfl, ?_⟩
  obtain ⟨hva, ⟨-, -, rfl, hwhy⟩ | ⟨-, -, hv, hcow, hz, r, km₂, hk, rfl, -⟩⟩ :=
    cowhandle_cases hc
  · refine .inl ⟨fun hg => ?_, rfl⟩
    rw [(h.wf p _ hp).lookup hg.v] at hwhy
    rcases hwhy with hwhy | ⟨-, hwhy | hwhy | hwhy | hwhy⟩
    · cases hwhy
    · rw [hg.v] at hwhy
      cases hwhy
    · rw [hg.cow] at hwhy
      cases hwhy
    · exact hg.nonzero hwhy
    · exact hg.room hwhy
  · refine .inr ⟨⟨hz, hva, hout.2, ?_, hv, hcow⟩, _, rfl, rfl⟩
    obtain ⟨rest, hfl, -⟩ := kalloc_eq_some hk
    rw [hfl]
    simp

/-! ## Steps of the family -/

/-- A fork leaves every process in its slot, adds `PTE_W` to nobody's entries
and gives the child none. -/
theorem Sys.exec_fork_noGrant {s t : Sys n} {p c : Fin n} {ev : Effect n}
    (he : s.exec kend (.fork p c) = .ok (t, ev)) :
    (∀ q qr', t.proc q = some qr' →
      (∃ qr, s.proc q = some qr ∧ NoGrant qr.pagetable qr'.pagetable) ∨
        (s.proc q = none ∧ ∀ k, (qr'.pagetable.ent 0 k).w = false)) ∧
    (∀ q, s.proc q ≠ none → t.proc q ≠ none) ∧
    (ev = .silent ∨ (ev = .fork p c ∧ s.proc c = none ∧ t.proc c ≠ none)) := by
  have hsame : ∀ q qr', s.proc q = some qr' →
      (∃ qr, s.proc q = some qr ∧ NoGrant qr.pagetable qr'.pagetable) ∨
        (s.proc q = none ∧ ∀ k, (qr'.pagetable.ent 0 k).w = false) :=
    fun q qr' hq => .inl ⟨qr', hq, .refl _⟩
  simp only [Sys.exec] at he
  split at he
  swap
  · simp only [Except.ok.injEq, Prod.mk.injEq] at he
    obtain ⟨rfl, rfl⟩ := he
    exact ⟨hsame, fun _ h => h, .inl rfl⟩
  rename_i pr hl hc
  have hp := Sys.live_some hl
  unfold Sys.fork at he
  split at he
  · simp only [Except.ok.injEq, Prod.mk.injEq] at he
    obtain ⟨rfl, rfl⟩ := he
    exact ⟨hsame, fun _ h => h, .inl rfl⟩
  rename_i km₁ new hu
  split at he
  · cases he
  rename_i km₂ old' new' ret hcopy
  obtain ⟨hold, hnew⟩ := uvmcopyLoop_noGrant _ 0 rfl hcopy
  -- the child starts from an empty table
  have hbare : ∀ k, (new'.ent 0 k).w = false := by
    intro k
    by_contra hw
    have := hnew k (by simpa using hw)
    unfold uvmcreate at hu
    split at hu
    · simp at hu
    simp only [Prod.mk.injEq, Option.some.injEq] at hu
    rw [← hu.2] at this
    cases this
  have hpc : p ≠ c := by
    rintro rfl
    rw [hp] at hc
    cases hc
  simp only at he
  split at he
  · split at he
    · cases he
    simp only [Except.ok.injEq, Prod.mk.injEq] at he
    obtain ⟨rfl, rfl⟩ := he
    refine ⟨fun q qr' hq => ?_, fun q hq => ?_, .inl rfl⟩
    · by_cases hqp : q = p
      · subst hqp
        simp only [Sys.put, Function.update_self, Option.some.injEq] at hq
        subst hq
        exact .inl ⟨pr, hp, hold⟩
      · simp only [Sys.put, Function.update_of_ne hqp] at hq
        exact hsame q qr' hq
    · by_cases hqp : q = p
      · simp [Sys.put, hqp]
      · simpa [Sys.put, hqp] using hq
  · simp only [Except.ok.injEq, Prod.mk.injEq] at he
    obtain ⟨rfl, rfl⟩ := he
    refine ⟨fun q qr' hq => ?_, fun q hq => ?_, .inr ⟨rfl, hc, by simp [Sys.put]⟩⟩
    · by_cases hqc : q = c
      · subst hqc
        simp only [Sys.put, Function.update_self, Option.some.injEq] at hq
        subst hq
        exact .inr ⟨hc, hbare⟩
      · by_cases hqp : q = p
        · subst hqp
          simp only [Sys.put, Function.update_of_ne hpc, Function.update_self,
            Option.some.injEq] at hq
          subst hq
          exact .inl ⟨pr, hp, hold⟩
        · simp only [Sys.put, Function.update_of_ne hqc,
            Function.update_of_ne hqp] at hq
          exact hsame q qr' hq
    · by_cases hqc : q = c
      · simp [Sys.put, hqc]
      · by_cases hqp : q = p
        · simp [Sys.put, hqp, hpc]
        · simpa [Sys.put, hqc, hqp] using hq

/-- A fault returns, keeps every process in its slot, and changes an entry if
and only if it is granted. -/
theorem Sys.exec_fault_exact {s : Sys n} (h : SysInv kend s) (p : Fin n)
    (va sp : Nat) :
    ∃ t, s.exec kend (.fault p va sp) = .ok (t, .silent) ∧
      (∀ q, s.proc q ≠ none → t.proc q ≠ none) ∧
      (((¬ ∃ pr, s.live p = some pr ∧ Granted s.km pr.pagetable va sp) ∧
          ∀ q, (t.proc q).map (·.pagetable) = (s.proc q).map (·.pagetable)) ∨
        (∃ pr, s.live p = some pr ∧ Granted s.km pr.pagetable va sp ∧
          (∀ q, q ≠ p → t.proc q = s.proc q) ∧
          ∃ e pr', e.w = true ∧ t.proc p = some pr' ∧
            pr'.pagetable = pr.pagetable.set 0 (vpn 0 va) e)) := by
  simp only [Sys.exec]
  cases hl : s.live p with
  | none => exact ⟨s, rfl, fun _ h => h, .inl ⟨by simp, fun _ => rfl⟩⟩
  | some pr =>
      have hp := Sys.live_some hl
      obtain ⟨km₁, pt₁, b, hf, hcase⟩ :=
        h.inv.pagefault_exact (Sys.tables_some hp) va sp
      simp only [Sys.fault, hf]
      refine ⟨_, rfl, fun q hq => ?_, ?_⟩
      · by_cases hqp : q = p
        · simp [Sys.put, hqp]
        · simpa [Sys.put, hqp] using hq
      · rcases hcase with ⟨hno, rfl⟩ | ⟨hg, e, hew, rfl⟩
        · refine .inl ⟨?_, fun q => ?_⟩
          · rintro ⟨pr', hpr', hg⟩
            obtain rfl := Option.some.inj hpr'
            exact hno hg
          · by_cases hqp : q = p
            · subst hqp
              simp [Sys.put, hp]
            · simp [Sys.put, hqp]
        · let pr' : Proc := ⟨pr.pagetable.set 0 (vpn 0 va) e, pr.sz, b⟩
          refine .inr ⟨pr, rfl, hg, fun q hqp => ?_, e, pr', hew, ?_, rfl⟩
          · simp [Sys.put, hqp]
          · simp [Sys.put, pr']

theorem LineageInv.step {g g' : Lineage n} {a : Act n} (h : LineageInv kend g)
    (hs : LineageStep kend g a g') : LineageInv kend g' := by
  simp only [LineageStep, Lineage.exec] at hs
  split at hs
  · cases hs
  rename_i t ev he
  obtain rfl := Except.ok.inj hs
  refine ⟨(Sys.exec_refines h.sys he).1, fun d hd => ?_⟩
  cases a with
  | fork p c =>
      obtain ⟨-, hslots, hev⟩ := Sys.exec_fork_noGrant he
      rcases hev with rfl | ⟨rfl, -, hc⟩
      · exact hslots d (h.slots d hd)
      · simp only [Lineage.join] at hd
        split at hd
        · rcases Finset.mem_insert.mp hd with rfl | hd
          · exact hc
          · exact hslots d (h.slots d hd)
        · exact hslots d (h.slots d hd)
  | fault p va sp =>
      obtain ⟨t', he', hslots, -⟩ := Sys.exec_fault_exact h.sys p va sp
      simp only [Act.op] at he
      rw [he'] at he
      simp only [Except.ok.injEq, Prod.mk.injEq] at he
      obtain ⟨rfl, rfl⟩ := he
      exact hslots d (h.slots d hd)

/-- **One step**: the family stays without `PTE_W` on page `k` exactly when the
step is not a granting fault. -/
theorem noWrite_step_iff {g g' : Lineage n} {a : Act n} {k : Nat}
    (h : LineageInv kend g) (hk : NoWrite k g) (hs : LineageStep kend g a g') :
    NoWrite k g' ↔ ¬ GrantingFault k g a := by
  simp only [LineageStep, Lineage.exec] at hs
  split at hs
  · cases hs
  rename_i t ev he
  obtain rfl := Except.ok.inj hs
  cases a with
  | fork p c =>
      obtain ⟨hgrant, -, hev⟩ := Sys.exec_fork_noGrant he
      refine ⟨fun _ => by simp [GrantingFault], fun _ d hd pr' hpr' => ?_⟩
      rcases hgrant d pr' hpr' with ⟨pr, hpr, hno⟩ | ⟨-, hnone⟩
      · -- it had its slot before the fork, so it is not the child
        have hold : d ∈ g.kin := by
          rcases hev with rfl | ⟨rfl, hfree, -⟩
          · exact hd
          · simp only [Lineage.join] at hd
            split at hd
            · rcases Finset.mem_insert.mp hd with rfl | hd
              · rw [hpr] at hfree
                cases hfree
              · exact hd
            · exact hd
        by_contra hw
        have := hno k (by simpa using hw)
        rw [hk d hold pr hpr] at this
        cases this
      · exact hnone k
  | fault p va sp =>
      obtain ⟨t', he', -, hcase⟩ := Sys.exec_fault_exact h.sys p va sp
      simp only [Act.op] at he
      rw [he'] at he
      simp only [Except.ok.injEq, Prod.mk.injEq] at he
      obtain ⟨rfl, rfl⟩ := he
      rcases hcase with ⟨hno, hsame⟩ | ⟨pr, hl, hg, hother, e, pr', hew, hp', hpt⟩
      · refine ⟨fun _ hgf => hno hgf.2.2, fun _ d hd pr' hpr' => ?_⟩
        have hd' := hsame d
        rw [hpr', Option.map_some] at hd'
        obtain ⟨pr, hpr, hpt⟩ := Option.map_eq_some_iff.mp hd'.symm
        rw [← hpt]
        exact hk d hd pr hpr
      · constructor
        · rintro hnw ⟨hp, rfl, -⟩
          have := hnw p hp pr' hp'
          rw [hpt, PageTable.set_ent_self, hew] at this
          cases this
        · intro hngf d hd qr hqr
          by_cases hdp : d = p
          · subst hdp
            rw [hp'] at hqr
            obtain rfl := Option.some.inj hqr
            have hne : ¬ (0 = 0 ∧ k = vpn 0 va) :=
              fun hh => hngf ⟨hd, hh.2.symm, pr, hl, hg⟩
            rw [hpt, PageTable.set_ent_of_ne _ _ hne]
            exact hk d hd pr (Sys.live_some hl)
          · rw [hother d hdp] at hqr
            exact hk d hd qr hqr

/-- **When write permission stays out.** Take any reachable state and a page
`k` that process `i` maps without `PTE_W`. Along any later sequence of forks
and page faults, no descendant's entry for `k` acquires `PTE_W` if and only if
no step is a granting fault: a fault of a descendant inside page `k`, at an
address other than 0, `MAXVA` and up, and the pages around the stack pointer,
on an entry marked `PTE_COW` while a page is free. -/
theorem write_permission_kept_iff {mem : Mem} {ls : List (Op n × Effect n)}
    {s : Sys n} {i : Fin n} {pr : Proc} {k : Nat}
    (hk : kinit kend mem = .ok km) (hr : Run (Step kend) (Sys.init n km) ls s)
    (hi : s.proc i = some pr) (hw : (pr.pagetable.ent 0 k).w = false)
    (acts : List (Act n)) :
    Always (LineageStep kend) (NoWrite k) ⟨s, {i}⟩ acts ↔
      Each (LineageStep kend) (fun g a => ¬ GrantingFault k g a) ⟨s, {i}⟩ acts := by
  refine always_iff_each (J := LineageInv kend) ?_ ?_ ?_ ?_ ?_
  · intro g a g' h hs
    exact h.step hs
  · -- a fault always returns, and a fork grants nothing
    intro g a h _ hstuck
    cases a with
    | fork p c => simp [GrantingFault]
    | fault p va sp =>
        obtain ⟨t, he, -⟩ := Sys.exec_fault_exact h.sys p va sp
        refine absurd ?_ (hstuck ⟨t, Lineage.join g.kin .silent⟩)
        simp only [LineageStep, Lineage.exec, Act.op, he]
  · intro g a g' h hno hs
    exact noWrite_step_iff h hno hs
  · refine ⟨(Sys.run_refines hk hr).1, fun d hd => ?_⟩
    rw [Finset.mem_singleton.mp hd, hi]
    simp
  · intro d hd pr' hpr'
    rw [Finset.mem_singleton.mp hd, hi] at hpr'
    rw [← Option.some.inj hpr']
    exact hw

def textRun : List (Op 2 × Effect 2) :=
  [(.create 0, .silent), (.grow 0 false true, .grow 0 0)]

/-- After a fork the child stores to its data page and is given a copy; the parent
stores to address 0, which is refused. The text page stays read-only in both. -/
theorem write_permission_kept_by_fork :
    ∃ (km : Kmem) (s : Sys 2) (pr : Proc),
      kinit (PHYSTOP - 36864) (fun _ => 0) = .ok km ∧
      Run (Step (PHYSTOP - 36864)) (Sys.init 2 km)
        (textRun ++ [(.grow 0 true false, .grow 0 4096)]) s ∧
      s.proc 0 = some pr ∧ (pr.pagetable.ent 0 0).v = true ∧
      Always (LineageStep (PHYSTOP - 36864)) (NoWrite 0) ⟨s, {0}⟩
        [.fork 0 1, .fault 1 5000 16384, .fault 0 0 16384] ∧
      ∃ g' pr', Run (LineageStep (PHYSTOP - 36864)) ⟨s, {0}⟩
        [.fork 0 1, .fault 1 5000 16384, .fault 0 0 16384] g' ∧
        g'.sys.proc 1 = some pr' ∧ (pr'.pagetable.ent 0 0).v = true ∧
        (pr'.pagetable.ent 0 1).w = true := by
  obtain ⟨km, s, pr, hk, hr, hp, hv, hw, hlater⟩ : ∃ (km : Kmem) (s : Sys 2) (pr : Proc),
      kinit (PHYSTOP - 36864) (fun _ => 0) = .ok km ∧
      Run (Step (PHYSTOP - 36864)) (Sys.init 2 km)
        (textRun ++ [(.grow 0 true false, .grow 0 4096)]) s ∧
      s.proc 0 = some pr ∧ (pr.pagetable.ent 0 0).v = true ∧
      (pr.pagetable.ent 0 0).w = false ∧
      ∃ g' pr', Run (LineageStep (PHYSTOP - 36864)) ⟨s, {0}⟩
        [.fork 0 1, .fault 1 5000 16384, .fault 0 0 16384] g' ∧
        g'.sys.proc 1 = some pr' ∧ (pr'.pagetable.ent 0 0).v = true ∧
        (pr'.pagetable.ent 0 1).w = true := by
    refine ⟨_, _, _, rfl, .cons rfl (.cons rfl (.cons rfl (.nil _))), rfl, rfl, rfl, ?_⟩
    exact ⟨_, _, .cons rfl (.cons rfl (.cons rfl (.nil _))), rfl, rfl, rfl⟩
  refine ⟨km, s, pr, hk, hr, hp, hv, ?_, hlater⟩
  refine (write_permission_kept_iff hk hr hp hw _).mpr ⟨fun hg => hg, fun g₁ _ => ⟨?_, ?_⟩⟩
  · -- the child faults in the other page
    rintro ⟨-, hpage, -⟩
    exact absurd hpage (by decide)
  · refine fun g₂ _ => ⟨?_, fun _ _ => trivial⟩
    rintro ⟨-, -, pr, -, hg⟩
    exact hg.nonzero rfl

/-- A text page that was never writable: after a fork, a store fault of the
parent at address 1 gives it `PTE_W`. -/
theorem text_page_becomes_writable :
    ∃ (km : Kmem) (s : Sys 2) (pr : Proc),
      kinit (PHYSTOP - 36864) (fun _ => 0) = .ok km ∧
      Run (Step (PHYSTOP - 36864)) (Sys.init 2 km) textRun s ∧
      s.proc 0 = some pr ∧ (pr.pagetable.ent 0 0).v = true ∧
      (pr.pagetable.ent 0 0).w = false ∧ (pr.pagetable.ent 0 0).cow = false ∧
      ¬ Always (LineageStep (PHYSTOP - 36864)) (NoWrite 0) ⟨s, {0}⟩
        [.fork 0 1, .fault 0 1 0] := by
  refine ⟨_, _, _, rfl, .cons rfl (.cons rfl (.nil _)), rfl, rfl, rfl, rfl, ?_⟩
  intro h
  have hlast := (h.2 _ rfl).2 _ rfl
  exact absurd (hlast 0 (by decide) _ rfl) (by decide)

end Xv6Labs.Cow
