import Xv6Labs.Cow.Machine

/-!
# Copy-on-write refines eager copies

Every operation keeps the system invariant and changes what processes read
exactly as the reference machine says (`Sys.exec_refines`). By the simulation
rule this holds of whole runs: the copy-on-write machine and the reference
agree on every byte, and the reference counts are exact in every reachable
state.
-/

namespace Xv6Labs.Cow

open Xv6Labs.Lib

variable {n : Nat} {kend : Nat} {s t : Sys n} {km' : Kmem} {p c : Fin n}
  {pr : Proc}

/-! ## Slots -/

theorem Sys.tables_put (s : Sys n) (km : Kmem) (p : Fin n) (pr : Proc) :
    (s.put km p pr).tables = Function.update s.tables p (some pr.pagetable) := by
  funext q
  by_cases hq : q = p
  · subst hq
    simp [Sys.tables, Sys.put]
  · simp [Sys.tables, Sys.put, hq]

@[simp] theorem Sys.km_put (s : Sys n) (km : Kmem) (p : Fin n) (pr : Proc) :
    (s.put km p pr).km = km := rfl

theorem Sys.tables_some (h : s.proc p = some pr) :
    s.tables p = some pr.pagetable := by
  simp [Sys.tables, h]

theorem Sys.live_some (h : s.live p = some pr) : s.proc p = some pr :=
  (Option.filter_eq_some_iff.mp h).1

/-- A state with the sharing invariant, read against the memory `r` the
reference gives it. -/
theorem SysInv.of_reads {r : Ref n} (hinv : Inv kend t.km t.tables t.kern)
    (hread : ∀ q y, read t.km.mem (t.tables q) y = r q y)
    (hsz : ∀ q qr y, t.proc q = some qr → r q y ≠ none → y < PGROUNDUP qr.sz)
    (hR : ∀ q qr, t.proc q = some qr → Rooted qr.pagetable) :
    SysInv kend t ∧ t.view = r := by
  have hview : t.view = r := by
    funext q y
    exact hread q y
  refine ⟨⟨hinv, fun q qr y hq hy => ?_, hR⟩, hview⟩
  rw [hview] at hy
  exact hsz q qr y hq hy

theorem SysInv.rooted_put (h : SysInv kend s) (km : Kmem) (p : Fin n) (pr : Proc)
    (hR : Rooted pr.pagetable) (q : Fin n) (qr : Proc)
    (hq : (s.put km p pr).proc q = some qr) : Rooted qr.pagetable := by
  by_cases hqp : q = p
  · subst hqp
    simp only [Sys.put, Function.update_self, Option.some.injEq] at hq
    rw [← hq]
    exact hR
  · simp only [Sys.put, Function.update_of_ne hqp] at hq
    exact h.rooted q qr hq

/-- **The slot rule**: a new process image in slot `p`. -/
theorem SysInv.put {r : Ref n} (h : SysInv kend s)
    (hinv : Inv kend km' (Function.update s.tables p (some pr.pagetable)) s.kern)
    (hread : ∀ q y,
      read km'.mem (Function.update s.tables p (some pr.pagetable) q) y = r q y)
    (hother : ∀ q, q ≠ p → r q = s.view q)
    (hsz : ∀ y, r p y ≠ none → y < PGROUNDUP pr.sz) (hR : Rooted pr.pagetable) :
    SysInv kend (s.put km' p pr) ∧ (s.put km' p pr).view = r := by
  refine SysInv.of_reads (by rw [Sys.tables_put]; exact hinv)
    (by rw [Sys.tables_put]; exact hread) (fun q qr y hq hy => ?_) (h.rooted_put km' p pr hR)
  by_cases hqp : q = p
  · subst hqp
    simp only [Sys.put, Function.update_self, Option.some.injEq] at hq
    subst hq
    exact hsz y hy
  · simp only [Sys.put, Function.update_of_ne hqp] at hq
    rw [hother q hqp] at hy
    exact h.size q qr y hq hy

theorem SysInv.put_quiet (h : SysInv kend s) (pr' : Proc)
    (hp : s.proc p = some pr) (hsz : pr'.sz = pr.sz)
    (hq : Quiet kend s.kern s.km s.tables km'
      (Function.update s.tables p (some pr'.pagetable))) (hR : Rooted pr'.pagetable) :
    SysInv kend (s.put km' p pr') ∧ (s.put km' p pr').view = s.view :=
  h.put hq.inv hq.reads (fun _ _ => rfl) (fun y hy => by
    rw [hsz]
    exact h.size p pr y hp hy) hR

/-! ## Page tables of new and dead processes -/

def Bare (o : Option PageTable) : Prop :=
  ∀ pt, o = some pt → ∀ k, (pt.ent 0 k).v = false

theorem Bare.userHits {o : Option PageTable} (h : Bare o) (pa : Nat) :
    userHits pa o = 0 := by
  cases o with
  | none => rfl
  | some pt =>
      refine hits_eq_zero_iff.mpr (fun k _ => ?_)
      simp [Pte.frame, h pt rfl k]

theorem Bare.read {o : Option PageTable} (h : Bare o) (mem : Mem) (y : Nat) :
    read mem o y = none := by
  cases o with
  | none => rfl
  | some pt =>
      unfold Cow.read
      simp only
      split
      · rfl
      · rw [if_neg (by rw [h pt rfl]; simp)]

theorem bare_of_read {mem : Mem} {pt : PageTable} (hwf : WF pt)
    (h : ∀ y, read mem (some pt) y = none) : Bare (some pt) := by
  intro pt' h' k
  obtain rfl := Option.some.inj h'
  by_contra hv
  have hk : vpn 0 (k * 4096) = k := by
    rw [vpn_zero]
    omega
  have := h (k * 4096)
  rw [read_some hwf, hk, if_pos (by simpa using hv)] at this
  exact absurd this (by simp)

/-- Swapping a bare page table for another moves only kernel references. -/
theorem Inv.rebind {km : Kmem} {pts : Tables n} {kern kern' : List Nat}
    {o : Option PageTable} (h : Inv kend km pts kern) (hold : Bare (pts c))
    (hnew : Bare o) (hwf : ∀ pt, o = some pt → WF pt)
    (hkern : ∀ pa, kernRefs (Function.update pts c o) kern' pa =
      kernRefs pts kern pa) :
    Inv kend km (Function.update pts c o) kern' := by
  have hrefs : refs (Function.update pts c o) kern' = refs pts kern := by
    funext pa
    have := userRefs_update pts c o pa
    rw [hold.userHits, hnew.userHits] at this
    unfold refs
    rw [hkern pa]
    omega
  -- every valid user entry is an old one
  have hent : ∀ q qt k, Function.update pts c o q = some qt →
      (qt.ent 0 k).v = true → pts q = some qt := by
    intro q qt k hq hv
    by_cases hqc : q = c
    · subst hqc
      rw [Function.update_self] at hq
      rw [hnew qt hq k] at hv
      cases hv
    · rwa [Function.update_of_ne hqc] at hq
  refine ⟨⟨?_, ?_, ?_⟩, by rw [hrefs]; exact h.ledger⟩
  · intro q qt hq
    by_cases hqc : q = c
    · subst hqc
      rw [Function.update_self] at hq
      exact hwf qt hq
    · rw [Function.update_of_ne hqc] at hq
      exact h.wf q qt hq
  · intro q r qt rt k l hq hr hvk hvl
    exact h.shared q r qt rt k l (hent q qt k hq hvk) (hent r rt l hr hvl) hvk hvl
  · intro pa hpos
    rw [hrefs]
    exact h.kernel pa (by rw [← hkern pa]; exact hpos)

/-- **`uvmcreate`** in an unused slot. -/
theorem Inv.uvmcreate {km : Kmem} {pts : Tables n} {kern : List Nat}
    {pt : PageTable} (h : Inv kend km pts kern) (hc : pts c = none)
    (hu : uvmcreate km = (km', some pt)) :
    Quiet kend kern km pts km' (Function.update pts c (some pt)) ∧
      Bare (some pt) := by
  unfold Cow.uvmcreate at hu
  split at hu
  · simp at hu
  rename_i r km₁ hk
  simp only [Prod.mk.injEq, Option.some.injEq] at hu
  obtain ⟨rfl, rfl⟩ := hu
  obtain ⟨hi₁, hmr, hr0, hread₁⟩ := h.kallocKern hk
  have hbare : Bare (some (PageTable.empty r)) := by
    rintro pt' h' k
    obtain rfl := Option.some.inj h'
    rfl
  refine ⟨⟨(hi₁.mem _).rebind (by rw [hc]; rintro _ ⟨⟩) hbare ?_ ?_,
    fun q y => ?_⟩, hbare⟩
  · rintro pt' h'
    obtain rfl := Option.some.inj h'
    exact ⟨fun _ _ _ hv => absurd hv (by simp [PageTable.empty, Pte.zero]),
      fun _ hv => absurd hv (by simp [PageTable.empty, Pte.zero])⟩
  · intro pa
    have := kernRefs_update pts kern c (some (PageTable.empty r)) pa
    have htables : (PageTable.empty r).tables = [r] := rfl
    rw [hc] at this
    simp only [tableHits, htables, List.count_singleton, beq_iff_eq,
      Nat.add_zero] at this
    rw [this, kernRefs_cons]
    simp only [eq_comm]
  · have hfill := hi₁.read_frame hmr hr0
      (fun z hz => Mem.fill_of_notMem (n := PGSIZE) (c := 0) hz) q y
    by_cases hqc : q = c
    · subst hqc
      rw [Function.update_self, hbare.read, hc]
      rfl
    · rw [Function.update_of_ne hqc, ← hread₁ q y]
      exact hfill

theorem Inv.drop {km : Kmem} {pts : Tables n} {kern : List Nat}
    {pt : PageTable} (h : Inv kend km pts kern) (hc : pts c = some pt)
    (hbare : Bare (some pt)) :
    Inv kend km (Function.update pts c none) (pt.tables ++ kern) := by
  refine h.rebind (by rw [hc]; exact hbare) (by rintro _ ⟨⟩) (by rintro _ ⟨⟩) ?_
  intro pa
  have := kernRefs_update pts kern c none pa
  rw [hc] at this
  simp only [tableHits] at this
  simp only [kernRefs, List.count_append] at this ⊢
  omega

/-! ## The operations -/

theorem Sys.idle_refines (h : SysInv kend s) {ev : Effect n}
    (he : Except.ok (s, .silent) = (.ok (t, ev) : Except String (Sys n × Effect n))) :
    SysInv kend t ∧ t.view = s.view.apply ev := by
  simp only [Except.ok.injEq, Prod.mk.injEq] at he
  obtain ⟨rfl, rfl⟩ := he
  exact ⟨h, rfl⟩

theorem Sys.exec_kalloc (h : SysInv kend s) {ev : Effect n}
    (he : s.exec kend .kalloc = .ok (t, ev)) :
    SysInv kend t ∧ t.view = s.view.apply ev := by
  simp only [Sys.exec] at he
  split at he
  · rename_i km₁ hk
    simp only [Except.ok.injEq, Prod.mk.injEq] at he
    obtain ⟨rfl, rfl⟩ := he
    rw [kalloc_eq_none hk]
    exact ⟨h, rfl⟩
  · rename_i r km₁ hk
    simp only [Except.ok.injEq, Prod.mk.injEq] at he
    obtain ⟨rfl, rfl⟩ := he
    obtain ⟨hi, -, -, hread⟩ := h.inv.kallocKern hk
    exact SysInv.of_reads hi hread h.size h.rooted

theorem Sys.exec_kfree (h : SysInv kend s) {ev : Effect n} {pa : Nat}
    (he : s.exec kend (.kfree pa) = .ok (t, ev)) :
    SysInv kend t ∧ t.view = s.view.apply ev := by
  simp only [Sys.exec] at he
  split at he
  · rename_i hmem
    have hi := h.inv.perm (List.perm_cons_erase hmem)
    obtain ⟨km₁, hf, hi₁, hread⟩ := hi.kfreeKern
    rw [hf] at he
    simp only [Except.ok.injEq, Prod.mk.injEq] at he
    obtain ⟨rfl, rfl⟩ := he
    exact SysInv.of_reads hi₁ hread h.size h.rooted
  · exact Sys.idle_refines h he

theorem uvmcreate_none {km km' : Kmem} (h : uvmcreate km = (km', none)) :
    km' = km := by
  unfold uvmcreate at h
  split at h
  · rename_i km₁ hk
    simp only [Prod.mk.injEq, and_true] at h
    rw [← h]
    exact kalloc_eq_none hk
  · simp at h

theorem Sys.exec_create (h : SysInv kend s) {ev : Effect n}
    (he : s.exec kend (.create c) = .ok (t, ev)) :
    SysInv kend t ∧ t.view = s.view.apply ev := by
  simp only [Sys.exec] at he
  split at he
  · exact Sys.idle_refines h he
  · rename_i km₁ _ hu
    simp only [Except.ok.injEq, Prod.mk.injEq] at he
    obtain ⟨rfl, rfl⟩ := he
    rw [uvmcreate_none hu]
    exact ⟨h, rfl⟩
  · rename_i km₁ pt hc hu
    simp only [Except.ok.injEq, Prod.mk.injEq] at he
    obtain ⟨rfl, rfl⟩ := he
    have hc' : s.tables c = none := by simp [Sys.tables, hc]
    obtain ⟨hq, hbare⟩ := h.inv.uvmcreate hc' hu
    refine h.put hq.inv hq.reads (fun _ _ => rfl) (fun y hy => ?_)
      (uvmcreate_rooted hu h.inv.aligned).1
    have hnone : read s.km.mem (s.tables c) y = none := by
      rw [hc']
      rfl
    exact absurd hnone hy

theorem Sys.fault_refines {pr' : Proc} (h : SysInv kend s)
    (hp : s.proc p = some pr) {va sp : Nat}
    (hf : s.fault kend p pr va sp = .ok (t, pr')) :
    SysInv kend t ∧ t.view = s.view ∧ t.proc p = some pr' := by
  unfold Sys.fault at hf
  split at hf
  · cases hf
  rename_i km₁ pt₁ killed hpf
  simp only [Except.ok.injEq, Prod.mk.injEq] at hf
  obtain ⟨rfl, rfl⟩ := hf
  have hq := h.inv.pagefault (Sys.tables_some hp) hpf
  obtain ⟨h₁, h₂⟩ := h.put_quiet
    { pr with pagetable := pt₁, killed := killed } hp rfl hq
    ((h.rooted p pr hp).same (pagefault_sameTables hpf))
  exact ⟨h₁, h₂, by simp [Sys.put]⟩

/-- **A direct store**: the entry has W, so its frame is shared with nobody. -/
theorem Sys.userStore_refines (h : SysInv kend s) (hp : s.proc p = some pr)
    {va : Nat} {b : UInt8} (hu : userStore s.km pr.pagetable va b = some km') :
    SysInv kend { s with km := km' } ∧
      Sys.view { s with km := km' } = s.view.apply (.write p va [b]) := by
  unfold userStore at hu
  split at hu
  · cases hu
  rename_i k hl
  obtain rfl : k = vpn 0 va := (lookup_eq_some.mp hl).2.2
  split at hu
  swap
  · cases hu
  rename_i hperm
  simp only [Bool.and_eq_true] at hperm
  obtain ⟨⟨hv, -⟩, hw⟩ := hperm
  obtain rfl := Option.some.inj hu
  have hlt : va % 4096 < 4096 := Nat.mod_lt _ (by omega)
  have hlen : va % 4096 + [b].length ≤ 4096 := by
    simp only [List.length_singleton]
    omega
  have hstore := h.inv.store (Sys.tables_some hp) hv (.inr hw) hlen
  have hbase : vpn 0 va * 4096 + va % 4096 = va := by
    rw [vpn_zero]
    omega
  rw [hbase] at hstore
  let mem' : Mem :=
    s.km.mem.store (PTE2PA (pr.pagetable.ent 0 (vpn 0 va)) + va % 4096) [b]
  have hview : Sys.view { s with km := { s.km with mem := mem' } } =
      s.view.apply (.write p va [b]) := by
    funext q y
    refine (hstore q y).trans ?_
    by_cases hqp : q = p
    · subst hqp
      simp [Ref.apply, Sys.view]
    · simp [Ref.apply, Sys.view, hqp]
  refine ⟨⟨h.inv.mem _, fun q qr y hq hy => ?_, h.rooted⟩, hview⟩
  refine h.size q qr y hq (fun hnone => hy ?_)
  -- the stored byte lies in a page that was mapped
  rw [hview]
  by_cases hqp : q = p
  · subst hqp
    simp only [Ref.apply, Function.update_self]
    rw [if_neg]
    · exact hnone
    · intro hin
      simp only [List.length_singleton] at hin
      obtain rfl : y = va := by omega
      rw [Sys.view, Sys.tables_some hp, read_some (h.inv.wf q _ (Sys.tables_some hp)),
        if_pos hv] at hnone
      cases hnone
  · simpa [Ref.apply, hqp] using hnone

theorem Sys.store_refines (h : SysInv kend s) (hp : s.proc p = some pr)
    {va sp : Nat} {b : UInt8} {ev : Effect n}
    (he : s.store kend p pr va sp b = .ok (t, ev)) :
    SysInv kend t ∧ t.view = s.view.apply ev := by
  unfold Sys.store at he
  split at he
  · rename_i km₁ hu
    simp only [Except.ok.injEq, Prod.mk.injEq] at he
    obtain ⟨rfl, rfl⟩ := he
    exact Sys.userStore_refines h hp hu
  split at he
  · cases he
  rename_i s₁ pr₁ hf
  obtain ⟨h₁, hview, hp₁⟩ := Sys.fault_refines h hp hf
  split at he
  · simp only [Except.ok.injEq, Prod.mk.injEq] at he
    obtain ⟨rfl, rfl⟩ := he
    exact ⟨h₁, hview⟩
  split at he
  · rename_i km₁ hu
    simp only [Except.ok.injEq, Prod.mk.injEq] at he
    obtain ⟨rfl, rfl⟩ := he
    rw [← hview]
    exact Sys.userStore_refines h₁ hp₁ hu
  · simp only [Except.ok.injEq, Prod.mk.injEq] at he
    obtain ⟨rfl, rfl⟩ := he
    exact ⟨h₁, hview⟩

/-- What `fork` has when `uvmcopy` returns: the parent's page table `old` and the
child's, `new`, in slot `c`. -/
structure ForkCopied (kend : Nat) (s : Sys n) (p c : Fin n) (pr : Proc) (km : Kmem)
    (old new : PageTable) (ret : Int) : Prop where
  inv : Inv kend km
    (Function.update (Function.update s.tables p (some old)) c (some new)) s.kern
  others : ∀ q, q ≠ c → ∀ y,
    read km.mem (Function.update s.tables p (some old) q) y = s.view q y
  child : ¬ ret < 0 → ∀ y, read km.mem (some new) y = s.view p y
  bare : ret < 0 → Bare (some new)
  rootedOld : Rooted old
  rootedNew : Rooted new

theorem SysInv.uvmcopy {km₁ km₂ : Kmem} {new old' new' : PageTable} {ret : Int}
    (h : SysInv kend s) (hp : s.proc p = some pr) (hc : s.proc c = none)
    (hu : uvmcreate s.km = (km₁, some new))
    (hcopy : uvmcopy kend km₁ pr.pagetable new pr.sz = .ok (km₂, old', new', ret)) :
    ForkCopied kend s p c pr km₂ old' new' ret := by
  have hpc : p ≠ c := by
    rintro rfl
    rw [hp] at hc
    cases hc
  have hcT : s.tables c = none := by simp [Sys.tables, hc]
  have hpT := Sys.tables_some hp
  obtain ⟨hq, hbare⟩ := h.inv.uvmcreate hcT hu
  have hp₁ : Function.update s.tables c (some new) p = some pr.pagetable := by
    rw [Function.update_of_ne hpc, hpT]
  have hdone := hq.inv.uvmcopyLoop hpc (fun _ => none) _ 0 hp₁ (Function.update_self ..)
    (by omega) (fun _ _ => rfl) (fun y => by rw [hbare.read, if_neg (by omega)]) hcopy
  have hswap : Function.update (Function.update (Function.update s.tables c
      (some new)) p (some old')) c (some new') =
      Function.update (Function.update s.tables p (some old')) c (some new') := by
    rw [Function.update_comm hpc.symm, Function.update_idem]
  have hinv := hdone.inv
  rw [hswap] at hinv
  obtain ⟨hsame, hadds⟩ := uvmcopyLoop_tables _ _ hcopy
  obtain ⟨hR, hA⟩ := uvmcreate_rooted hu h.inv.aligned
  refine ⟨hinv, fun q hqc y => ?_, fun hret y => ?_, fun hret => ?_,
    (h.rooted p pr hp).same hsame, hadds hR hA⟩
  · have h₁ := hdone.others q hqc y
    have h₂ := hq.reads q y
    rw [Function.update_comm hpc.symm, Function.update_of_ne hqc] at h₁
    exact h₁.trans h₂
  · rcases hdone.child with ⟨-, hch⟩ | ⟨rfl, -⟩
    · have hpar := hq.reads p y
      rw [hp₁] at hpar
      rw [hch y, hpar]
      split
      · rfl
      · -- beyond its size the parent reads nothing
        by_contra hne
        have := h.size p pr y hp (fun hh => hne hh.symm)
        simp only [PGROUNDUP, PGSIZE] at *
        omega
    · exact absurd hret (by decide)
  · rcases hdone.child with ⟨rfl, -⟩ | ⟨-, hch⟩
    · exact absurd hret (by decide)
    · exact bare_of_read (hinv.wf c new' (Function.update_self ..)) hch

theorem ForkCopied.failed {km : Kmem} {old new : PageTable} {ret : Int}
    (hF : ForkCopied kend s p c pr km old new ret) (h : SysInv kend s)
    (hp : s.proc p = some pr) (hc : s.proc c = none) (hret : ret < 0) :
    ∃ km', uvmfree kend km new 0 = .ok km' ∧
      SysInv kend { s.put km p { pr with pagetable := old } with km := km' } ∧
      Sys.view { s.put km p { pr with pagetable := old } with km := km' } = s.view := by
  have hpc : c ≠ p := by
    rintro rfl
    rw [hp] at hc
    cases hc
  have hcT : s.tables c = none := by simp [Sys.tables, hc]
  have hdrop := hF.inv.drop (Function.update_self ..) (hF.bare hret)
  have hback : Function.update (Function.update s.tables p (some old)) c none =
      Function.update s.tables p (some old) := by
    refine Function.update_eq_self_iff.mpr ?_
    rw [Function.update_of_ne hpc, hcT]
  rw [Function.update_idem, hback] at hdrop
  obtain ⟨km', hfree, hinv, hread⟩ := hdrop.freewalk hF.rootedNew (hF.bare hret new rfl)
  refine ⟨km', by rw [uvmfree_zero]; exact hfree, ?_⟩
  have htables : Sys.tables { s.put km p { pr with pagetable := old } with km := km' } =
      Function.update s.tables p (some old) := Sys.tables_put ..
  refine SysInv.of_reads (by rw [htables]; exact hinv)
    (fun q y => ?_) (fun q qr y hq hy => ?_)
    (h.rooted_put km p { pr with pagetable := old } hF.rootedOld)
  · rw [htables, hread q y]
    by_cases hqc : q = c
    · subst hqc
      rw [Function.update_of_ne hpc]
      simp [Sys.view, hcT, read]
    · exact hF.others q hqc y
  · by_cases hqp : q = p
    · subst hqp
      simp only [Sys.put, Function.update_self, Option.some.injEq] at hq
      subst hq
      exact h.size q pr y hp hy
    · simp only [Sys.put, Function.update_of_ne hqp] at hq
      exact h.size q qr y hq hy

theorem ForkCopied.made {km : Kmem} {old new : PageTable} {ret : Int}
    (hF : ForkCopied kend s p c pr km old new ret) (h : SysInv kend s)
    (hp : s.proc p = some pr) (hc : s.proc c = none) (hret : ¬ ret < 0) :
    SysInv kend ((s.put km p { pr with pagetable := old }).put km c ⟨new, pr.sz, false⟩) ∧
      ((s.put km p { pr with pagetable := old }).put km c ⟨new, pr.sz, false⟩).view =
        s.view.apply (.fork p c) := by
  have hpc : p ≠ c := by
    rintro rfl
    rw [hp] at hc
    cases hc
  have htables : ((s.put km p { pr with pagetable := old }).put km c
      ⟨new, pr.sz, false⟩).tables =
      Function.update (Function.update s.tables p (some old)) c (some new) := by
    rw [Sys.tables_put, Sys.tables_put]
  refine SysInv.of_reads (by rw [htables]; exact hF.inv) (fun q y => ?_)
    (fun q qr y hq hy => ?_) (fun q qr hq => ?_)
  · rw [htables]
    by_cases hqc : q = c
    · subst hqc
      rw [Function.update_self]
      simpa [Ref.apply] using hF.child hret y
    · rw [Function.update_of_ne hqc]
      simpa [Ref.apply, hqc] using hF.others q hqc y
  · by_cases hqc : q = c
    · subst hqc
      simp only [Sys.put, Function.update_self, Option.some.injEq] at hq
      subst hq
      simp only [Ref.apply, Function.update_self] at hy
      exact h.size p pr y hp hy
    · simp only [Ref.apply, Function.update_of_ne hqc] at hy
      by_cases hqp : q = p
      · subst hqp
        simp only [Sys.put, Function.update_of_ne hpc, Function.update_self,
          Option.some.injEq] at hq
        subst hq
        exact h.size q pr y hp hy
      · simp only [Sys.put, Function.update_of_ne hqc,
          Function.update_of_ne hqp] at hq
        exact h.size q qr y hq hy
  · by_cases hqc : q = c
    · subst hqc
      simp only [Sys.put, Function.update_self, Option.some.injEq] at hq
      subst hq
      exact hF.rootedNew
    · have hparent := h.rooted_put km p { pr with pagetable := old } hF.rootedOld
      exact hparent q qr (by simpa [Sys.put, hqc] using hq)

/-- **`fork`.** On success the child reads what its parent reads; on failure
nothing is left of it. -/
theorem Sys.fork_refines (h : SysInv kend s) (hp : s.proc p = some pr)
    (hc : s.proc c = none) {ev : Effect n}
    (he : s.fork kend p c pr = .ok (t, ev)) :
    SysInv kend t ∧ t.view = s.view.apply ev := by
  unfold Sys.fork at he
  split at he
  · rename_i km₁ hu
    simp only [Except.ok.injEq, Prod.mk.injEq] at he
    obtain ⟨rfl, rfl⟩ := he
    rw [uvmcreate_none hu]
    exact ⟨h, rfl⟩
  rename_i km₁ new hu
  split at he
  · cases he
  rename_i km₂ old' new' ret hcopy
  have hF := h.uvmcopy hp hc hu hcopy
  simp only at he
  split at he
  · rename_i hret
    obtain ⟨km₃, hfree, hdone⟩ := hF.failed h hp hc hret
    rw [hfree] at he
    simp only [Except.ok.injEq, Prod.mk.injEq] at he
    obtain ⟨rfl, rfl⟩ := he
    exact hdone
  · rename_i hret
    simp only [Except.ok.injEq, Prod.mk.injEq] at he
    obtain ⟨rfl, rfl⟩ := he
    exact hF.made h hp hc hret

theorem Sys.exec_copyout (h : SysInv kend s) {dstva : Nat} {src : List UInt8}
    {ev : Effect n} (he : s.exec kend (.copyout p dstva src) = .ok (t, ev)) :
    SysInv kend t ∧ t.view = s.view.apply ev := by
  simp only [Sys.exec] at he
  split at he
  · exact Sys.idle_refines h he
  rename_i pr hl
  have hp := Sys.live_some hl
  split at he
  · cases he
  rename_i km₁ pt₁ ret left hc
  simp only [Except.ok.injEq, Prod.mk.injEq] at he
  obtain ⟨rfl, rfl⟩ := he
  obtain ⟨m, hleft, hdone⟩ := h.inv.copyout src.length (Nat.le_refl _)
    (Sys.tables_some hp) hc
  have hm := hdone.le
  have htake : src.length - left.length = m := by
    rw [hleft, List.length_drop]
    omega
  have hlen : (src.take m).length = m := by simp [hm]
  rw [htake]
  refine h.put (p := p) hdone.inv (fun q y => ?_) (fun q hqp => ?_) (fun y hy => ?_)
    ((h.rooted p pr hp).same (copyout_sameTables src.length (Nat.le_refl _) hc))
  · rw [hdone.reads q y]
    by_cases hqp : q = p
    · subst hqp
      simp only [true_and, Ref.apply, Function.update_self, hlen]
      by_cases hy : dstva ≤ y ∧ y < dstva + m
      · rw [if_pos hy, if_pos hy, List.getD_eq_getElem?_getD,
          List.getD_eq_getElem?_getD, List.getElem?_take_of_lt (by omega)]
      · rw [if_neg hy, if_neg hy]
        rfl
    · simp [Ref.apply, hqp, Sys.view]
  · simp [Ref.apply, hqp]
  · refine h.size p pr y hp ?_
    simp only [Ref.apply, Function.update_self, hlen] at hy
    by_cases hin : dstva ≤ y ∧ y < dstva + m
    · exact hdone.mapped y hin.1 hin.2
    · rwa [if_neg hin] at hy

theorem Sys.exec_grow (h : SysInv kend s) {w x : Bool} {ev : Effect n}
    (he : s.exec kend (.grow p w x) = .ok (t, ev)) :
    SysInv kend t ∧ t.view = s.view.apply ev := by
  simp only [Sys.exec] at he
  split at he
  · exact Sys.idle_refines h he
  rename_i pr hl
  have hp := Sys.live_some hl
  split at he
  · cases he
  rename_i km₁ pt₁ ret hg
  have hal : PGROUNDUP pr.sz % 4096 = 0 := by
    simp only [PGROUNDUP]
    omega
  obtain ⟨hi, hreads⟩ := h.inv.uvmallocPage (Sys.tables_some hp) hal hg
  have hR := (h.rooted p pr hp).uvmallocPage h.inv.aligned hg
  split at he
  · rename_i hret
    simp only [Except.ok.injEq, Prod.mk.injEq] at he
    obtain ⟨rfl, rfl⟩ := he
    have hread := (hreads.resolve_left (fun hh => by omega)).2
    refine h.put (p := p) hi (fun q y => ?_) (fun q hqp => ?_) (fun y hy => ?_) hR
    · rw [hread q y]
      by_cases hqp : q = p
      · subst hqp
        simp [Ref.apply, Sys.view]
      · simp [Ref.apply, hqp, Sys.view]
    · simp [Ref.apply, hqp]
    · simp only [Ref.apply, Function.update_self] at hy
      have hup : PGROUNDUP (PGROUNDUP pr.sz + PGSIZE) = PGROUNDUP pr.sz + 4096 := by
        simp only [PGROUNDUP, PGSIZE]
        omega
      show y < PGROUNDUP (PGROUNDUP pr.sz + PGSIZE)
      rw [hup]
      by_cases hy' : y / 4096 = PGROUNDUP pr.sz / 4096
      · omega
      · rw [if_neg hy'] at hy
        have := h.size p pr y hp hy
        omega
  · rename_i hret
    simp only [Except.ok.injEq, Prod.mk.injEq] at he
    obtain ⟨rfl, rfl⟩ := he
    have hread := (hreads.resolve_right (fun hh => hret hh.1)).2
    exact h.put_quiet { pr with pagetable := pt₁ } hp rfl ⟨hi, hread⟩ hR

theorem Sys.unmap_refines (h : SysInv kend s) (hp : s.proc p = some pr)
    (pr' : Proc) {va m : Nat}
    (hu : uvmunmap kend s.km pr.pagetable va m true = .ok (km', pr'.pagetable))
    (hsz : ∀ y, y < PGROUNDUP pr.sz → PGROUNDUP pr'.sz ≤ y →
      va / 4096 ≤ y / 4096 ∧ y / 4096 < va / 4096 + m) :
    SysInv kend (s.put km' p pr') ∧
      (s.put km' p pr').view = s.view.apply (.unmap p va m) := by
  have hR := (h.rooted p pr hp).same (uvmunmap_sameTables hu).1
  unfold uvmunmap at hu
  split at hu
  · cases hu
  rename_i hal
  simp only [PGSIZE, ne_eq, not_not] at hal
  obtain ⟨hi, hread⟩ := h.inv.uvmunmapLoop m va (Sys.tables_some hp) hal hu
  refine h.put (p := p) hi (fun q y => ?_) (fun q hqp => ?_) (fun y hy => ?_) hR
  · rw [hread q y]
    by_cases hqp : q = p
    · subst hqp
      simp [Ref.apply, Sys.view]
    · simp [Ref.apply, hqp, Sys.view]
  · simp [Ref.apply, hqp]
  · simp only [Ref.apply, Function.update_self] at hy
    by_cases hin : va / 4096 ≤ y / 4096 ∧ y / 4096 < va / 4096 + m
    · rw [if_pos hin] at hy
      exact absurd rfl hy
    · rw [if_neg hin] at hy
      have hlt := h.size p pr y hp hy
      by_contra hge
      exact hin (hsz y hlt (by omega))

/-- In every branch of `uvmdealloc` the pages from the new size to the old one
go. -/
theorem uvmunmap_of_uvmdealloc {km : Kmem} {pt pt' : PageTable} {oldsz newsz sz : Nat}
    (hd : uvmdealloc kend km pt oldsz newsz = .ok (km', pt', sz)) :
    uvmunmap kend km pt (PGROUNDUP sz) ((PGROUNDUP oldsz - PGROUNDUP sz) / PGSIZE) true =
      .ok (km', pt') := by
  have hal : ∀ a, PGROUNDUP a % 4096 = 0 := fun a => by
    simp only [PGROUNDUP]
    omega
  unfold uvmdealloc at hd
  split at hd
  · simp only [Except.ok.injEq, Prod.mk.injEq] at hd
    obtain ⟨rfl, rfl, rfl⟩ := hd
    simp [uvmunmap, PGSIZE, hal, Cow.uvmunmapLoop]
  split at hd
  · split at hd
    · cases hd
    rename_i hu
    simp only [Except.ok.injEq, Prod.mk.injEq] at hd
    obtain ⟨rfl, rfl, rfl⟩ := hd
    exact hu
  · rename_i hge
    simp only [Except.ok.injEq, Prod.mk.injEq] at hd
    obtain ⟨rfl, rfl, rfl⟩ := hd
    have hz : (PGROUNDUP oldsz - PGROUNDUP newsz) / PGSIZE = 0 := by
      simp only [PGSIZE]
      omega
    rw [hz]
    simp [uvmunmap, PGSIZE, hal, Cow.uvmunmapLoop]

theorem Sys.exec_shrink (h : SysInv kend s) {newsz : Nat} {ev : Effect n}
    (he : s.exec kend (.shrink p newsz) = .ok (t, ev)) :
    SysInv kend t ∧ t.view = s.view.apply ev := by
  simp only [Sys.exec] at he
  split at he
  · exact Sys.idle_refines h he
  rename_i pr hl
  have hp := Sys.live_some hl
  split at he
  · cases he
  rename_i km₁ pt₁ sz hd
  simp only [Except.ok.injEq, Prod.mk.injEq] at he
  obtain ⟨rfl, rfl⟩ := he
  refine Sys.unmap_refines h hp ⟨pt₁, sz, pr.killed⟩ (uvmunmap_of_uvmdealloc hd) ?_
  intro y h₁ h₂
  simp only [PGROUNDUP, PGSIZE] at *
  omega

theorem Sys.exec_unmap (h : SysInv kend s) {va npages : Nat} {ev : Effect n}
    (he : s.exec kend (.unmap p va npages) = .ok (t, ev)) :
    SysInv kend t ∧ t.view = s.view.apply ev := by
  simp only [Sys.exec] at he
  split at he
  · exact Sys.idle_refines h he
  rename_i pr hl
  split at he
  · cases he
  rename_i km₁ pt₁ hu
  simp only [Except.ok.injEq, Prod.mk.injEq] at he
  obtain ⟨rfl, rfl⟩ := he
  refine Sys.unmap_refines h (Sys.live_some hl) { pr with pagetable := pt₁ } hu ?_
  intro y h₁ h₂
  exact absurd h₁ (Nat.not_lt.mpr h₂)

/-- **`uvmfree`** of a process whose pages can be unmapped: nothing is mapped beyond
the size, so `freewalk` meets no leaf. -/
theorem SysInv.uvmfree {km₁ : Kmem} {pt₁ : PageTable} (h : SysInv kend s)
    (hp : s.proc p = some pr)
    (hu : uvmunmap kend s.km pr.pagetable 0 (PGROUNDUP pr.sz / PGSIZE) true =
      .ok (km₁, pt₁)) :
    ∃ km', Cow.uvmfree kend s.km pr.pagetable pr.sz = .ok km' ∧
      SysInv kend { s with km := km', proc := Function.update s.proc p none } ∧
      Sys.view { s with km := km', proc := Function.update s.proc p none } =
        s.view.apply (.exit p) := by
  obtain ⟨h₁, hview⟩ := Sys.unmap_refines h hp { pr with pagetable := pt₁ } hu
    (fun y h₁ h₂ => absurd h₁ (Nat.not_lt.mpr h₂))
  have htables := Sys.tables_put s km₁ p { pr with pagetable := pt₁ }
  have hp₁ : (s.put km₁ p { pr with pagetable := pt₁ }).tables p = some pt₁ := by
    rw [htables, Function.update_self]
  have hnone : ∀ y, read km₁.mem (some pt₁) y = none := by
    intro y
    have hy := congrFun (congrFun hview p) y
    rw [Sys.view, hp₁] at hy
    refine hy.trans ?_
    simp only [Ref.apply, Function.update_self]
    split
    · rfl
    · rename_i hin
      by_contra hne
      have := h.size p pr y hp hne
      simp only [PGROUNDUP, PGSIZE] at *
      omega
  have hbare := bare_of_read (h₁.inv.wf p pt₁ hp₁) hnone
  have hdrop := h₁.inv.drop hp₁ hbare
  rw [htables, Function.update_idem] at hdrop
  obtain ⟨km', hfree, hinv, hread⟩ := hdrop.freewalk
    ((h.rooted p pr hp).same (uvmunmap_sameTables hu).1) (hbare pt₁ rfl)
  refine ⟨km', by rw [uvmfree_eq, hu]; exact hfree, ?_⟩
  have htables' : Sys.tables { s with km := km', proc := Function.update s.proc p none } =
      Function.update s.tables p none := by
    funext q
    by_cases hq : q = p
    · subst hq
      simp [Sys.tables]
    · simp [Sys.tables, hq]
  refine SysInv.of_reads (by rw [htables']; exact hinv) (fun q y => ?_)
    (fun q qr y hq hy => ?_) (fun q qr hq => ?_)
  · rw [htables', hread q y]
    by_cases hqp : q = p
    · subst hqp
      rw [Function.update_self]
      simp [Ref.apply, read]
    · have hy := congrFun (congrFun hview q) y
      rw [Sys.view, htables] at hy
      rw [Function.update_of_ne hqp] at hy ⊢
      simpa [Ref.apply, hqp] using hy
  · by_cases hqp : q = p
    · subst hqp
      simp at hq
    · simp only [Function.update_of_ne hqp] at hq
      simp only [Ref.apply, Function.update_of_ne hqp] at hy
      exact h.size q qr y hq hy
  · by_cases hqp : q = p
    · subst hqp
      simp at hq
    · simp only [Function.update_of_ne hqp] at hq
      exact h.rooted q qr hq

theorem Sys.exec_exit (h : SysInv kend s) {ev : Effect n}
    (he : s.exec kend (.exit p) = .ok (t, ev)) :
    SysInv kend t ∧ t.view = s.view.apply ev := by
  simp only [Sys.exec] at he
  split at he
  · exact Sys.idle_refines h he
  rename_i pr hp
  split at he
  · cases he
  rename_i km₁ hfree
  simp only [Except.ok.injEq, Prod.mk.injEq] at he
  obtain ⟨rfl, rfl⟩ := he
  obtain ⟨⟨km₂, pt₂⟩, hu⟩ := uvmfree_unmaps hfree
  obtain ⟨km₃, hfree', hrest⟩ := h.uvmfree hp hu
  rw [hfree] at hfree'
  obtain rfl := Except.ok.inj hfree'
  exact hrest

/-! ## The simulation -/

/-- **One step of the simulation**: every operation keeps the invariant and
acts on what processes read as the reference machine does. -/
theorem Sys.exec_refines (h : SysInv kend s) {o : Op n} {ev : Effect n}
    (he : s.exec kend o = .ok (t, ev)) :
    SysInv kend t ∧ t.view = s.view.apply ev := by
  cases o with
  | kalloc => exact Sys.exec_kalloc h he
  | kfree pa => exact Sys.exec_kfree h he
  | create c => exact Sys.exec_create h he
  | copyout p dstva src => exact Sys.exec_copyout h he
  | grow p w x => exact Sys.exec_grow h he
  | shrink p newsz => exact Sys.exec_shrink h he
  | unmap p va npages => exact Sys.exec_unmap h he
  | exit p => exact Sys.exec_exit h he
  | fork p c =>
      simp only [Sys.exec] at he
      split at he
      · rename_i pr hl hc
        exact Sys.fork_refines h (Sys.live_some hl) hc he
      · exact Sys.idle_refines h he
  | load p va sp =>
      simp only [Sys.exec] at he
      split at he
      · exact Sys.idle_refines h he
      rename_i pr hl
      split at he
      · exact Sys.idle_refines h he
      split at he
      · cases he
      rename_i hf
      simp only [Except.ok.injEq, Prod.mk.injEq] at he
      obtain ⟨rfl, rfl⟩ := he
      obtain ⟨h₁, hview, -⟩ := Sys.fault_refines h (Sys.live_some hl) hf
      exact ⟨h₁, hview⟩
  | store p va sp b =>
      simp only [Sys.exec] at he
      split at he
      · exact Sys.idle_refines h he
      rename_i pr hl
      exact Sys.store_refines h (Sys.live_some hl) he
  | fault p va sp =>
      simp only [Sys.exec] at he
      split at he
      · exact Sys.idle_refines h he
      rename_i pr hl
      split at he
      · cases he
      rename_i hf
      simp only [Except.ok.injEq, Prod.mk.injEq] at he
      obtain ⟨rfl, rfl⟩ := he
      obtain ⟨h₁, hview, -⟩ := Sys.fault_refines h (Sys.live_some hl) hf
      exact ⟨h₁, hview⟩

/-! ## Whole runs -/

def Ref.init (n : Nat) : Ref n := fun _ _ => none

theorem SysInv.init {mem : Mem} {km : Kmem} (hk : kinit kend mem = .ok km) :
    SysInv kend (Sys.init n km) := by
  obtain ⟨km', hk', hled⟩ := Ledger.kinit kend mem
  rw [hk] at hk'
  obtain rfl := Except.ok.inj hk'
  have hkern : ∀ pa, kernRefs (Sys.init n km).tables [] pa = 0 := fun pa => by
    simp [kernRefs, Sys.init, Sys.tables, tableHits]
  have hrefs : refs (Sys.init n km).tables [] = fun _ => 0 := by
    funext pa
    simp only [refs, hkern]
    simp [userRefs, Sys.init, Sys.tables, userHits]
  refine ⟨⟨⟨?_, ?_, ?_⟩, ?_⟩, ?_, ?_⟩
  · rintro p pt ⟨⟩
  · rintro p q pt qt k l ⟨⟩
  · intro pa hpos
    exact absurd (hkern pa) (Nat.pos_iff_ne_zero.mp hpos)
  · show Ledger kend km (refs (Sys.init n km).tables [])
    rw [hrefs]
    exact hled
  · rintro p pr y ⟨⟩
  · rintro p pr ⟨⟩

theorem Sys.run_refines {mem : Mem} {km : Kmem} {ls : List (Op n × Effect n)}
    (hk : kinit kend mem = .ok km)
    (hr : Run (Step kend) (Sys.init n km) ls s) :
    SysInv kend s ∧ s.view = ls.foldl (fun r l => Ref.apply r l.2) (Ref.init n) := by
  have hstep : ∀ (s : Sys n) (l : Op n × Effect n) (t : Sys n) (r : Ref n),
      SysInv kend s ∧ s.view = r → Step kend s l t →
      SysInv kend t ∧ t.view = Ref.apply r l.2 := by
    rintro s l t r ⟨h, rfl⟩ he
    exact Sys.exec_refines h he
  exact Run.simulation (R := fun s r => SysInv kend s ∧ s.view = r) hstep hr
    ⟨SysInv.init hk, rfl⟩

/-- **Copy-on-write refines eager copies.** After any run of the kernel, every
process reads at every address what its private memory holds in the reference
machine; a step that writes for one process changes what no other reads; and a
mapped frame is neither free nor in other hands. -/
theorem cow_refines_eager_copy {mem : Mem} {km : Kmem}
    {ls : List (Op n × Effect n)} (hk : kinit kend mem = .ok km)
    (hr : Run (Step kend) (Sys.init n km) ls s) :
    (∀ p va, s.view p va =
      ls.foldl (fun r l => Ref.apply r l.2) (Ref.init n) p va) ∧
    (∀ o p va bs t, Step kend s (o, .write p va bs) t →
      ∀ q, q ≠ p → ∀ y, t.view q y = s.view q y) ∧
    (∀ p pt k, s.tables p = some pt → (pt.ent 0 k).v = true →
      PTE2PA (pt.ent 0 k) ∉ s.km.freelist ∧
        kernRefs s.tables s.kern (PTE2PA (pt.ent 0 k)) = 0) := by
  obtain ⟨h, hview⟩ := Sys.run_refines hk hr
  refine ⟨fun p va => by rw [hview], ?_, ?_⟩
  · intro o p va bs t hstep q hqp y
    rw [(Sys.exec_refines h hstep).2]
    simp [Ref.apply, hqp]
  · intro p pt k hp hv
    refine ⟨h.inv.ledger.notMem_of_pos ?_, h.inv.kernRefs_mapped hp hv⟩
    have := userRefs_pos_of hp ((h.inv.wf p pt hp).bound k hv) hv
    unfold refs
    omega

/-- A child writes to the page it shares with its parent: each reads its own
byte. -/
theorem cow_refines_eager_copy_shared_page :
    ∃ (km : Kmem) (s : Sys 2),
      kinit (PHYSTOP - 32768) (fun _ => 0) = .ok km ∧
      Run (Step (PHYSTOP - 32768)) (Sys.init 2 km)
        [(.create 0, .silent), (.grow 0 true false, .grow 0 0),
          (.store 0 7 0 1, .write 0 7 [1]), (.fork 0 1, .fork 0 1),
          (.store 1 7 0 2, .write 1 7 [2])] s ∧
      s.view 0 7 = some 1 ∧ s.view 1 7 = some 2 := by
  obtain ⟨km, s, hk, hr⟩ : ∃ (km : Kmem) (s : Sys 2),
      kinit (PHYSTOP - 32768) (fun _ => 0) = .ok km ∧
      Run (Step (PHYSTOP - 32768)) (Sys.init 2 km)
        [(.create 0, .silent), (.grow 0 true false, .grow 0 0),
          (.store 0 7 0 1, .write 0 7 [1]), (.fork 0 1, .fork 0 1),
          (.store 1 7 0 2, .write 1 7 [2])] s :=
    ⟨_, _, rfl, .cons rfl (.cons rfl (.cons rfl (.cons rfl (.cons rfl (.nil _)))))⟩
  have h := (cow_refines_eager_copy hk hr).1
  exact ⟨km, s, hk, hr, by rw [h]; rfl, by rw [h]; rfl⟩

/-- **Reference counts are exact.** After any run from `kinit`, the count of a
page frame is the number of user entries that map it plus the number of kernel
references, it is free exactly when that is 0, and it is listed at most
once. -/
theorem refcounts_exact {mem : Mem} {km : Kmem} {ls : List (Op n × Effect n)}
    (hk : kinit kend mem = .ok km)
    (hr : Run (Step kend) (Sys.init n km) ls s) {pa : Nat}
    (hal : pa % PGSIZE = 0) (hlo : PGROUNDUP kend ≤ pa) (hhi : pa < PHYSTOP) :
    s.km.count (pa / 4096) = userRefs s.tables pa + kernRefs s.tables s.kern pa ∧
      (pa ∈ s.km.freelist ↔ s.km.count (pa / 4096) = 0) ∧
      s.km.freelist.count pa ≤ 1 := by
  obtain ⟨h, -⟩ := Sys.run_refines hk hr
  have hm : Managed kend pa := by
    refine ⟨hal, ?_, hhi⟩
    simp only [PGROUNDUP] at hlo
    omega
  have hcount := h.inv.ledger.count pa hm
  refine ⟨?_, ?_, List.nodup_iff_count_le_one.mp h.inv.ledger.nodup pa⟩
  · rw [hcount]
    simp [refs]
  · rw [h.inv.ledger.free pa hm, hcount]
    omega

/-- After a fork the parent's only page has count 2, both of them user
references. -/
theorem refcounts_exact_shared_page :
    ∃ (km : Kmem) (s : Sys 2),
      kinit (PHYSTOP - 32768) (fun _ => 0) = .ok km ∧
      Run (Step (PHYSTOP - 32768)) (Sys.init 2 km)
        [(.create 0, .silent), (.grow 0 true false, .grow 0 0),
          (.fork 0 1, .fork 0 1)] s ∧
      userRefs s.tables (PHYSTOP - 8192) +
        kernRefs s.tables s.kern (PHYSTOP - 8192) = 2 ∧
      PHYSTOP - 8192 ∉ s.km.freelist := by
  obtain ⟨km, s, hk, hr, hcount⟩ : ∃ (km : Kmem) (s : Sys 2),
      kinit (PHYSTOP - 32768) (fun _ => 0) = .ok km ∧
      Run (Step (PHYSTOP - 32768)) (Sys.init 2 km)
        [(.create 0, .silent), (.grow 0 true false, .grow 0 0),
          (.fork 0 1, .fork 0 1)] s ∧
      s.km.count ((PHYSTOP - 8192) / 4096) = 2 := by
    refine ⟨_, _, rfl, .cons rfl (.cons rfl (.cons rfl (.nil _))), ?_⟩
    decide +kernel
  have hal : (PHYSTOP - 8192) % PGSIZE = 0 := by decide
  obtain ⟨h₁, h₂, -⟩ := refcounts_exact hk hr hal (by decide) (by decide)
  refine ⟨km, s, hk, hr, by omega, fun hmem => ?_⟩
  have := h₂.mp hmem
  omega

end Xv6Labs.Cow
