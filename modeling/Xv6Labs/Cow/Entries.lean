import Xv6Labs.Cow.Exact

/-!
# What one operation does to the entries of a process

`Evolves` says it for one process: entries come to map the same frame only if
they did before, and an entry the owner may write stays one he may write or get
a writable copy of, on every page that is not unmapped (`Legit`). Each operation
is a chain of such changes. `Sys.exec_entries` collects them: a process evolves,
or starts bare, or starts with its parent's entries, marked.
-/

namespace Xv6Labs.Cow

open Xv6Labs.Lib

variable {n kend : Nat} {km km' : Kmem} {pts : Tables n} {kern : List Nat}
  {p c : Fin n} {pt pt' pt'' : PageTable} {K : Nat → Prop}

/-- A user page its owner may write: `PTE_W`, or `PTE_COW` in its place. -/
structure Legit (pte : Pte) : Prop where
  v : pte.v = true
  u : pte.u = true
  w : pte.w = !pte.cow

theorem Marked.legit {pte pte' : Pte} (h : Marked pte pte') (hv : pte.v = true)
    (hu : pte.u = true) : Legit pte' :=
  ⟨h.v.trans hv, h.u.trans hu, by rw [h.cow, h.w]; rfl⟩

def Distinct (pt : PageTable) : Prop :=
  ∀ k l, (pt.ent 0 k).v = true → (pt.ent 0 l).v = true →
    PTE2PA (pt.ent 0 k) = PTE2PA (pt.ent 0 l) → k = l

/-- How the entries of a process change while the pages in `K` stay mapped. -/
structure Evolves (K : Nat → Prop) (pt pt' : PageTable) : Prop where
  distinct : Distinct pt → Distinct pt'
  legit : ∀ k, K k → Legit (pt.ent 0 k) → Legit (pt'.ent 0 k)

theorem Evolves.refl (K : Nat → Prop) (pt : PageTable) : Evolves K pt pt :=
  ⟨fun h => h, fun _ _ h => h⟩

theorem Evolves.trans (h : Evolves K pt pt') (h' : Evolves K pt' pt'') :
    Evolves K pt pt'' :=
  ⟨fun hd => h'.distinct (h.distinct hd), fun k hK hl => h'.legit k hK (h.legit k hK hl)⟩

theorem SameUser.evolves (h : SameUser pt pt') : Evolves K pt pt' := by
  refine ⟨fun hd k l hk hl heq => ?_, fun k _ hlegit => ?_⟩
  · have hk' := h.only k hk
    have hl' := h.only l hl
    rw [h.keep k hk', h.keep l hl'] at heq
    exact hd k l hk' hl' heq
  · rw [h.keep k hlegit.v]
    exact hlegit

theorem Evolves.set {k : Nat} {e : Pte}
    (hfresh : e.v = true → ∀ l, l ≠ k → (pt.ent 0 l).v = true →
      PTE2PA (pt.ent 0 l) ≠ PTE2PA e)
    (hlegit : K k → Legit (pt.ent 0 k) → Legit e) : Evolves K pt (pt.set 0 k e) := by
  have hother : ∀ l, l ≠ k → (pt.set 0 k e).ent 0 l = pt.ent 0 l :=
    fun l hl => pt.set_ent_of_ne e (fun hh => hl hh.2)
  have hself : (pt.set 0 k e).ent 0 k = e := PageTable.set_ent_self ..
  refine ⟨fun hd i j hi hj heq => ?_, fun i hK hl => ?_⟩
  · by_cases hik : i = k
    · subst hik
      by_cases hjk : j = i
      · exact hjk.symm
      · rw [hself] at hi heq
        rw [hother j hjk] at hj heq
        exact absurd heq.symm (hfresh hi j hjk hj)
    · rw [hother i hik] at hi heq
      by_cases hjk : j = k
      · subst hjk
        rw [hself] at hj heq
        exact absurd heq (hfresh hj i hik hi)
      · rw [hother j hjk] at hj heq
        exact hd i j hi hj heq
  · by_cases hik : i = k
    · subst hik
      rw [hself]
      exact hlegit hK hl
    · rw [hother i hik]
      exact hl

/-! ## The operations on one process -/

theorem Inv.cowhandle_evolves {va : Nat} {ret : Int} (h : Inv kend km pts kern)
    (hp : pts p = some pt) (hc : Cow.cowhandle kend km pt va = .ok (km', pt', ret)) :
    Evolves K pt pt' := by
  obtain ⟨-, ⟨-, -, rfl, -⟩ | ⟨-, -, hv, -, -, r, km₁, hk, rfl, -⟩⟩ := cowhandle_cases hc
  · exact .refl K _
  obtain ⟨hr0, hmr, -⟩ := h.ledger.kalloc hk
  refine .set (fun _ l _ hl => ?_) (fun _ hlegit => ⟨hlegit.v, hlegit.u, rfl⟩)
  rw [PTE2PA_PA2PTE hmr.aligned]
  exact h.ne_of_free hp hl (userRefs_of_refs hr0)

theorem Inv.pagefault_evolves {va sp : Nat} {b : Bool} (h : Inv kend km pts kern)
    (hp : pts p = some pt) (hf : Cow.pagefault kend km pt va sp = .ok (km', pt', b)) :
    Evolves K pt pt' := by
  unfold Cow.pagefault at hf
  simp only at hf
  split at hf
  · simp only [Except.ok.injEq, Prod.mk.injEq] at hf
    rw [← hf.2.1]
    exact .refl K _
  split at hf
  · cases hf
  · rename_i hc
    simp only [Except.ok.injEq, Prod.mk.injEq] at hf
    rw [← hf.2.1]
    exact h.cowhandle_evolves hp hc

/-- **One round of `copyout`, inverted**: it is turned away and nothing changes,
or the page is private already, or `cowhandle` has made it so. -/
theorem copyoutPage_cases {va0 : Nat} {o : Option Nat}
    (hc : copyoutPage kend km pt va0 = .ok (km', pt', o)) :
    (o = none ∧ km' = km ∧ pt' = pt ∧
        (MAXVA ≤ va0 ∨ lookup pt va0 = none ∨ (pt.ent 0 (vpn 0 va0)).u = false ∨
          (pt.ent 0 (vpn 0 va0)).v = false ∨
          ((pt.ent 0 (vpn 0 va0)).cow = true ∧ (va0 = 0 ∨ km.freelist = [])))) ∨
      (va0 < MAXVA ∧ o ≠ none ∧ (pt.ent 0 (vpn 0 va0)).u = true ∧
        (pt.ent 0 (vpn 0 va0)).v = true ∧
        (((pt.ent 0 (vpn 0 va0)).cow = false ∧ km' = km ∧ pt' = pt) ∨
          ((pt.ent 0 (vpn 0 va0)).cow = true ∧ va0 ≠ 0 ∧
            cowhandle kend km pt va0 = .ok (km', pt', 0)))) := by
  unfold copyoutPage at hc
  split at hc
  · rename_i hva
    simp only [Except.ok.injEq, Prod.mk.injEq] at hc
    obtain ⟨rfl, rfl, rfl⟩ := hc
    exact .inl ⟨rfl, rfl, rfl, .inl hva⟩
  split at hc
  · cases hc
  · rename_i hw
    obtain ⟨-, -, -, hl⟩ := walk_false_ok hw
    simp only [Except.ok.injEq, Prod.mk.injEq] at hc
    obtain ⟨rfl, rfl, rfl⟩ := hc
    exact .inl ⟨rfl, rfl, rfl, .inr (.inl hl.symm)⟩
  rename_i k hw
  obtain ⟨hva, -, -, hl⟩ := walk_false_ok hw
  obtain rfl : k = vpn 0 va0 := (lookup_eq_some.mp hl.symm).2.2
  split at hc
  · rename_i hflags
    simp only [Except.ok.injEq, Prod.mk.injEq] at hc
    obtain ⟨rfl, rfl, rfl⟩ := hc
    rcases hflags with hu | hv
    · exact .inl ⟨rfl, rfl, rfl, .inr (.inr (.inl hu))⟩
    · exact .inl ⟨rfl, rfl, rfl, .inr (.inr (.inr (.inl hv)))⟩
  rename_i hflags
  have hu : (pt.ent 0 (vpn 0 va0)).u = true := by simpa using fun hh => hflags (.inl hh)
  have hv : (pt.ent 0 (vpn 0 va0)).v = true := by simpa using fun hh => hflags (.inr hh)
  split at hc
  · rename_i hcow
    split at hc
    · rename_i hz
      simp only [Except.ok.injEq, Prod.mk.injEq] at hc
      obtain ⟨rfl, rfl, rfl⟩ := hc
      exact .inl ⟨rfl, rfl, rfl, .inr (.inr (.inr (.inr ⟨hcow, .inl hz⟩)))⟩
    rename_i hz
    split at hc
    · cases hc
    rename_i km₁ pt₁ ret hch
    split at hc
    · rename_i hret
      simp only [Except.ok.injEq, Prod.mk.injEq] at hc
      obtain ⟨rfl, rfl, rfl⟩ := hc
      obtain ⟨-, ⟨-, rfl, rfl, hwhy⟩ | ⟨rfl, -⟩⟩ := cowhandle_cases hch
      · refine .inl ⟨rfl, rfl, rfl, .inr (.inr (.inr (.inr ⟨hcow, .inr ?_⟩)))⟩
        rw [← hl] at hwhy
        rcases hwhy with hwhy | ⟨-, hwhy | hwhy | hwhy | hwhy⟩
        · cases hwhy
        · rw [hv] at hwhy
          cases hwhy
        · rw [hcow] at hwhy
          cases hwhy
        · exact absurd hwhy hz
        · exact hwhy
      · exact absurd rfl hret
    rename_i hret
    obtain rfl : ret = 0 := by simpa using hret
    split at hc
    · cases hc
    · cases hc
    · simp only [Except.ok.injEq, Prod.mk.injEq] at hc
      obtain ⟨rfl, rfl, rfl⟩ := hc
      exact .inr ⟨hva, by simp, hu, hv, .inr ⟨hcow, hz, hch⟩⟩
  · rename_i hcow
    simp only [Except.ok.injEq, Prod.mk.injEq] at hc
    obtain ⟨rfl, rfl, rfl⟩ := hc
    exact .inr ⟨hva, by simp, hu, hv, .inl ⟨by simpa using hcow, rfl, rfl⟩⟩

theorem Inv.copyout_evolves (N : Nat) : ∀ {km km' : Kmem} {pts : Tables n}
    {pt pt' : PageTable} {dstva : Nat} {src left : List UInt8} {ret : Int},
    src.length ≤ N → Inv kend km pts kern → pts p = some pt →
    Cow.copyout kend km pt dstva src = .ok (km', pt', ret, left) → Evolves K pt pt' := by
  induction N with
  | zero =>
      intro km km' pts pt pt' dstva src left ret hN _ _ hc
      rw [Cow.copyout, if_pos (Nat.le_zero.mp hN)] at hc
      simp only [Except.ok.injEq, Prod.mk.injEq] at hc
      rw [← hc.2.1]
      exact .refl K _
  | succ N ih =>
      intro km km' pts pt pt' dstva src left ret hN h hp hc
      rw [Cow.copyout] at hc
      split at hc
      · simp only [Except.ok.injEq, Prod.mk.injEq] at hc
        rw [← hc.2.1]
        exact .refl K _
      simp only at hc
      split at hc
      · cases hc
      · rename_i hpage
        simp only [Except.ok.injEq, Prod.mk.injEq] at hc
        rw [← hc.2.1]
        obtain ⟨-, -, rfl, -⟩ | ⟨-, hno, -⟩ := copyoutPage_cases hpage
        · exact .refl K _
        · exact absurd rfl hno
      · rename_i km₁ pt₁ pa0 hpage
        obtain ⟨hq, -⟩ := h.copyoutPage hp hpage
        have hround : Evolves K pt pt₁ := by
          obtain ⟨hno, -⟩ | ⟨-, -, -, -, ⟨-, -, rfl⟩ | ⟨-, -, hch⟩⟩ :=
            copyoutPage_cases hpage
          · cases hno
          · exact .refl K _
          · exact h.cowhandle_evolves hp hch
        refine hround.trans (ih ?_ (hq.inv.mem _) (Function.update_self ..) hc)
        simp only [List.length_drop, PGSIZE, PGROUNDDOWN]
        omega

theorem uvmunmapLoop_evolves {doFree : Bool} : ∀ (m a : Nat) {km : Kmem}
    {pt : PageTable}, (∀ k, K k → ¬ (a / 4096 ≤ k ∧ k < a / 4096 + m)) →
    uvmunmapLoop kend km pt a doFree m = .ok (km', pt') → Evolves K pt pt' := by
  intro m
  induction m with
  | zero =>
      intro a km pt _ hu
      simp only [uvmunmapLoop, Except.ok.injEq, Prod.mk.injEq] at hu
      rw [← hu.2]
      exact .refl K _
  | succ m ih =>
      intro a km pt hK hu
      simp only [uvmunmapLoop] at hu
      split at hu
      · cases hu
      · cases hu
      rename_i k hw
      obtain ⟨-, -, -, hl⟩ := walk_false_ok hw
      obtain rfl : k = vpn 0 a := (lookup_eq_some.mp hl.symm).2.2
      have hzero : Evolves K pt (pt.set 0 (vpn 0 a) .zero) := by
        refine .set (fun hv => by cases hv) (fun hka _ => ?_)
        rw [vpn_zero] at hka
        exact absurd ⟨Nat.le_refl _, by omega⟩ (hK _ hka)
      have hnext : ∀ k, K k →
          ¬ ((a + PGSIZE) / 4096 ≤ k ∧ k < (a + PGSIZE) / 4096 + m) := by
        intro k hk hin
        simp only [PGSIZE] at hin
        exact hK k hk (by omega)
      split at hu
      · cases hu
      split at hu
      · cases hu
      split at hu
      · split at hu
        · cases hu
        exact hzero.trans (ih _ hnext hu)
      · exact hzero.trans (ih _ hnext hu)

theorem Inv.uvmallocPage_evolves {a : Nat} {w x : Bool} {ret : Int}
    (h : Inv kend km pts kern) (hp : pts p = some pt) (ha : a % 4096 = 0)
    (hg : Cow.uvmallocPage kend km pt a w x = .ok (km', pt', ret)) :
    Evolves K pt pt' := by
  unfold Cow.uvmallocPage at hg
  split at hg
  · simp only [Except.ok.injEq, Prod.mk.injEq] at hg
    rw [← hg.2.1]
    exact .refl K _
  rename_i r km₁ hk
  simp only at hg
  obtain ⟨hi₁, hmr, hr0, -⟩ := h.kallocKern hk
  rw [mappages_page ha] at hg
  split at hg
  · cases hg
  rename_i km₂ pt₂ ret₂ hmap
  -- `mappages` adds table pages and at most the entry of the new page
  have hev : Evolves K pt pt₂ := by
    split at hmap
    · cases hmap
    · rename_i hw
      obtain ⟨-, -, -, hsame, -⟩ := (hi₁.mem _).walk hp hw
      simp only [Except.ok.injEq, Prod.mk.injEq] at hmap
      rw [← hmap.2.1]
      exact hsame.evolves
    · rename_i km₃ pt₃ k hw
      obtain ⟨-, -, -, hsame, -⟩ := (hi₁.mem _).walk hp hw
      split at hmap
      · cases hmap
      rename_i hfree
      simp only [Except.ok.injEq, Prod.mk.injEq] at hmap
      rw [← hmap.2.1]
      refine hsame.evolves.trans (.set (fun _ l _ hl => ?_) (fun _ hlegit => ?_))
      · rw [PTE2PA_PA2PTE hmr.aligned, hsame.keep l (hsame.only l hl)]
        exact h.ne_of_free hp (hsame.only l hl) hr0
      · exact absurd hlegit.v hfree
  split at hg
  · split at hg
    · cases hg
    simp only [Except.ok.injEq, Prod.mk.injEq] at hg
    rw [← hg.2.1]
    exact hev
  · simp only [Except.ok.injEq, Prod.mk.injEq] at hg
    rw [← hg.2.1]
    exact hev

theorem uvmcopyLoop_evolves {m i : Nat} {old new old' new' : PageTable} {ret : Int}
    (hu : uvmcopyLoop kend km old new i m = .ok (km', old', new', ret)) :
    Evolves K old old' := by
  have hkept := fun k => (uvmcopyLoop_parent m i hu k).1
  refine ⟨fun hd k l hk hl heq => ?_, fun k _ hlegit => ?_⟩
  · have hk' := (hkept k).sameRights
    have hl' := (hkept l).sameRights
    rw [hk'.v] at hk
    rw [hl'.v] at hl
    rw [hk'.frame, hl'.frame] at heq
    exact hd k l hk hl heq
  · rcases hkept k with heq | hm
    · rw [heq]
      exact hlegit
    · exact hm.legit hlegit.v hlegit.u

/-! ## The operations of the machine -/

def Effect.keeps (q : Fin n) (k : Nat) : Effect n → Prop
  | .unmap p va npages => ¬ (p = q ∧ va / 4096 ≤ k ∧ k < va / 4096 + npages)
  | .exit p => p ≠ q
  | _ => True

/-- What a step with effect `ev` does to the process in slot `q`. -/
structure Moves (s t : Sys n) (ev : Effect n) (q : Fin n) : Prop where
  slot : s.proc q ≠ none → t.proc q ≠ none ∨ ev = .exit q
  entries : ∀ qr', t.proc q = some qr' →
    (∃ qr, s.proc q = some qr ∧
      Evolves (fun k => ev.keeps q k) qr.pagetable qr'.pagetable) ∨
    (s.proc q = none ∧ (Bare (some qr'.pagetable) ∨
      ∃ p pr, ev = .fork p q ∧ s.proc p = some pr ∧
        ∀ k, (qr'.pagetable.ent 0 k).v = true →
          Marked (pr.pagetable.ent 0 k) (qr'.pagetable.ent 0 k)))

variable {s t : Sys n} {pr : Proc} {ev : Effect n}

theorem Moves.same {q : Fin n} (h : t.proc q = s.proc q) : Moves s t ev q :=
  ⟨fun hq => .inl (by rw [h]; exact hq), fun qr' hq => .inl ⟨qr', h ▸ hq, .refl _ _⟩⟩

theorem Moves.put (pr' : Proc) (hp : s.proc p = some pr)
    (hev : Evolves (fun k => ev.keeps p k) pr.pagetable pr'.pagetable) (q : Fin n) :
    Moves s (s.put km' p pr') ev q := by
  by_cases hqp : q = p
  · subst hqp
    refine ⟨fun _ => .inl (by simp [Sys.put]), fun qr' hq => .inl ⟨pr, hp, ?_⟩⟩
    simp only [Sys.put, Function.update_self, Option.some.injEq] at hq
    rw [← hq]
    exact hev
  · exact .same (by simp [Sys.put, hqp])

theorem Sys.fault_moves {pr' : Proc} {va sp : Nat} (h : SysInv kend s)
    (hp : s.proc p = some pr) (hf : s.fault kend p pr va sp = .ok (t, pr')) (q : Fin n) :
    Moves s t ev q := by
  unfold Sys.fault at hf
  split at hf
  · cases hf
  rename_i km₁ pt₁ killed hpf
  simp only [Except.ok.injEq, Prod.mk.injEq] at hf
  obtain ⟨rfl, rfl⟩ := hf
  exact .put _ hp (h.inv.pagefault_evolves (Sys.tables_some hp) hpf) q

theorem Sys.store_moves {va sp : Nat} {b : UInt8} (h : SysInv kend s)
    (hp : s.proc p = some pr) (he : s.store kend p pr va sp b = .ok (t, ev))
    (q : Fin n) : Moves s t ev q := by
  unfold Sys.store at he
  split at he
  · simp only [Except.ok.injEq, Prod.mk.injEq] at he
    obtain ⟨rfl, rfl⟩ := he
    exact .same rfl
  split at he
  · cases he
  rename_i s₁ pr₁ hf
  have hmoves : Moves s s₁ ev q := Sys.fault_moves h hp hf q
  split at he
  · simp only [Except.ok.injEq, Prod.mk.injEq] at he
    obtain ⟨rfl, rfl⟩ := he
    exact hmoves
  split at he
  · simp only [Except.ok.injEq, Prod.mk.injEq] at he
    obtain ⟨rfl, rfl⟩ := he
    exact ⟨hmoves.slot, hmoves.entries⟩
  · simp only [Except.ok.injEq, Prod.mk.injEq] at he
    obtain ⟨rfl, rfl⟩ := he
    exact hmoves

/-- What a fork that succeeds leaves: the parent's entries and the child's are the
parent's old ones, marked on every page. -/
theorem Sys.fork_marked (h : SysInv kend s) (hp : s.proc p = some pr)
    (hc : s.proc c = none) (he : s.fork kend p c pr = .ok (t, .fork p c)) :
    ∃ pr' prc, t.proc p = some pr' ∧ t.proc c = some prc ∧
      (∀ k, (pr.pagetable.ent 0 k).v = true →
        Marked (pr.pagetable.ent 0 k) (pr'.pagetable.ent 0 k) ∧
          Marked (pr.pagetable.ent 0 k) (prc.pagetable.ent 0 k)) ∧
      ∀ k, (prc.pagetable.ent 0 k).v = true →
        Marked (pr.pagetable.ent 0 k) (prc.pagetable.ent 0 k) := by
  have hpc : p ≠ c := by
    rintro rfl
    rw [hp] at hc
    cases hc
  have hview := (Sys.fork_refines h hp hc he).2
  have hinv := (Sys.fork_refines h hp hc he).1.inv
  unfold Sys.fork at he
  split at he
  · simp at he
  rename_i km₁ new hu
  have hcT : s.tables c = none := by simp [Sys.tables, hc]
  obtain ⟨hq, hbare⟩ := h.inv.uvmcreate hcT hu
  split at he
  · cases he
  rename_i km₂ old' new' ret hcopy
  simp only at he
  split at he
  · split at he
    · cases he
    · simp at he
  rename_i hret
  simp only [Except.ok.injEq, Prod.mk.injEq, and_true] at he
  subst he
  have hp₁ : Function.update s.tables c (some new) p = some pr.pagetable := by
    rw [Function.update_of_ne hpc, Sys.tables_some hp]
  have hdone := hq.inv.uvmcopyLoop hpc (fun _ => none) _ 0 hp₁ (Function.update_self ..)
    (by omega) (fun _ _ => rfl) (fun y => by rw [hbare.read, if_neg (by omega)]) hcopy
  obtain rfl : ret = 0 := by
    rcases hdone.child with ⟨rfl, -⟩ | ⟨rfl, -⟩
    · rfl
    · exact absurd (by decide) hret
  have hchild := hq.inv.uvmcopyLoop_child hpc _ 0 hp₁ (Function.update_self ..) (by omega)
    (fun y => by rw [hbare.read, if_neg (by omega)])
    (fun k hk => by rw [hbare new rfl k] at hk; cases hk) hcopy
  refine ⟨{ pr with pagetable := old' }, ⟨new', pr.sz, false⟩,
    by simp [Sys.put, hpc], by simp [Sys.put], fun k hk => ?_, hchild⟩
  -- a mapped page is below the size, so the loop has met it
  have hread : s.view p (k * 4096) ≠ none := by
    have hkv : vpn 0 (k * 4096) = k := by
      rw [vpn_zero]
      omega
    simp only [Sys.view]
    rw [Sys.tables_some hp, read_some (h.inv.wf p _ (Sys.tables_some hp)), hkv, if_pos hk]
    simp
  have hlt : k < PGROUNDUP pr.sz / PGSIZE := by
    have := h.size p pr _ hp hread
    simp only [PGROUNDUP, PGSIZE] at *
    omega
  refine ⟨(uvmcopyLoop_parent _ 0 hcopy k).2 rfl (by omega) (by omega), hchild k ?_⟩
  -- the child reads what the parent reads
  have hsame := congrFun (congrFun hview c) (k * 4096)
  simp only [Ref.apply, Function.update_self] at hsame
  have hkv : vpn 0 (k * 4096) = k := by
    rw [vpn_zero]
    omega
  have htc : ((s.put km₂ p { pr with pagetable := old' }).put km₂ c
      ⟨new', pr.sz, false⟩).tables c = some new' := by
    rw [Sys.tables_put, Function.update_self]
  simp only [Sys.view] at hsame hread
  rw [htc, read_some (hinv.wf c _ htc), hkv] at hsame
  by_contra hne
  rw [if_neg hne] at hsame
  exact hread hsame.symm

theorem Sys.fork_moves (h : SysInv kend s) (hp : s.proc p = some pr)
    (hc : s.proc c = none) (he : s.fork kend p c pr = .ok (t, ev)) (q : Fin n) :
    Moves s t ev q := by
  have hpc : p ≠ c := by
    rintro rfl
    rw [hp] at hc
    cases hc
  have hfork := he
  unfold Sys.fork at he
  split at he
  · simp only [Except.ok.injEq, Prod.mk.injEq] at he
    obtain ⟨rfl, rfl⟩ := he
    exact .same rfl
  split at he
  · cases he
  rename_i km₂ old' new' ret hcopy
  have hparent : Evolves (fun k => ev.keeps p k) pr.pagetable old' :=
    uvmcopyLoop_evolves hcopy
  have hput : Moves s (s.put km₂ p { pr with pagetable := old' }) ev q :=
    Moves.put { pr with pagetable := old' } hp hparent q
  simp only at he
  split at he
  · split at he
    · cases he
    simp only [Except.ok.injEq, Prod.mk.injEq] at he
    obtain ⟨rfl, rfl⟩ := he
    exact ⟨hput.slot, hput.entries⟩
  · simp only [Except.ok.injEq, Prod.mk.injEq] at he
    obtain ⟨rfl, rfl⟩ := he
    by_cases hqc : q = c
    · subst hqc
      obtain ⟨pr', prc, -, hprc, -, hmarked⟩ := Sys.fork_marked h hp hc hfork
      refine ⟨fun hno => absurd hc hno, fun qr' hq => .inr ⟨hc, .inr ⟨p, pr, rfl, hp, ?_⟩⟩⟩
      rw [hprc] at hq
      rw [← Option.some.inj hq]
      exact hmarked
    · refine ⟨fun hno => ?_, fun qr' hq => hput.entries qr' ?_⟩
      · have := hput.slot hno
        simpa [Sys.put, hqc] using this
      · simpa [Sys.put, hqc] using hq

theorem Moves.unmap {va m : Nat} (pr' : Proc) (hp : s.proc p = some pr)
    (hu : uvmunmap kend s.km pr.pagetable va m true = .ok (km', pr'.pagetable))
    (q : Fin n) : Moves s (s.put km' p pr') (.unmap p va m) q := by
  unfold uvmunmap at hu
  split at hu
  · cases hu
  · refine .put _ hp (uvmunmapLoop_evolves m va (fun k hk => ?_) hu) q
    exact fun hin => hk ⟨rfl, hin⟩

/-- **One operation, every process.** -/
theorem Sys.exec_moves (h : SysInv kend s) {o : Op n}
    (he : s.exec kend o = .ok (t, ev)) (q : Fin n) : Moves s t ev q := by
  cases o with
  | kalloc =>
      simp only [Sys.exec] at he
      split at he
      · simp only [Except.ok.injEq, Prod.mk.injEq] at he
        obtain ⟨rfl, rfl⟩ := he
        exact .same rfl
      · simp only [Except.ok.injEq, Prod.mk.injEq] at he
        obtain ⟨rfl, rfl⟩ := he
        exact .same rfl
  | kfree pa =>
      simp only [Sys.exec] at he
      split at he
      · split at he
        · cases he
        simp only [Except.ok.injEq, Prod.mk.injEq] at he
        obtain ⟨rfl, rfl⟩ := he
        exact .same rfl
      · simp only [Except.ok.injEq, Prod.mk.injEq] at he
        obtain ⟨rfl, rfl⟩ := he
        exact .same rfl
  | create c =>
      simp only [Sys.exec] at he
      split at he
      · simp only [Except.ok.injEq, Prod.mk.injEq] at he
        obtain ⟨rfl, rfl⟩ := he
        exact .same rfl
      · simp only [Except.ok.injEq, Prod.mk.injEq] at he
        obtain ⟨rfl, rfl⟩ := he
        exact .same rfl
      · rename_i km₁ pt hc hu
        simp only [Except.ok.injEq, Prod.mk.injEq] at he
        obtain ⟨rfl, rfl⟩ := he
        have hcT : s.tables c = none := by simp [Sys.tables, hc]
        obtain ⟨-, hbare⟩ := h.inv.uvmcreate hcT hu
        by_cases hqc : q = c
        · subst hqc
          refine ⟨fun hno => absurd hc hno, fun qr' hq => .inr ⟨hc, .inl ?_⟩⟩
          simp only [Sys.put, Function.update_self, Option.some.injEq] at hq
          rw [← hq]
          exact hbare
        · exact .same (by simp [Sys.put, hqc])
  | fork p c =>
      simp only [Sys.exec] at he
      split at he
      · rename_i pr hl hc
        exact Sys.fork_moves h (Sys.live_some hl) hc he q
      · simp only [Except.ok.injEq, Prod.mk.injEq] at he
        obtain ⟨rfl, rfl⟩ := he
        exact .same rfl
  | load p va sp =>
      simp only [Sys.exec] at he
      split at he
      · simp only [Except.ok.injEq, Prod.mk.injEq] at he
        obtain ⟨rfl, rfl⟩ := he
        exact .same rfl
      rename_i pr hl
      split at he
      · simp only [Except.ok.injEq, Prod.mk.injEq] at he
        obtain ⟨rfl, rfl⟩ := he
        exact .same rfl
      split at he
      · cases he
      rename_i hf
      simp only [Except.ok.injEq, Prod.mk.injEq] at he
      obtain ⟨rfl, rfl⟩ := he
      exact Sys.fault_moves h (Sys.live_some hl) hf q
  | store p va sp b =>
      simp only [Sys.exec] at he
      split at he
      · simp only [Except.ok.injEq, Prod.mk.injEq] at he
        obtain ⟨rfl, rfl⟩ := he
        exact .same rfl
      · rename_i pr hl
        exact Sys.store_moves h (Sys.live_some hl) he q
  | fault p va sp =>
      simp only [Sys.exec] at he
      split at he
      · simp only [Except.ok.injEq, Prod.mk.injEq] at he
        obtain ⟨rfl, rfl⟩ := he
        exact .same rfl
      rename_i pr hl
      split at he
      · cases he
      rename_i hf
      simp only [Except.ok.injEq, Prod.mk.injEq] at he
      obtain ⟨rfl, rfl⟩ := he
      exact Sys.fault_moves h (Sys.live_some hl) hf q
  | copyout p dstva src =>
      simp only [Sys.exec] at he
      split at he
      · simp only [Except.ok.injEq, Prod.mk.injEq] at he
        obtain ⟨rfl, rfl⟩ := he
        exact .same rfl
      rename_i pr hl
      have hp := Sys.live_some hl
      split at he
      · cases he
      rename_i hco
      simp only [Except.ok.injEq, Prod.mk.injEq] at he
      obtain ⟨rfl, rfl⟩ := he
      exact .put _ hp (h.inv.copyout_evolves src.length (Nat.le_refl _)
        (Sys.tables_some hp) hco) q
  | grow p w x =>
      simp only [Sys.exec] at he
      split at he
      · simp only [Except.ok.injEq, Prod.mk.injEq] at he
        obtain ⟨rfl, rfl⟩ := he
        exact .same rfl
      rename_i pr hl
      have hp := Sys.live_some hl
      split at he
      · cases he
      rename_i km₁ pt₁ ret hg
      have hev : ∀ K, Evolves K pr.pagetable pt₁ := fun K =>
        h.inv.uvmallocPage_evolves (Sys.tables_some hp)
          (by simp only [PGROUNDUP]; omega) hg
      split at he
      · simp only [Except.ok.injEq, Prod.mk.injEq] at he
        obtain ⟨rfl, rfl⟩ := he
        exact .put _ hp (hev _) q
      · simp only [Except.ok.injEq, Prod.mk.injEq] at he
        obtain ⟨rfl, rfl⟩ := he
        exact .put _ hp (hev _) q
  | shrink p newsz =>
      simp only [Sys.exec] at he
      split at he
      · simp only [Except.ok.injEq, Prod.mk.injEq] at he
        obtain ⟨rfl, rfl⟩ := he
        exact .same rfl
      rename_i pr hl
      split at he
      · cases he
      rename_i km₁ pt₁ sz hd
      simp only [Except.ok.injEq, Prod.mk.injEq] at he
      obtain ⟨rfl, rfl⟩ := he
      exact .unmap ⟨pt₁, sz, pr.killed⟩ (Sys.live_some hl) (uvmunmap_of_uvmdealloc hd) q
  | unmap p va npages =>
      simp only [Sys.exec] at he
      split at he
      · simp only [Except.ok.injEq, Prod.mk.injEq] at he
        obtain ⟨rfl, rfl⟩ := he
        exact .same rfl
      rename_i pr hl
      split at he
      · cases he
      rename_i km₁ pt₁ hu
      simp only [Except.ok.injEq, Prod.mk.injEq] at he
      obtain ⟨rfl, rfl⟩ := he
      exact .unmap { pr with pagetable := pt₁ } (Sys.live_some hl) hu q
  | exit p =>
      simp only [Sys.exec] at he
      split at he
      · simp only [Except.ok.injEq, Prod.mk.injEq] at he
        obtain ⟨rfl, rfl⟩ := he
        exact .same rfl
      split at he
      · cases he
      simp only [Except.ok.injEq, Prod.mk.injEq] at he
      obtain ⟨rfl, rfl⟩ := he
      by_cases hqp : q = p
      · subst hqp
        exact ⟨fun _ => .inr rfl, fun qr' hq => by simp at hq⟩
      · exact .same (by simp [hqp])

end Xv6Labs.Cow
