import Xv6Labs.Cow.Total

/-!
# The balance of the free list

Exact reference counts give the balance of the kernel's memory. A fork takes the
child's table pages and nothing else, all user pages being shared; when it fails
they are all back. When the last process is gone, the free list and the pages the
rest of the kernel has taken are what `kinit` made, and exits lead there from every
state: `freewalk` loses no table.
-/

namespace Xv6Labs.Cow

open Xv6Labs.Lib

variable {n kend : Nat} {km km' : Kmem} {pts pts' : Tables n} {kern kern' taken : List Nat}
  {p c q : Fin n} {pt pt' : PageTable} {s t : Sys n} {pr : Proc} {ev : Effect n}

/-! ## Two ledgers -/

/-- **The balance rule**: the free pages of one state are those of another and the pages
that have come into use since. -/
theorem Ledger.balance {refs refs' : Nat → Nat} {taken : List Nat}
    (h : Ledger kend km refs) (h' : Ledger kend km' refs') (hnd : taken.Nodup)
    (hused : ∀ pa ∈ taken, 0 < refs' pa)
    (hrefs : ∀ pa, refs pa = 0 ↔ refs' pa = 0 ∨ pa ∈ taken) :
    km.freelist.Perm (taken ++ km'.freelist) := by
  have hdisj : taken.Disjoint km'.freelist := by
    intro pa hpa hfree
    exact h'.notMem_of_pos (hused pa hpa) hfree
  rw [List.perm_ext_iff_of_nodup h.nodup (hnd.append h'.nodup hdisj)]
  intro pa
  rw [List.mem_append]
  constructor
  · intro hpa
    have hm := h.inside pa hpa
    rcases (hrefs pa).mp ((h.free pa hm).mp hpa) with hz | ht
    · exact .inr ((h'.free pa hm).mpr hz)
    · exact .inl ht
  · rintro (ht | hpa)
    · have hm := h'.held pa (hused pa ht)
      exact (h.free pa hm).mpr ((hrefs pa).mpr (.inr ht))
    · have hm := h'.inside pa hpa
      exact (h.free pa hm).mpr ((hrefs pa).mpr (.inl ((h'.free pa hm).mp hpa)))

theorem Inv.balance (h : Inv kend km pts kern) (h' : Inv kend km' pts' kern')
    (huser : ∀ pa, userRefs pts' pa = 0 ↔ userRefs pts pa = 0)
    (hkern : ∀ pa, kernRefs pts' kern' pa = kernRefs pts kern pa + taken.count pa) :
    km.freelist.Perm (taken ++ km'.freelist) := by
  have hone : ∀ pa ∈ taken, refs pts' kern' pa = 1 ∧ 0 < taken.count pa := by
    intro pa hpa
    have hpos := List.count_pos_iff.mpr hpa
    have := hkern pa
    exact ⟨h'.kernel pa (by omega), hpos⟩
  refine h.ledger.balance h'.ledger (List.nodup_iff_count_le_one.mpr (fun pa => ?_))
    (fun pa hpa => ?_) (fun pa => ?_)
  · by_cases hpa : pa ∈ taken
    · have h₁ := (hone pa hpa).1
      have h₂ := hkern pa
      unfold refs at h₁
      omega
    · rw [List.count_eq_zero.mpr hpa]
      omega
  · have := (hone pa hpa).1
    omega
  · have h₁ := hkern pa
    have h₂ := huser pa
    constructor
    · intro hz
      by_cases hpa : pa ∈ taken
      · exact .inr hpa
      · rw [List.count_eq_zero.mpr hpa] at h₁
        unfold refs at *
        exact .inl (by omega)
    · rintro (hz | hpa)
      · unfold refs at *
        omega
      · obtain ⟨h₃, h₄⟩ := hone pa hpa
        unfold refs at *
        omega

/-! ## Fork -/

theorem Sys.fork_cases (he : s.fork kend p c pr = .ok (t, ev)) :
    (uvmcreate s.km = (t.km, none) ∧ t = { s with km := t.km } ∧ ev = .silent) ∨
    ∃ km₁ new km₂ old' new' ret, uvmcreate s.km = (km₁, some new) ∧
      uvmcopy kend km₁ pr.pagetable new pr.sz = .ok (km₂, old', new', ret) ∧
      ((ret < 0 ∧ ev = .silent ∧
          t = { s.put km₂ p { pr with pagetable := old' } with km := t.km }) ∨
        (¬ ret < 0 ∧ ev = .fork p c ∧
          t = (s.put km₂ p { pr with pagetable := old' }).put km₂ c ⟨new', pr.sz, false⟩)) := by
  unfold Sys.fork at he
  split at he
  · rename_i km₁ hu
    simp only [Except.ok.injEq, Prod.mk.injEq] at he
    obtain ⟨rfl, rfl⟩ := he
    exact .inl ⟨hu, rfl, rfl⟩
  rename_i km₁ new hu
  split at he
  · cases he
  rename_i km₂ old' new' ret hcopy
  refine .inr ⟨km₁, new, km₂, old', new', ret, hu, hcopy, ?_⟩
  simp only at he
  split at he
  · rename_i hret
    split at he
    · cases he
    simp only [Except.ok.injEq, Prod.mk.injEq] at he
    obtain ⟨rfl, rfl⟩ := he
    exact .inl ⟨hret, rfl, rfl⟩
  · rename_i hret
    simp only [Except.ok.injEq, Prod.mk.injEq] at he
    exact .inr ⟨hret, he.2.symm, he.1.symm⟩

theorem SameRights.frame_eq {pte pte' : Pte} (h : SameRights pte pte') :
    pte'.frame = pte.frame := by
  unfold Pte.frame
  rw [h.v, h.frame]

theorem userRefs_zero_iff_of_frames (hwf : ∀ p pt, pts p = some pt → WF pt)
    (hwf' : ∀ p pt, pts' p = some pt → WF pt)
    (h : ∀ pa, (∃ q qt k, pts' q = some qt ∧ (qt.ent 0 k).frame = some pa) ↔
      ∃ q qt k, pts q = some qt ∧ (qt.ent 0 k).frame = some pa) (pa : Nat) :
    userRefs pts' pa = 0 ↔ userRefs pts pa = 0 := by
  rw [userRefs_eq_zero_iff hwf, userRefs_eq_zero_iff hwf']
  constructor
  · intro hno q qt k hq hfr
    obtain ⟨q', qt', k', hq', hfr'⟩ := (h pa).mpr ⟨q, qt, k, hq, hfr⟩
    exact hno q' qt' k' hq' hfr'
  · intro hno q qt k hq hfr
    obtain ⟨q', qt', k', hq', hfr'⟩ := (h pa).mp ⟨q, qt, k, hq, hfr⟩
    exact hno q' qt' k' hq' hfr'

theorem frames_update (hp : pts p = some pt)
    (h : ∀ k, (pt'.ent 0 k).frame = (pt.ent 0 k).frame) (pa : Nat) :
    (∃ q qt k, Function.update pts p (some pt') q = some qt ∧
        (qt.ent 0 k).frame = some pa) ↔
      ∃ q qt k, pts q = some qt ∧ (qt.ent 0 k).frame = some pa := by
  constructor
  · rintro ⟨q, qt, k, hq, hfr⟩
    by_cases hqp : q = p
    · subst hqp
      rw [Function.update_self] at hq
      obtain rfl := Option.some.inj hq
      exact ⟨q, pt, k, hp, by rw [← h k]; exact hfr⟩
    · rw [Function.update_of_ne hqp] at hq
      exact ⟨q, qt, k, hq, hfr⟩
  · rintro ⟨q, qt, k, hq, hfr⟩
    by_cases hqp : q = p
    · subst hqp
      rw [hp] at hq
      obtain rfl := Option.some.inj hq
      exact ⟨q, pt', k, Function.update_self .., by rw [h k]; exact hfr⟩
    · exact ⟨q, qt, k, by rw [Function.update_of_ne hqp]; exact hq, hfr⟩

theorem frames_copy (hc : pts c = none) (hp : pts p = some pt)
    (h : ∀ k, (pt'.ent 0 k).frame = (pt.ent 0 k).frame) (pa : Nat) :
    (∃ q qt k, Function.update pts c (some pt') q = some qt ∧
        (qt.ent 0 k).frame = some pa) ↔
      ∃ q qt k, pts q = some qt ∧ (qt.ent 0 k).frame = some pa := by
  constructor
  · rintro ⟨q, qt, k, hq, hfr⟩
    by_cases hqc : q = c
    · subst hqc
      rw [Function.update_self] at hq
      obtain rfl := Option.some.inj hq
      exact ⟨p, pt, k, hp, by rw [← h k]; exact hfr⟩
    · rw [Function.update_of_ne hqc] at hq
      exact ⟨q, qt, k, hq, hfr⟩
  · rintro ⟨q, qt, k, hq, hfr⟩
    have hqc : q ≠ c := by
      rintro rfl
      rw [hc] at hq
      cases hq
    exact ⟨q, qt, k, by rw [Function.update_of_ne hqc]; exact hq, hfr⟩

theorem Sys.fork_child_frames {prc : Proc} (h : SysInv kend s) (hp : s.proc p = some pr)
    (hc : s.proc c = none) (he : s.fork kend p c pr = .ok (t, .fork p c))
    (hprc : t.proc c = some prc) (k : Nat) :
    (prc.pagetable.ent 0 k).frame = (pr.pagetable.ent 0 k).frame := by
  obtain ⟨pr', prc', -, hprc', hfwd, hback⟩ := Sys.fork_marked h hp hc he
  rw [hprc] at hprc'
  obtain rfl := Option.some.inj hprc'
  by_cases hk : (pr.pagetable.ent 0 k).v = true
  · exact (hfwd k hk).2.toSameRights.frame_eq
  · have hk' : ¬ (prc.pagetable.ent 0 k).v = true := fun hv =>
      hk (by rw [← (hback k hv).v]; exact hv)
    unfold Pte.frame
    rw [if_neg hk, if_neg hk']

/-- **A fork takes the child's table pages and no other.** However much memory the parent
has, the pages that leave the free list hold the page table of the child, which maps the
frames of the parent; when the fork fails none has left it. -/
theorem fork_takes_tables_only {mem : Mem} {ls : List (Op n × Effect n)}
    (hk : kinit kend mem = .ok km) (hr : Run (Step kend) (Sys.init n km) ls s)
    (hp : s.live p = some pr) (hc : s.proc c = none)
    (he : s.exec kend (.fork p c) = .ok (t, ev)) :
    t.kern = s.kern ∧
      ((ev = .silent ∧ t.proc c = none ∧ s.km.freelist.Perm t.km.freelist) ∨
        (ev = .fork p c ∧ ∃ prc, t.proc c = some prc ∧
          s.km.freelist.Perm (prc.pagetable.tables ++ t.km.freelist) ∧
          ∀ k, (prc.pagetable.ent 0 k).frame = (pr.pagetable.ent 0 k).frame)) := by
  obtain ⟨h, -⟩ := Sys.run_refines hk hr
  have hp' := Sys.live_some hp
  have hpc : p ≠ c := by
    rintro rfl
    rw [hp'] at hc
    cases hc
  have he' : s.fork kend p c pr = .ok (t, ev) := by
    simpa only [Sys.exec, hp, hc] using he
  have h' := (Sys.fork_refines h hp' hc he').1
  rcases Sys.fork_cases he' with ⟨hu, ht, rfl⟩ |
    ⟨km₁, new, km₂, old', new', ret, hu, hcopy, ⟨-, rfl, ht⟩ | ⟨-, rfl, ht⟩⟩
  · rw [uvmcreate_none hu] at ht
    rw [ht]
    exact ⟨rfl, .inl ⟨rfl, hc, .refl _⟩⟩
  all_goals
    have hkern : t.kern = s.kern := by
      rw [ht]
      rfl
    refine ⟨hkern, ?_⟩
    have hold : old'.tables = pr.pagetable.tables := (uvmcopyLoop_tables _ _ hcopy).1.tables
    have hframes : ∀ k, (old'.ent 0 k).frame = (pr.pagetable.ent 0 k).frame := fun k =>
      (uvmcopyLoop_parent _ _ hcopy k).1.sameRights.frame_eq
    have hparent : (s.put km₂ p { pr with pagetable := old' }).tables =
        Function.update s.tables p (some old') := Sys.tables_put ..
    have hpT := Sys.tables_some hp'
    have h₁ := kernRefs_update s.tables s.kern p (some old')
    rw [hpT] at h₁
    simp only [tableHits, hold] at h₁
  · have htables : t.tables = Function.update s.tables p (some old') := by
      rw [ht]
      exact hparent
    have hback : s.km.freelist.Perm ([] ++ t.km.freelist) := by
      refine h.inv.balance h'.inv (fun pa => ?_) (fun pa => ?_)
      · rw [htables]
        exact userRefs_zero_iff_of_frames h.inv.wf (htables ▸ h'.inv.wf)
          (frames_update hpT hframes) pa
      · have := h₁ pa
        rw [htables, hkern, List.count_nil]
        omega
    refine .inl ⟨rfl, ?_, hback⟩
    rw [ht]
    simp [Sys.put, hpc.symm, hc]
  · have htables : t.tables = Function.update (Function.update s.tables p (some old')) c
        (some new') := by
      rw [ht, Sys.tables_put, hparent]
    have hprc : t.proc c = some ⟨new', pr.sz, false⟩ := by
      rw [ht]
      simp [Sys.put]
    have hchild := Sys.fork_child_frames h hp' hc he' hprc
    refine .inr ⟨rfl, _, hprc, ?_, hchild⟩
    have hcT : Function.update s.tables p (some old') c = none := by
      rw [Function.update_of_ne hpc.symm]
      simp [Sys.tables, hc]
    refine h.inv.balance h'.inv (fun pa => ?_) (fun pa => ?_)
    · refine userRefs_zero_iff_of_frames h.inv.wf h'.inv.wf (fun pa => ?_) pa
      rw [htables, frames_copy hcT (Function.update_self ..)
        (fun k => (hchild k).trans (hframes k).symm)]
      exact frames_update hpT hframes pa
    · have h₂ := kernRefs_update (Function.update s.tables p (some old')) s.kern c
        (some new') pa
      have := h₁ pa
      rw [hcT] at h₂
      simp only [tableHits] at h₂
      rw [htables, hkern]
      show _ = _ + new'.tables.count pa
      omega

/-- A parent with one page forks: the child's three tables are taken, its page is shared. -/
theorem fork_takes_tables_only_one_page :
    ∃ (km : Kmem) (s t : Sys 2) (prc : Proc),
      kinit (PHYSTOP - 32768) (fun _ => 0) = .ok km ∧
      Run (Step (PHYSTOP - 32768)) (Sys.init 2 km)
        [(.create 0, .silent), (.grow 0 true false, .grow 0 0)] s ∧
      s.exec (PHYSTOP - 32768) (.fork 0 1) = .ok (t, .fork 0 1) ∧ t.proc 1 = some prc ∧
      prc.pagetable.tables.length = 3 ∧
      s.km.freelist.Perm (prc.pagetable.tables ++ t.km.freelist) := by
  obtain ⟨km, s, t, pr, prc, hk, hr, hp, hc, he, hprc, hlen⟩ :
      ∃ (km : Kmem) (s t : Sys 2) (pr prc : Proc),
      kinit (PHYSTOP - 32768) (fun _ => 0) = .ok km ∧
      Run (Step (PHYSTOP - 32768)) (Sys.init 2 km)
        [(.create 0, .silent), (.grow 0 true false, .grow 0 0)] s ∧
      s.live 0 = some pr ∧ s.proc 1 = none ∧
      s.exec (PHYSTOP - 32768) (.fork 0 1) = .ok (t, .fork 0 1) ∧ t.proc 1 = some prc ∧
      prc.pagetable.tables.length = 3 :=
    ⟨_, _, _, _, _, rfl, .cons rfl (.cons rfl (.nil _)), rfl, rfl, rfl, rfl, rfl⟩
  obtain ⟨-, ⟨hev, -⟩ | ⟨-, prc', hprc', hperm, -⟩⟩ := fork_takes_tables_only hk hr hp hc he
  · cases hev
  rw [hprc] at hprc'
  obtain rfl := Option.some.inj hprc'
  exact ⟨km, s, t, prc, hk, hr, he, hprc, hlen, hperm⟩

/-! ## Winding down -/

/-- **Nothing is lost**: without a process, every page that was free at boot is free or in
the hands of the rest of the kernel. -/
theorem SysInv.all_free (h : SysInv kend s) (h₀ : SysInv kend (Sys.init n km))
    (hnone : ∀ q, s.proc q = none) : km.freelist.Perm (s.kern ++ s.km.freelist) := by
  have htables : s.tables = (Sys.init n km).tables := by
    funext q
    simp [Sys.tables, hnone, Sys.init]
  refine h₀.inv.balance h.inv (fun pa => ?_) (fun pa => ?_)
  · rw [htables]
  · rw [htables]
    simp [kernRefs, Sys.init]

theorem Sound.exit (h : Sound kend s) (p : Fin n) :
    ∃ t ev, Step kend s (.exit p, ev) t ∧ Sound kend t ∧
      t.proc = Function.update s.proc p none ∧ t.kern = s.kern := by
  obtain ⟨t, ev, he, -⟩ := Sys.exec_total h (o := .exit p) trivial
  refine ⟨t, ev, he, h.step (l := (.exit p, ev)) trivial he, ?_⟩
  simp only [Sys.exec] at he
  split at he
  · rename_i hp
    simp only [Except.ok.injEq, Prod.mk.injEq] at he
    obtain ⟨rfl, -⟩ := he
    rw [← hp, Function.update_eq_self]
    exact ⟨rfl, rfl⟩
  · split at he
    · cases he
    · simp only [Except.ok.injEq, Prod.mk.injEq] at he
      obtain ⟨rfl, -⟩ := he
      exact ⟨rfl, rfl⟩

theorem Sound.exits : ∀ (ps : List (Fin n)) {s : Sys n}, Sound kend s →
    ∃ ls t, Run (Step kend) s ls t ∧ (∀ l ∈ ls, ∃ q, l.1 = .exit q) ∧ Sound kend t ∧
      t.kern = s.kern ∧ ∀ q, t.proc q = if q ∈ ps then none else s.proc q := by
  intro ps
  induction ps with
  | nil =>
      intro s h
      exact ⟨[], s, .nil s, fun l hl => (nomatch hl), h, rfl, fun q => by simp⟩
  | cons p ps ih =>
      intro s h
      obtain ⟨s₁, ev, hstep, h₁, hproc, hkern⟩ := h.exit p
      obtain ⟨ls, t, hrun, hls, ht, hkern', hnone⟩ := ih h₁
      refine ⟨(.exit p, ev) :: ls, t, .cons hstep hrun, fun l hl => ?_, ht,
        hkern'.trans hkern, fun q => ?_⟩
      · rcases List.mem_cons.mp hl with rfl | hl
        · exact ⟨p, rfl⟩
        · exact hls l hl
      · rw [hnone, hproc]
        by_cases hq : q = p
        · subst hq
          simp
        · simp [hq]

/-- **Every page comes back.** Whenever no process is left, the free list and the pages
that the rest of the kernel has taken from `kalloc` and not freed are what `kinit` made;
and from every state the processes can reach, exits lead there. -/
theorem every_page_comes_back {mem : Mem} {ls : List (Op n × Effect n)}
    (hk : kinit kend mem = .ok km) (hr : Run (Step kend) (Sys.init n km) ls s)
    (hls : ∀ l ∈ ls, l.1.OfProcess) :
    ((∀ q, s.proc q = none) → km.freelist.Perm (s.kern ++ s.km.freelist)) ∧
    ∃ ls' t, Run (Step kend) s ls' t ∧ (∀ l ∈ ls', ∃ q, l.1 = .exit q) ∧
      (∀ q, t.proc q = none) ∧ t.kern = s.kern ∧
      km.freelist.Perm (s.kern ++ t.km.freelist) := by
  have h := (Sound.init hk).run hr hls
  refine ⟨h.sys.all_free (SysInv.init hk), ?_⟩
  obtain ⟨ls', t, hrun, hls', ht, hkern, hproc⟩ := h.exits (List.finRange n)
  have hgone : ∀ q, t.proc q = none := by
    intro q
    rw [hproc, if_pos (List.mem_finRange q)]
  have hall := ht.sys.all_free (SysInv.init hk) hgone
  rw [hkern] at hall
  exact ⟨ls', t, hrun, hls', hgone, hkern, hall⟩

/-- A page is taken by the kernel, then parent and child of a fork are gone in the end. -/
theorem every_page_comes_back_after_fork :
    ∃ (km : Kmem) (s t : Sys 2) (r : Nat) (ls : List (Op 2 × Effect 2)),
      kinit (PHYSTOP - 32768) (fun _ => 0) = .ok km ∧
      Run (Step (PHYSTOP - 32768)) (Sys.init 2 km)
        [(.kalloc, .silent), (.create 0, .silent), (.grow 0 true false, .grow 0 0),
          (.fork 0 1, .fork 0 1)] s ∧
      Run (Step (PHYSTOP - 32768)) s ls t ∧ km.freelist.Perm (r :: t.km.freelist) := by
  obtain ⟨km, s, r, hk, hr, hkern⟩ : ∃ (km : Kmem) (s : Sys 2) (r : Nat),
      kinit (PHYSTOP - 32768) (fun _ => 0) = .ok km ∧
      Run (Step (PHYSTOP - 32768)) (Sys.init 2 km)
        [(.kalloc, .silent), (.create 0, .silent), (.grow 0 true false, .grow 0 0),
          (.fork 0 1, .fork 0 1)] s ∧ s.kern = [r] :=
    ⟨_, _, _, rfl, .cons rfl (.cons rfl (.cons rfl (.cons rfl (.nil _)))), rfl⟩
  obtain ⟨-, ls, t, hrun, -, -, -, hperm⟩ := every_page_comes_back hk hr (by
    intro l hl
    simp only [List.mem_cons, List.not_mem_nil, or_false] at hl
    rcases hl with rfl | rfl | rfl | rfl <;> trivial)
  rw [hkern] at hperm
  exact ⟨km, s, t, r, ls, hk, hr, hrun, hperm⟩

end Xv6Labs.Cow
