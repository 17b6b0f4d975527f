import Xv6Labs.Cow.Inv

/-!
# The operations keep the sharing invariant

One lemma for each function of the copy-on-write kernel: the invariant after
it, and what every process reads after it. `Quiet` is the common case, a
change no process can see.
-/

namespace Xv6Labs.Cow

open Xv6Labs.Lib

variable {n : Nat} {kend : Nat} {km km' : Kmem} {pts : Tables n}
  {kern : List Nat} {p : Fin n} {pt pt' : PageTable}

/-- The invariant holds after the step and every process reads what it read. -/
structure Quiet (kend : Nat) (kern : List Nat) (km : Kmem) (pts : Tables n)
    (km' : Kmem) (pts' : Tables n) : Prop where
  inv : Inv kend km' pts' kern
  reads : ∀ q y, read km'.mem (pts' q) y = read km.mem (pts q) y

theorem Quiet.refl (h : Inv kend km pts kern) : Quiet kend kern km pts km pts :=
  ⟨h, fun _ _ => rfl⟩

theorem Quiet.trans {km'' : Kmem} {pts' pts'' : Tables n}
    (h : Quiet kend kern km pts km' pts')
    (h' : Quiet kend kern km' pts' km'' pts'') :
    Quiet kend kern km pts km'' pts'' :=
  ⟨h'.inv, fun q y => (h'.reads q y).trans (h.reads q y)⟩

def KernKept (kern : List Nat) (mem mem' : Mem) : Prop :=
  ∀ x ∈ kern, ∀ z, x ≤ z ∧ z < x + PGSIZE → mem' z = mem z

theorem KernKept.trans {mem mem' mem'' : Mem} (h : KernKept kern mem mem')
    (h' : KernKept kern mem' mem'') : KernKept kern mem mem'' :=
  fun x hx z hz => (h' x hx z hz).trans (h x hx z hz)

theorem update_same (hp : pts p = some pt) :
    Function.update pts p (some pt) = pts := by
  rw [← hp]
  exact Function.update_eq_self p pts

theorem Ledger.mem {refs : Nat → Nat} (h : Ledger kend km refs) (m : Mem) :
    Ledger kend { km with mem := m } refs :=
  ⟨h.count, h.free, h.nodup, h.inside, h.held⟩

theorem Inv.mem (h : Inv kend km pts kern) (m : Mem) :
    Inv kend { km with mem := m } pts kern :=
  ⟨h.toShape, h.ledger.mem m⟩

theorem read_set {k : Nat} {e : Pte} (hwf : WF pt) (hwf' : WF (pt.set 0 k e))
    (mem : Mem) (y : Nat) :
    read mem (some (pt.set 0 k e)) y =
      if vpn 0 y = k then
        (if e.v then some (mem (PTE2PA e + y % 4096)) else none)
      else read mem (some pt) y := by
  rw [read_some hwf']
  by_cases hk : vpn 0 y = k
  · subst hk
    simp
  · rw [if_neg hk, read_some hwf, pt.set_ent_of_ne e (fun hh => hk hh.2)]

/-! ## Table pages -/

theorem Inv.sameUser (h : Inv kend km pts kern) (hp : pts p = some pt)
    (hsame : SameUser pt pt') (hwf' : WF pt')
    (hledger : Ledger kend km' (refs (Function.update pts p (some pt')) kern))
    (hkern : ∀ pa, 0 < kernRefs (Function.update pts p (some pt')) kern pa →
      refs (Function.update pts p (some pt')) kern pa = 1) :
    Inv kend km' (Function.update pts p (some pt')) kern := by
  have hent : ∀ q qt, Function.update pts p (some pt') q = some qt →
      ∃ ot, pts q = some ot ∧ SameUser ot qt := by
    intro q qt hq
    by_cases hqp : q = p
    · subst hqp
      rw [Function.update_self] at hq
      obtain rfl := Option.some.inj hq
      exact ⟨pt, hp, hsame⟩
    · rw [Function.update_of_ne hqp] at hq
      exact ⟨qt, hq, .refl qt⟩
  refine ⟨⟨?_, ?_, hkern⟩, hledger⟩
  · intro q qt hq
    by_cases hqp : q = p
    · subst hqp
      rw [Function.update_self] at hq
      obtain rfl := Option.some.inj hq
      exact hwf'
    · rw [Function.update_of_ne hqp] at hq
      exact h.wf q qt hq
  · intro q r qt rt k l hq hr hvk hvl heq
    obtain ⟨ot, ho, hs⟩ := hent q qt hq
    obtain ⟨ot', ho', hs'⟩ := hent r rt hr
    have hvk' := hs.only k hvk
    have hvl' := hs'.only l hvl
    rw [hs.keep k hvk', hs'.keep l hvl'] at heq ⊢
    exact h.shared q r ot ot' k l ho ho' hvk' hvl' heq

/-- **A table page**: fresh from `kalloc`, zeroed, hung below an invalid entry. -/
theorem Inv.newTable {km₁ : Kmem} {level va r : Nat}
    (h : Inv kend km pts kern) (hp : pts p = some pt)
    (hlevel : level = 1 ∨ level = 2)
    (habove : level = 1 → (pt.ent 2 (vpn 2 va)).v = true)
    (hinv : (pt.ent level (vpn level va)).v = false)
    (hk : kalloc km = (some r, km₁)) :
    Quiet kend kern km pts { km₁ with mem := km₁.mem.fill r PGSIZE 0 }
      (Function.update pts p
        (some (pt.newTable level (vpn level va) r { v := true }))) ∧
    KernKept kern km.mem (km₁.mem.fill r PGSIZE 0) := by
  obtain ⟨hr0, hmr, hled⟩ := h.ledger.kalloc hk
  have hmem₁ := kalloc_mem hk
  have hwf := h.wf p pt hp
  have hsame := newTable_sameUser hwf (r := r) hlevel hinv { v := true }
  have hwf' : WF (pt.newTable level (vpn level va) r { v := true }) :=
    newTable_wf hwf hlevel habove hinv rfl
  have htables : (pt.newTable level (vpn level va) r { v := true }).tables =
    r :: pt.tables := rfl
  generalize pt.newTable level (vpn level va) r { v := true } = new at *
  -- the user entries stay, the table page is one kernel reference more
  have hkernRefs : ∀ pa, kernRefs (Function.update pts p (some new)) kern pa =
      kernRefs pts kern pa + if pa = r then 1 else 0 := by
    intro pa
    have := kernRefs_update pts kern p (some new) pa
    rw [hp] at this
    simp only [tableHits, htables, List.count_cons, beq_iff_eq] at this
    by_cases hpa : pa = r
    · subst hpa
      simp only [if_true] at this ⊢
      omega
    · rw [if_neg (fun hh => hpa hh.symm)] at this
      rw [if_neg hpa]
      omega
  have huserRefs : ∀ pa, userRefs (Function.update pts p (some new)) pa =
      userRefs pts pa := by
    intro pa
    have := userRefs_update pts p (some new) pa
    rw [hp, hsame.userHits] at this
    omega
  have hrefs : ∀ pa, refs (Function.update pts p (some new)) kern pa =
      refs pts kern pa + if pa = r then 1 else 0 := by
    intro pa
    unfold refs
    rw [hkernRefs pa, huserRefs pa]
    omega
  have hnew : Inv kend { km₁ with mem := km₁.mem.fill r PGSIZE 0 }
      (Function.update pts p (some new)) kern := by
    refine h.sameUser hp hsame hwf' ((hled _ hrefs).mem _) ?_
    intro pa hpos
    rw [hrefs pa]
    by_cases hpa : pa = r
    · subst hpa
      rw [hr0, if_pos rfl]
    · rw [hkernRefs pa, if_neg hpa, Nat.add_zero] at hpos
      rw [if_neg hpa, h.kernel pa hpos]
  have hout : ∀ z, ¬ (r ≤ z ∧ z < r + PGSIZE) →
      km₁.mem.fill r PGSIZE 0 z = km.mem z := fun z hz => by
    rw [Mem.fill_of_notMem hz, hmem₁, Mem.fill_of_notMem hz]
  refine ⟨⟨hnew, fun q y => ?_⟩, fun x hx z hz => hout z (fun hin => ?_)⟩
  swap
  · -- a page of `kern` is referenced, so `kalloc` did not hand it out
    have hpos : 0 < refs pts kern x := by
      have := List.count_pos_iff.mpr hx
      unfold refs kernRefs
      omega
    obtain rfl := (h.ledger.held x hpos).eq_of_mem hmr hz hin
    omega
  have hframe : read (km₁.mem.fill r PGSIZE 0) (pts q) y =
      read km.mem (pts q) y :=
    h.read_frame hmr (userRefs_of_refs hr0) hout q y
  rw [← hframe]
  by_cases hqp : q = p
  · subst hqp
    rw [Function.update_self, hp]
    exact hsame.read hwf hwf' _ y
  · rw [Function.update_of_ne hqp]

theorem Inv.walkLevel {level va : Nat} {b : Bool} (h : Inv kend km pts kern)
    (hp : pts p = some pt) (hlevel : level = 1 ∨ level = 2)
    (habove : level = 1 → (pt.ent 2 (vpn 2 va)).v = true)
    (hw : walkLevel km pt va true level = (km', pt', b)) :
    Quiet kend kern km pts km' (Function.update pts p (some pt')) ∧
      KernKept kern km.mem km'.mem ∧ SameUser pt pt' ∧
      (b = true → (pt'.ent level (vpn level va)).v = true) ∧
      (level = 1 → pt'.ent 2 = pt.ent 2) := by
  unfold Cow.walkLevel at hw
  cases hv : (pt.ent level (vpn level va)).v with
  | true =>
      simp only [hv, if_true, Prod.mk.injEq] at hw
      obtain ⟨rfl, rfl, rfl⟩ := hw
      rw [update_same hp]
      exact ⟨.refl h, fun _ _ _ _ => rfl, .refl pt, fun _ => hv, fun _ => rfl⟩
  | false =>
      simp only [hv, Bool.false_eq_true, if_false, if_true] at hw
      split at hw
      · rename_i km₁ hk
        simp only [Prod.mk.injEq] at hw
        obtain ⟨rfl, rfl, rfl⟩ := hw
        rw [kalloc_eq_none hk, update_same hp]
        exact ⟨.refl h, fun _ _ _ _ => rfl, .refl pt, by simp, fun _ => rfl⟩
      · rename_i r km₁ hk
        simp only [Prod.mk.injEq] at hw
        obtain ⟨rfl, rfl, rfl⟩ := hw
        obtain ⟨hq, hkept⟩ := h.newTable hp hlevel habove hv hk
        refine ⟨hq, hkept, newTable_sameUser (h.wf p pt hp) hlevel hv _,
          fun _ => ?_, ?_⟩
        · rw [pt.newTable_ent_self]
          rfl
        · intro hl
          funext j
          exact pt.newTable_ent_of_ne _ (by omega) (by omega)

/-- **`walk` with allocation** only adds table pages. -/
theorem Inv.walk {va : Nat} {o : Option Nat} (h : Inv kend km pts kern)
    (hp : pts p = some pt) (hw : walk km pt va true = .ok (km', pt', o)) :
    va < MAXVA ∧
      Quiet kend kern km pts km' (Function.update pts p (some pt')) ∧
      KernKept kern km.mem km'.mem ∧ SameUser pt pt' ∧
      ∀ k, o = some k → k = vpn 0 va ∧ (pt'.ent 1 (k / 512)).v = true := by
  unfold Cow.walk at hw
  by_cases hva : MAXVA ≤ va
  · rw [if_pos hva] at hw
    cases hw
  rw [if_neg hva] at hw
  refine ⟨by omega, ?_⟩
  split at hw
  · rename_i km₁ pt₁ h₂
    obtain ⟨hq, hm, hs, -, -⟩ := h.walkLevel hp (.inr rfl) (by simp) h₂
    injection hw with hw
    simp only [Prod.mk.injEq] at hw
    obtain ⟨rfl, rfl, rfl⟩ := hw
    exact ⟨hq, hm, hs, by simp⟩
  · rename_i km₁ pt₁ h₂
    obtain ⟨hq, hm, hs, hv₂, -⟩ := h.walkLevel hp (.inr rfl) (by simp) h₂
    have hp₁ : Function.update pts p (some pt₁) p = some pt₁ :=
      Function.update_self ..
    split at hw
    · rename_i km₂ pt₂ h₁
      obtain ⟨hq', hm', hs', -, -⟩ := hq.inv.walkLevel hp₁ (.inl rfl)
        (fun _ => hv₂ rfl) h₁
      injection hw with hw
      simp only [Prod.mk.injEq] at hw
      obtain ⟨rfl, rfl, rfl⟩ := hw
      rw [Function.update_idem] at hq'
      exact ⟨hq.trans hq', hm.trans hm', hs.trans hs', by simp⟩
    · rename_i km₂ pt₂ h₁
      obtain ⟨hq', hm', hs', hv₁, -⟩ := hq.inv.walkLevel hp₁ (.inl rfl)
        (fun _ => hv₂ rfl) h₁
      injection hw with hw
      simp only [Prod.mk.injEq] at hw
      obtain ⟨rfl, rfl, rfl⟩ := hw
      rw [Function.update_idem] at hq'
      refine ⟨hq.trans hq', hm.trans hm', hs.trans hs', ?_⟩
      intro k hk
      obtain rfl := Option.some.inj hk
      refine ⟨rfl, ?_⟩
      rw [← vpn_succ]
      exact hv₁ rfl

/-! ## Pages the kernel holds -/

theorem refs_cons (pts : Tables n) (kern : List Nat) (r pa : Nat) :
    refs pts (r :: kern) pa = refs pts kern pa + if pa = r then 1 else 0 := by
  simp only [refs, kernRefs, List.count_cons, beq_iff_eq]
  by_cases hpa : pa = r
  · subst hpa
    simp only [if_true]
    omega
  · rw [if_neg hpa, if_neg (fun hh => hpa hh.symm)]
    omega

theorem kernRefs_cons (pts : Tables n) (kern : List Nat) (r pa : Nat) :
    kernRefs pts (r :: kern) pa =
      kernRefs pts kern pa + if pa = r then 1 else 0 := by
  have := refs_cons pts kern r pa
  unfold refs at this
  omega

theorem Shape.of_cons {r : Nat} (h : Shape pts (r :: kern)) : Shape pts kern := by
  refine ⟨h.wf, h.shared, fun pa hpos => ?_⟩
  have hone := h.kernel pa (by rw [kernRefs_cons]; omega)
  rw [refs_cons] at hone
  by_cases hpa : pa = r
  · rw [if_pos hpa] at hone
    unfold refs at hone
    omega
  · rwa [if_neg hpa, Nat.add_zero] at hone

theorem Shape.cons {r : Nat} (h : Shape pts kern) (hr : refs pts kern r = 0) :
    Shape pts (r :: kern) := by
  refine ⟨h.wf, h.shared, fun pa hpos => ?_⟩
  rw [refs_cons]
  by_cases hpa : pa = r
  · rw [if_pos hpa, hpa, hr]
  · rw [kernRefs_cons, if_neg hpa, Nat.add_zero] at hpos
    rw [if_neg hpa, h.kernel pa hpos]

/-- **`kalloc` by a kernel owner.** -/
theorem Inv.kallocKern {r : Nat} (h : Inv kend km pts kern)
    (hk : kalloc km = (some r, km')) :
    Inv kend km' pts (r :: kern) ∧ Managed kend r ∧ userRefs pts r = 0 ∧
      ∀ q y, read km'.mem (pts q) y = read km.mem (pts q) y := by
  obtain ⟨hr0, hmr, hled⟩ := h.ledger.kalloc hk
  refine ⟨⟨h.toShape.cons hr0, hled _ (fun pa => refs_cons pts kern r pa)⟩, hmr,
    userRefs_of_refs hr0, fun q y => ?_⟩
  refine h.read_frame hmr (userRefs_of_refs hr0) (fun z hz => ?_) q y
  rw [kalloc_mem hk, Mem.fill_of_notMem hz]

/-- **`kfree` by a kernel owner.** -/
theorem Inv.kfreeKern {r : Nat} (h : Inv kend km pts (r :: kern)) :
    ∃ km', kfree kend km r = .ok km' ∧ Inv kend km' pts kern ∧
      ∀ q y, read km'.mem (pts q) y = read km.mem (pts q) y := by
  have hgive : ∀ pa, refs pts kern pa + (if pa = r then 1 else 0) =
      refs pts (r :: kern) pa := fun pa => (refs_cons pts kern r pa).symm
  obtain ⟨km', hf, hled, hout, -⟩ := h.ledger.kfree hgive
  have hone := h.kernel r (by rw [kernRefs_cons]; simp)
  have hr0 : userRefs pts r = 0 := by
    have hpos : 0 < kernRefs pts (r :: kern) r := by rw [kernRefs_cons]; simp
    unfold refs at hone
    omega
  have hmr : Managed kend r := h.ledger.held r (by omega)
  exact ⟨km', hf, ⟨h.toShape.of_cons, hled⟩, fun q y =>
    h.read_frame hmr hr0 hout q y⟩

theorem Inv.perm {kern' : List Nat} (hperm : kern.Perm kern')
    (h : Inv kend km pts kern) : Inv kend km pts kern' := by
  have hk : ∀ pa, kernRefs pts kern' pa = kernRefs pts kern pa := fun pa => by
    simp only [kernRefs, hperm.count_eq]
  have hr : refs pts kern' = refs pts kern := by
    funext pa
    simp only [refs, hk pa]
  refine ⟨⟨h.wf, h.shared, fun pa hpos => ?_⟩, by rw [hr]; exact h.ledger⟩
  rw [hr]
  exact h.kernel pa (by rw [← hk pa]; exact hpos)

/-! ## Mapping a fresh page -/

theorem Inv.mapFresh {k r : Nat} {flags : Flags}
    (h : Inv kend km pts (r :: kern)) (hp : pts p = some pt)
    (hk : k < entries 0) (hinv : (pt.ent 0 k).v = false)
    (hpath : (pt.ent 1 (k / 512)).v = true) (hflags : flags.v = true) :
    Inv kend km (Function.update pts p (some (pt.set 0 k (PA2PTE r flags)))) kern := by
  have hone := h.kernel r (by rw [kernRefs_cons]; simp)
  have hmr : Managed kend r := h.ledger.held r (by omega)
  have hr0 : refs pts kern r = 0 := by
    rw [refs_cons, if_pos rfl] at hone
    omega
  have hframe : PTE2PA (PA2PTE r flags) = r := PTE2PA_PA2PTE hmr.aligned flags
  refine ⟨h.toShape.of_cons.set hp hk (fun _ => hpath) ?_ ?_, ?_⟩
  · intro _ q qt l hq hvl heq
    exact absurd (heq.symm.trans hframe)
      (h.ne_of_free hq hvl (userRefs_of_refs hr0))
  · intro _
    rw [hframe]
    unfold refs at hr0
    omega
  · have hrefs : refs (Function.update pts p (some (pt.set 0 k (PA2PTE r flags))))
        kern = refs pts (r :: kern) := by
      funext pa
      have hmove := refs_set hp hk kern (PA2PTE r flags) pa
      have hnew : (PA2PTE r flags).frame = some r := by
        rw [Pte.frame_of_v (by exact hflags), hframe]
      have hold : (pt.ent 0 k).frame = none := by simp [Pte.frame, hinv]
      rw [hold, hnew] at hmove
      simp only [reduceCtorEq, if_false, Nat.add_zero, Option.some.injEq] at hmove
      rw [hmove, refs_cons]
      simp only [eq_comm]
    rw [hrefs]
    exact h.ledger

/-- **Growing by one page**: the new page reads zero, nothing else changes. -/
theorem Inv.uvmallocPage {a : Nat} {w x : Bool} {ret : Int}
    (h : Inv kend km pts kern) (hp : pts p = some pt) (ha : a % 4096 = 0)
    (hg : uvmallocPage kend km pt a w x = .ok (km', pt', ret)) :
    Inv kend km' (Function.update pts p (some pt')) kern ∧
    ((ret = -1 ∧ ∀ q y, read km'.mem (Function.update pts p (some pt') q) y =
        read km.mem (pts q) y) ∨
      (ret = 0 ∧ ∀ q y, read km'.mem (Function.update pts p (some pt') q) y =
        if q = p ∧ y / 4096 = a / 4096 then some 0 else read km.mem (pts q) y)) := by
  unfold Cow.uvmallocPage at hg
  split at hg
  · rename_i km₁ hk
    injection hg with hg
    simp only [Prod.mk.injEq] at hg
    obtain ⟨rfl, rfl, rfl⟩ := hg
    rw [kalloc_eq_none hk, update_same hp]
    exact ⟨h, .inl ⟨rfl, fun _ _ => rfl⟩⟩
  rename_i r km₁ hk
  obtain ⟨hi₁, hmr, hr0, hread₁⟩ := h.kallocKern hk
  -- the page is zeroed while the kernel holds it
  have hi₂ := hi₁.mem (km₁.mem.fill r PGSIZE 0)
  have hread₂ : ∀ q y, read (km₁.mem.fill r PGSIZE 0) (pts q) y =
      read km.mem (pts q) y := fun q y => by
    rw [← hread₁ q y]
    exact hi₁.read_frame hmr hr0 (fun z hz => Mem.fill_of_notMem hz) q y
  simp only [mappages_page ha] at hg
  split at hg
  · cases hg
  rename_i km₂ pt₂ ret₂ hmap
  split at hmap
  · cases hmap
  · -- no memory for a table: the page goes back
    rename_i km₃ pt₃ hw
    injection hmap with hmap
    simp only [Prod.mk.injEq] at hmap
    obtain ⟨rfl, rfl, rfl⟩ := hmap
    obtain ⟨-, hq, -, -, -⟩ := hi₂.walk hp hw
    obtain ⟨km₄, hf, hi₄, hread₄⟩ := hq.inv.kfreeKern
    simp only [ne_eq, show (-1 : Int) ≠ 0 by decide, not_false_eq_true, if_true,
      hf, Except.ok.injEq, Prod.mk.injEq] at hg
    obtain ⟨rfl, rfl, rfl⟩ := hg
    refine ⟨hi₄, .inl ⟨rfl, fun q y => ?_⟩⟩
    rw [hread₄ q y, hq.reads q y]
    exact hread₂ q y
  · rename_i km₃ pt₃ k hw
    obtain ⟨hva, hq, hkept, -, hk'⟩ := hi₂.walk hp hw
    obtain ⟨rfl, hpath⟩ := hk' k rfl
    split at hmap
    · cases hmap
    rename_i hnv
    injection hmap with hmap
    simp only [Prod.mk.injEq] at hmap
    obtain ⟨rfl, rfl, rfl⟩ := hmap
    simp only [ne_eq, not_true_eq_false, if_false, Except.ok.injEq,
      Prod.mk.injEq] at hg
    obtain ⟨rfl, rfl, rfl⟩ := hg
    have hp₃ : Function.update pts p (some pt₃) p = some pt₃ :=
      Function.update_self ..
    let flags : Flags := { v := true, r := true, u := true, w := w, x := x }
    have hi₃ : Inv kend km₃ (Function.update (Function.update pts p (some pt₃)) p
        (some (pt₃.set 0 (vpn 0 a) (PA2PTE r flags)))) kern :=
      hq.inv.mapFresh hp₃ (vpn_lt_entries hva) (by simpa using hnv) hpath rfl
    rw [Function.update_idem] at hi₃
    refine ⟨hi₃, .inr ⟨rfl, fun q y => ?_⟩⟩
    by_cases hqp : q = p
    · subst hqp
      rw [Function.update_self, read_set (hq.inv.wf q pt₃ hp₃)
        (hi₃.wf q _ (Function.update_self ..))]
      by_cases hy : vpn 0 y = vpn 0 a
      · have hlt : y % 4096 < 4096 := Nat.mod_lt _ (by omega)
        have hin : r ≤ r + y % 4096 ∧ r + y % 4096 < r + PGSIZE :=
          ⟨by omega, by simp only [PGSIZE]; omega⟩
        have hzero : km₃.mem (r + y % 4096) = 0 := by
          rw [hkept r List.mem_cons_self _ hin]
          exact Mem.fill_of_mem hin
        rw [if_pos hy, PTE2PA_PA2PTE hmr.aligned, hzero]
        exact (if_pos ⟨rfl, hy⟩).symm
      · rw [if_neg hy, if_neg (fun hh => hy hh.2)]
        have := hq.reads q y
        rw [Function.update_self] at this
        rw [this]
        exact hread₂ q y
    · rw [Function.update_of_ne hqp, if_neg (fun hh => hqp hh.1)]
      have := hq.reads q y
      rw [Function.update_of_ne hqp] at this
      rw [this]
      exact hread₂ q y

/-! ## Unmapping -/

/-- **One page of `uvmunmap`**: `kfree` gives the entry's reference back. -/
theorem Inv.unmapPage {k : Nat} (h : Inv kend km pts kern)
    (hp : pts p = some pt) (hv : (pt.ent 0 k).v = true) :
    ∃ km', kfree kend km (PTE2PA (pt.ent 0 k)) = .ok km' ∧
      Inv kend km' (Function.update pts p (some (pt.set 0 k .zero))) kern ∧
      ∀ q y, read km'.mem (Function.update pts p (some (pt.set 0 k .zero)) q) y =
        if q = p ∧ vpn 0 y = k then none else read km.mem (pts q) y := by
  have hwf := h.wf p pt hp
  have hk := hwf.bound k hv
  have hmove : ∀ pa,
      refs (Function.update pts p (some (pt.set 0 k .zero))) kern pa +
        (if pa = PTE2PA (pt.ent 0 k) then 1 else 0) = refs pts kern pa := by
    intro pa
    have := refs_set hp hk kern .zero pa
    simp only [Pte.frame_of_v hv, Option.some.injEq, Pte.frame_zero, reduceCtorEq,
      if_false, Nat.add_zero] at this
    simpa only [eq_comm] using this
  obtain ⟨km', hfree, hled, hout, hkeep⟩ := h.ledger.kfree hmove
  have hinv : Inv kend km' (Function.update pts p (some (pt.set 0 k .zero))) kern :=
    ⟨h.set hp hk (by simp [Pte.zero]) (by simp [Pte.zero]) (by simp [Pte.zero]),
      hled⟩
  refine ⟨km', hfree, hinv, fun q y => ?_⟩
  -- the freed page, if it was freed, is mapped nowhere any more
  have hmem : read km'.mem (Function.update pts p (some (pt.set 0 k .zero)) q) y =
      read km.mem (Function.update pts p (some (pt.set 0 k .zero)) q) y := by
    by_cases hlast : refs (Function.update pts p (some (pt.set 0 k .zero))) kern
        (PTE2PA (pt.ent 0 k)) = 0
    · refine (hinv.read_frame (h.managed hp hv) (userRefs_of_refs hlast)
        (fun z hz => ?_) q y).symm
      exact (hout z hz).symm
    · rw [hkeep (by omega)]
  rw [hmem]
  by_cases hqp : q = p
  · subst hqp
    rw [Function.update_self, hp,
      read_set hwf (hinv.wf q _ (Function.update_self ..))]
    simp [Pte.zero]
  · rw [Function.update_of_ne hqp, if_neg (fun hh => hqp hh.1)]

/-- **`uvmunmap` with `do_free`** removes exactly the pages of its range from
the process's view. -/
theorem Inv.uvmunmapLoop : ∀ (m a : Nat) {km km' : Kmem} {pts : Tables n}
    {pt pt' : PageTable}, Inv kend km pts kern → pts p = some pt →
    a % 4096 = 0 →
    Cow.uvmunmapLoop kend km pt a true m = .ok (km', pt') →
    Inv kend km' (Function.update pts p (some pt')) kern ∧
    ∀ q y, read km'.mem (Function.update pts p (some pt') q) y =
      if q = p ∧ a / 4096 ≤ y / 4096 ∧ y / 4096 < a / 4096 + m then none
      else read km.mem (pts q) y
  | 0, a, km, km', pts, pt, pt', h, hp, _, hu => by
      simp only [Cow.uvmunmapLoop, Except.ok.injEq, Prod.mk.injEq] at hu
      obtain ⟨rfl, rfl⟩ := hu
      rw [update_same hp]
      refine ⟨h, fun q y => ?_⟩
      rw [if_neg]
      rintro ⟨-, h₁, h₂⟩
      omega
  | m + 1, a, km, km', pts, pt, pt', h, hp, ha, hu => by
      simp only [Cow.uvmunmapLoop] at hu
      split at hu
      · cases hu
      · cases hu
      rename_i k hw
      obtain ⟨hva, -, -, hl⟩ := walk_false_ok hw
      obtain rfl : k = vpn 0 a := (lookup_eq_some.mp hl.symm).2.2
      split at hu
      · cases hu
      rename_i hv
      split at hu
      · cases hu
      rw [if_pos trivial] at hu
      obtain ⟨km₁, hfree, hinv, hread⟩ := h.unmapPage hp (by simpa using hv)
      rw [hfree] at hu
      simp only at hu
      obtain ⟨hinv', hread'⟩ := Inv.uvmunmapLoop m (a + 4096) hinv
        (Function.update_self ..) (by omega) hu
      rw [Function.update_idem] at hinv' hread'
      refine ⟨hinv', fun q y => ?_⟩
      rw [hread' q y, hread q y, vpn_zero, vpn_zero]
      by_cases hqp : q = p
      · simp only [hqp, true_and]
        have hdiv : (a + 4096) / 4096 = a / 4096 + 1 := by omega
        rw [hdiv]
        by_cases hy : y / 4096 = a / 4096
        · rw [if_neg (by omega), if_pos hy, if_pos (by omega)]
        · by_cases hy' : a / 4096 + 1 ≤ y / 4096 ∧ y / 4096 < a / 4096 + 1 + m
          · rw [if_pos hy', if_pos (by omega)]
          · rw [if_neg hy', if_neg hy, if_neg (by omega)]
      · simp [hqp]

/-! ## `cowhandle` -/

/-- **`cowhandle`** moves the entry to a private copy that reads the same. -/
theorem Inv.cowhandle {va : Nat} {ret : Int} (h : Inv kend km pts kern)
    (hp : pts p = some pt)
    (hc : cowhandle kend km pt va = .ok (km', pt', ret)) :
    Quiet kend kern km pts km' (Function.update pts p (some pt')) ∧
      (ret = 0 → (pt'.ent 0 (vpn 0 va)).v = true ∧
        (pt'.ent 0 (vpn 0 va)).cow = false ∧ lookup pt' va = some (vpn 0 va)) := by
  obtain ⟨hva, ⟨hret, rfl, rfl, -⟩ | ⟨-, hl, hv, -, -, r, km₁, hk, rfl, hf⟩⟩ :=
    cowhandle_cases hc
  · rw [update_same hp]
    exact ⟨.refl h, by omega⟩
  obtain ⟨hr0, hmr, hled⟩ := h.ledger.kalloc hk
  have hmem₁ := kalloc_mem hk
  have hwf := h.wf p pt hp
  generalize vpn 0 va = k at *
  have hkb := hwf.bound k hv
  let e : Pte := PA2PTE r { (pt.ent 0 k).toFlags with cow := false, w := true }
  have hev : e.v = true := hv
  have hef : PTE2PA e = r := PTE2PA_PA2PTE hmr.aligned _
  -- one reference goes from the old page to the new one
  have hmove : ∀ x, refs (Function.update pts p (some (pt.set 0 k e))) kern x +
      (if x = PTE2PA (pt.ent 0 k) then 1 else 0) =
      refs pts kern x + if x = r then 1 else 0 := by
    intro x
    have := refs_set hp hkb kern e x
    simp only [Pte.frame_of_v hv, Pte.frame_of_v hev, hef, Option.some.injEq] at this
    simpa only [eq_comm] using this
  obtain ⟨km₂, hf', hled', hout, hkeep⟩ :=
    ((hled _ (fun _ => rfl)).mem
      (km₁.mem.copy r (PTE2PA (pt.ent 0 k)) PGSIZE)).kfree hmove
  obtain rfl : km₂ = km' := by
    rw [hf'] at hf
    exact Except.ok.inj hf
  have hinv : Inv kend km₂ (Function.update pts p (some (pt.set 0 k e))) kern := by
    refine ⟨h.set hp hkb (fun _ => hwf.path 0 k (by omega) hv) ?_ ?_, hled'⟩
    · intro _ q qt l hq hvl heq
      exact absurd (heq.symm.trans hef) (h.ne_of_free hq hvl (userRefs_of_refs hr0))
    · intro _
      rw [hef]
      unfold refs at hr0
      omega
  refine ⟨⟨hinv, fun q y => ?_⟩, fun _ => ?_⟩
  · -- the old page is overwritten only if nothing maps it any more
    have hfreed : read km₂.mem (Function.update pts p (some (pt.set 0 k e)) q) y =
        read (km₁.mem.copy r (PTE2PA (pt.ent 0 k)) PGSIZE)
          (Function.update pts p (some (pt.set 0 k e)) q) y := by
      by_cases hlast : refs (Function.update pts p (some (pt.set 0 k e))) kern
          (PTE2PA (pt.ent 0 k)) = 0
      · refine (hinv.read_frame (h.managed hp hv) (userRefs_of_refs hlast)
          (fun z hz => ?_) q y).symm
        exact (hout z hz).symm
      · rw [hkeep (by omega)]
    have hcopy : ∀ q, read (km₁.mem.copy r (PTE2PA (pt.ent 0 k)) PGSIZE) (pts q) y =
        read km.mem (pts q) y := by
      intro q
      refine h.read_frame hmr (userRefs_of_refs hr0) (fun z hz => ?_) q y
      rw [Mem.copy_of_notMem hz, hmem₁, Mem.fill_of_notMem hz]
    show read km₂.mem (Function.update pts p (some (pt.set 0 k e)) q) y = _
    rw [hfreed]
    by_cases hqp : q = p
    · subst hqp
      rw [Function.update_self,
        read_set hwf (hinv.wf q _ (Function.update_self ..))]
      by_cases hyk : vpn 0 y = k
      · -- the faulting page reads its own copy
        rw [if_pos hyk, if_pos hev, hp, read_some hwf, hyk, if_pos hv, hef]
        congr 1
        have hlt : y % 4096 < 4096 := Nat.mod_lt _ (by omega)
        rw [Mem.copy_of_mem ⟨by omega, by simp only [PGSIZE]; omega⟩, hmem₁,
          Nat.add_sub_cancel_left]
        refine Mem.fill_of_notMem (fun hin => ?_)
        refine h.ne_of_free hp hv (userRefs_of_refs hr0) ((h.managed hp hv).eq_of_mem hmr
          (x := PTE2PA (pt.ent 0 k) + y % 4096) ⟨by omega, ?_⟩ hin)
        simp only [PGSIZE]
        omega
      · rw [if_neg hyk, ← hp]
        exact hcopy q
    · rw [Function.update_of_ne hqp]
      exact hcopy q
  · rw [lookup_set, PageTable.set_ent_self]
    exact ⟨hv, rfl, hl⟩

theorem Inv.pagefault {va sp : Nat} {b : Bool} (h : Inv kend km pts kern)
    (hp : pts p = some pt)
    (hf : pagefault kend km pt va sp = .ok (km', pt', b)) :
    Quiet kend kern km pts km' (Function.update pts p (some pt')) := by
  unfold Cow.pagefault at hf
  simp only at hf
  split at hf
  · injection hf with hf
    simp only [Prod.mk.injEq] at hf
    obtain ⟨rfl, rfl, -⟩ := hf
    rw [update_same hp]
    exact .refl h
  · split at hf
    · cases hf
    · rename_i km₁ pt₁ ret hc
      injection hf with hf
      simp only [Prod.mk.injEq] at hf
      obtain ⟨rfl, rfl, -⟩ := hf
      exact (h.cowhandle hp hc).1

/-! ## Stores -/

/-- **A store into an unshared page** is seen by its process alone. -/
theorem Inv.store {k off : Nat} {bs : List UInt8} (h : Inv kend km pts kern)
    (hp : pts p = some pt) (hv : (pt.ent 0 k).v = true)
    (hpriv : (pt.ent 0 k).cow = false ∨ (pt.ent 0 k).w = true)
    (hlen : off + bs.length ≤ 4096) (q : Fin n) (y : Nat) :
    read (km.mem.store (PTE2PA (pt.ent 0 k) + off) bs) (pts q) y =
      if q = p ∧ k * 4096 + off ≤ y ∧ y < k * 4096 + off + bs.length then
        some (bs.getD (y - (k * 4096 + off)) 0)
      else read km.mem (pts q) y := by
  have hmp := h.managed hp hv
  have hal := hmp.aligned
  cases hq : pts q with
  | none =>
      rw [if_neg]
      · rfl
      · rintro ⟨rfl, -⟩
        rw [hp] at hq
        cases hq
  | some qt =>
      have hwf := h.wf q qt hq
      rw [read_some hwf, read_some hwf]
      have hlt : y % 4096 < 4096 := Nat.mod_lt _ (by omega)
      have hvpn : vpn 0 y = y / 4096 := rfl
      by_cases hvq : (qt.ent 0 (vpn 0 y)).v = true
      · have hmq := h.managed hq hvq
        have halq := hmq.aligned
        rw [if_pos hvq, if_pos hvq]
        by_cases hself : q = p ∧ vpn 0 y = k
        · -- the stored page itself, byte by byte
          obtain ⟨rfl, rfl⟩ := hself
          rw [hp] at hq
          obtain rfl := Option.some.inj hq
          by_cases hin : vpn 0 y * 4096 + off ≤ y ∧
              y < vpn 0 y * 4096 + off + bs.length
          · rw [if_pos ⟨rfl, hin⟩, Mem.store_of_mem (by omega)]
            congr 2
            omega
          · rw [if_neg (fun hh => hin hh.2), Mem.store_of_notMem (by omega)]
        · -- another page: its frame is another one, by the sharing invariant
          have hframe : PTE2PA (pt.ent 0 k) ≠ PTE2PA (qt.ent 0 (vpn 0 y)) := by
            intro heq
            rcases h.shared p q pt qt k (vpn 0 y) hp hq hv hvq heq with
              ⟨rfl, rfl⟩ | ⟨hcow, hw, -, -⟩
            · exact hself ⟨rfl, rfl⟩
            · rcases hpriv with hh | hh
              · rw [hcow] at hh
                cases hh
              · rw [hw] at hh
                cases hh
          rw [if_neg (by rintro ⟨rfl, h₁, h₂⟩; exact hself ⟨rfl, by omega⟩),
            Mem.store_of_notMem (by omega)]
      · rw [if_neg hvq, if_neg hvq, if_neg]
        rintro ⟨rfl, h₁, h₂⟩
        rw [hp] at hq
        obtain rfl := Option.some.inj hq
        refine hvq ?_
        rw [hvpn, show y / 4096 = k by omega]
        exact hv

/-! ## `copyout` -/

theorem Inv.copyoutPage {va0 : Nat} {o : Option Nat} (h : Inv kend km pts kern)
    (hp : pts p = some pt)
    (hc : copyoutPage kend km pt va0 = .ok (km', pt', o)) :
    Quiet kend kern km pts km' (Function.update pts p (some pt')) ∧
      ∀ pa0, o = some pa0 → pa0 = PTE2PA (pt'.ent 0 (vpn 0 va0)) ∧
        (pt'.ent 0 (vpn 0 va0)).v = true ∧ (pt'.ent 0 (vpn 0 va0)).cow = false := by
  have hsame : Quiet kend kern km pts km (Function.update pts p (some pt)) := by
    rw [update_same hp]
    exact .refl h
  unfold Cow.copyoutPage at hc
  split at hc
  · injection hc with hc
    simp only [Prod.mk.injEq] at hc
    obtain ⟨rfl, rfl, rfl⟩ := hc
    exact ⟨hsame, by simp⟩
  split at hc
  · cases hc
  · injection hc with hc
    simp only [Prod.mk.injEq] at hc
    obtain ⟨rfl, rfl, rfl⟩ := hc
    exact ⟨hsame, by simp⟩
  rename_i k hw
  obtain ⟨hva, -, -, hl⟩ := walk_false_ok hw
  obtain rfl : k = vpn 0 va0 := (lookup_eq_some.mp hl.symm).2.2
  split at hc
  · injection hc with hc
    simp only [Prod.mk.injEq] at hc
    obtain ⟨rfl, rfl, rfl⟩ := hc
    exact ⟨hsame, by simp⟩
  rename_i hflags
  split at hc
  · split at hc
    · injection hc with hc
      simp only [Prod.mk.injEq] at hc
      obtain ⟨rfl, rfl, rfl⟩ := hc
      exact ⟨hsame, by simp⟩
    split at hc
    · cases hc
    rename_i km₁ pt₁ ret hcow
    obtain ⟨hq, hok⟩ := h.cowhandle hp hcow
    split at hc
    · injection hc with hc
      simp only [Prod.mk.injEq] at hc
      obtain ⟨rfl, rfl, rfl⟩ := hc
      exact ⟨hq, by simp⟩
    rename_i hret
    obtain ⟨hv, hcow', hl'⟩ := hok (by simpa using hret)
    rw [walk_noalloc hva, hl'] at hc
    simp only [Except.ok.injEq, Prod.mk.injEq] at hc
    obtain ⟨rfl, rfl, rfl⟩ := hc
    refine ⟨hq, fun pa0 hpa0 => ?_⟩
    exact ⟨(Option.some.inj hpa0).symm, hv, hcow'⟩
  · rename_i hcow
    injection hc with hc
    simp only [Prod.mk.injEq] at hc
    obtain ⟨rfl, rfl, rfl⟩ := hc
    refine ⟨hsame, fun pa0 hpa0 => ?_⟩
    exact ⟨(Option.some.inj hpa0).symm, by simpa using fun hh => hflags (.inr hh),
      by simpa using hcow⟩

/-- What a `copyout` that leaves `left` uncopied has done: the first `m` bytes
are in place, nothing else moved, and a failure stops at a page boundary. -/
structure CopiedOut (kend : Nat) (kern : List Nat) (p : Fin n) (km : Kmem)
    (pts : Tables n) (dstva : Nat) (src : List UInt8) (km' : Kmem)
    (pts' : Tables n) (ret : Int) (m : Nat) : Prop where
  inv : Inv kend km' pts' kern
  le : m ≤ src.length
  reads : ∀ q y, read km'.mem (pts' q) y =
    if q = p ∧ dstva ≤ y ∧ y < dstva + m then some (src.getD (y - dstva) 0)
    else read km.mem (pts q) y
  mapped : ∀ y, dstva ≤ y → y < dstva + m → read km.mem (pts p) y ≠ none
  ret : (ret = 0 ∧ m = src.length) ∨
    (ret = -1 ∧ m < src.length ∧ (m = 0 ∨ (dstva + m) % 4096 = 0))

theorem Inv.copyout : ∀ (N : Nat) {km km' : Kmem} {pts : Tables n}
    {pt pt' : PageTable} {dstva : Nat} {src left : List UInt8} {ret : Int},
    src.length ≤ N → Inv kend km pts kern → pts p = some pt →
    copyout kend km pt dstva src = .ok (km', pt', ret, left) →
    ∃ m, left = src.drop m ∧
      CopiedOut kend kern p km pts dstva src km'
        (Function.update pts p (some pt')) ret m := by
  intro N
  induction N with
  | zero =>
      intro km km' pts pt pt' dstva src left ret hN h hp hc
      have hnil : src = [] := List.length_eq_zero_iff.mp (by omega)
      subst hnil
      rw [Cow.copyout] at hc
      simp only [List.length_nil, if_true, Except.ok.injEq, Prod.mk.injEq] at hc
      obtain ⟨rfl, rfl, rfl, rfl⟩ := hc
      rw [update_same hp]
      exact ⟨0, rfl, h, Nat.le_refl _, fun q y => by rw [if_neg (by omega)],
        fun y h₁ h₂ => by omega, .inl ⟨rfl, rfl⟩⟩
  | succ N ih =>
      intro km km' pts pt pt' dstva src left ret hN h hp hc
      rw [Cow.copyout] at hc
      split at hc
      · rename_i hz
        simp only [Except.ok.injEq, Prod.mk.injEq] at hc
        obtain ⟨rfl, rfl, rfl, rfl⟩ := hc
        rw [update_same hp]
        refine ⟨0, ?_, h, Nat.zero_le _, fun q y => by rw [if_neg (by omega)],
          fun y h₁ h₂ => by omega, .inl ⟨rfl, hz.symm⟩⟩
        rw [List.drop_zero, List.length_eq_zero_iff.mp hz]
      rename_i hlen
      simp only at hc
      split at hc
      · cases hc
      · rename_i km₁ pt₁ hpage
        obtain ⟨hq, -⟩ := h.copyoutPage hp hpage
        simp only [Except.ok.injEq, Prod.mk.injEq] at hc
        obtain ⟨rfl, rfl, rfl, rfl⟩ := hc
        refine ⟨0, by simp, hq.inv, Nat.zero_le _, fun q y => ?_,
          fun y h₁ h₂ => by omega, .inr ⟨rfl, by omega, .inl rfl⟩⟩
        rw [if_neg (by omega)]
        exact hq.reads q y
      · rename_i km₁ pt₁ pa0 hpage
        obtain ⟨hq, hpa⟩ := h.copyoutPage hp hpage
        obtain ⟨rfl, hv, hcow⟩ := hpa pa0 rfl
        -- the arithmetic of one round
        have hva0 : PGROUNDDOWN dstva = dstva / 4096 * 4096 := rfl
        have hvpn : vpn 0 (PGROUNDDOWN dstva) = dstva / 4096 := by
          rw [vpn_zero, hva0]
          omega
        have hoff : dstva - PGROUNDDOWN dstva = dstva % 4096 := by
          rw [hva0]
          omega
        have hlt : dstva % 4096 < 4096 := Nat.mod_lt _ (by omega)
        rw [hoff] at hc
        generalize hm : min (PGSIZE - dstva % 4096) src.length = m at hc
        have hm1 : m ≤ src.length := by omega
        have hm2 : dstva % 4096 + m ≤ 4096 := by simp only [PGSIZE] at hm; omega
        have hm3 : 0 < m := by simp only [PGSIZE] at hm; omega
        have hm4 : m < src.length → dstva % 4096 + m = 4096 := by
          simp only [PGSIZE] at hm
          omega
        have htake : (src.take m).length = m := by simp [hm1]
        rw [hvpn] at hv hcow hc
        have hp₁ : Function.update pts p (some pt₁) p = some pt₁ :=
          Function.update_self ..
        have hlen₁ : dstva % 4096 + (src.take m).length ≤ 4096 := by
          rw [htake]
          exact hm2
        have hstore := hq.inv.store hp₁ hv (.inl hcow) hlen₁
        obtain ⟨m', hleft, hdone⟩ := ih (by simp; omega)
          (hq.inv.mem _) hp₁ hc
        rw [Function.update_idem] at hdone
        have hnext : m' ≤ src.length - m := by
          have := hdone.le
          simpa using this
        have hnextva : PGROUNDDOWN dstva + PGSIZE = dstva / 4096 * 4096 + 4096 := rfl
        refine ⟨m + m', ?_, hdone.inv, by omega, fun q y => ?_,
          fun y h₁ h₂ => ?_, ?_⟩
        · rw [hleft, List.drop_drop]
        · rw [hdone.reads q y, hstore q y, hq.reads q y, htake, hnextva]
          have hbase : dstva / 4096 * 4096 + dstva % 4096 = dstva := by omega
          rw [hbase]
          by_cases hqp : q = p
          · simp only [hqp, true_and]
            by_cases h₁ : dstva ≤ y ∧ y < dstva + m
            · -- written by this round
              rw [if_neg (by omega), if_pos h₁, if_pos (by omega)]
              congr 1
              rw [List.getD_eq_getElem?_getD, List.getD_eq_getElem?_getD,
                List.getElem?_take_of_lt (by omega)]
            · by_cases h₂ : dstva / 4096 * 4096 + 4096 ≤ y ∧
                y < dstva / 4096 * 4096 + 4096 + m'
              · -- written by a later round, which starts at the next page
                have hfull := hm4 (by omega)
                rw [if_pos h₂, if_pos (by omega)]
                congr 1
                have hidx : m + (y - (dstva / 4096 * 4096 + 4096)) = y - dstva := by
                  omega
                rw [List.getD_eq_getElem?_getD, List.getD_eq_getElem?_getD,
                  List.getElem?_drop, hidx]
              · rw [if_neg h₂, if_neg h₁, if_neg]
                by_cases hm' : m' = 0
                · omega
                · have hfull := hm4 (by omega)
                  omega
          · simp [hqp]
        · -- this round's page was mapped, later ones by induction
          rw [← hq.reads p y, Function.update_self]
          by_cases hy : y < dstva + m
          · rw [read_some (hq.inv.wf p _ hp₁), vpn_zero,
              show y / 4096 = dstva / 4096 by omega, if_pos hv]
            simp
          · have hfull := hm4 (by omega)
            have hlater := hdone.mapped y (by omega) (by omega)
            have := hstore p y
            rw [if_neg (by rw [htake]; omega)] at this
            rw [← hp₁, ← this]
            exact hlater
        · rcases hdone.ret with ⟨rfl, hall⟩ | ⟨rfl, hsome, hbound⟩
          · left
            simp only [List.length_drop] at hall
            exact ⟨rfl, by omega⟩
          · right
            simp only [List.length_drop] at hsome
            have hfull := hm4 (by omega)
            refine ⟨rfl, by omega, .inr ?_⟩
            rw [hnextva] at hbound
            omega

end Xv6Labs.Cow
