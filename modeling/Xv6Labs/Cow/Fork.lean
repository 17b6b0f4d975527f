import Xv6Labs.Cow.Ops

/-!
# `uvmcopy` keeps the sharing invariant

`uvmcopy` marks the parent's entry, hangs the frame below the child and raises
its count, page by page. After each round the child reads what the parent
reads on the pages done so far and its own beyond; the error path unmaps
exactly those pages again. No process but the child reads anything new.
-/

namespace Xv6Labs.Cow

open Xv6Labs.Lib

variable {n : Nat} {kend : Nat} {km km' : Kmem} {pts : Tables n}
  {kern : List Nat} {p c : Fin n} {pt pt' : PageTable}

theorem Inv.kernRefs_mapped {k : Nat} (h : Inv kend km pts kern)
    (hp : pts p = some pt) (hv : (pt.ent 0 k).v = true) :
    kernRefs pts kern (PTE2PA (pt.ent 0 k)) = 0 := by
  by_contra hne
  have hone := h.kernel _ (Nat.pos_of_ne_zero hne)
  have := userRefs_pos_of hp ((h.wf p pt hp).bound k hv) hv
  unfold refs at hone
  omega

/-! ## One round -/

/-- **Marking the parent's entry**: the frame stays, so no count moves. -/
theorem Inv.cowMark {k : Nat} (h : Inv kend km pts kern) (hp : pts p = some pt)
    (hv : (pt.ent 0 k).v = true) :
    Quiet kend kern km pts km (Function.update pts p (some (pt.set 0 k
      (PA2PTE (PTE2PA (pt.ent 0 k)) (cowFlags (pt.ent 0 k).toFlags))))) := by
  have hwf := h.wf p pt hp
  have hkb := hwf.bound k hv
  have hef : PTE2PA (PA2PTE (PTE2PA (pt.ent 0 k)) (cowFlags (pt.ent 0 k).toFlags)) =
      PTE2PA (pt.ent 0 k) := PTE2PA_PA2PTE (h.managed hp hv).aligned _
  have hev : (PA2PTE (PTE2PA (pt.ent 0 k)) (cowFlags (pt.ent 0 k).toFlags)).v =
      true := hv
  have hecow : (PA2PTE (PTE2PA (pt.ent 0 k)) (cowFlags (pt.ent 0 k).toFlags)).cow =
      true := rfl
  have hew : (PA2PTE (PTE2PA (pt.ent 0 k)) (cowFlags (pt.ent 0 k).toFlags)).w =
      false := rfl
  generalize PA2PTE (PTE2PA (pt.ent 0 k)) (cowFlags (pt.ent 0 k).toFlags) = e at *
  have hrefs : refs (Function.update pts p (some (pt.set 0 k e))) kern =
      refs pts kern := by
    funext pa
    have := refs_set hp hkb kern e pa
    rw [Pte.frame_of_v hv, Pte.frame_of_v hev, hef] at this
    omega
  have hinv : Inv kend km (Function.update pts p (some (pt.set 0 k e))) kern := by
    refine ⟨h.set hp hkb (fun _ => hwf.path 0 k (by omega) hv) ?_ ?_, ?_⟩
    · intro _ q qt l hq hvl heq
      rw [hef] at heq
      rcases h.shared p q pt qt k l hp hq hv hvl heq with ⟨rfl, rfl⟩ | ⟨-, -, h₁, h₂⟩
      · exact .inl ⟨rfl, rfl⟩
      · exact .inr ⟨hecow, hew, h₁, h₂⟩
    · intro _
      rw [hef]
      exact h.kernRefs_mapped hp hv
    · rw [hrefs]
      exact h.ledger
  refine ⟨hinv, fun q y => ?_⟩
  by_cases hqp : q = p
  · subst hqp
    rw [Function.update_self, hp,
      read_set hwf (hinv.wf q _ (Function.update_self ..))]
    by_cases hy : vpn 0 y = k
    · rw [if_pos hy, if_pos hev, hef, read_some hwf, hy, if_pos hv]
    · rw [if_neg hy]
  · rw [Function.update_of_ne hqp]

/-- **Sharing a marked frame** with an entry of another process, and counting
it. -/
theorem Inv.share {k l : Nat} {new : PageTable} {flags : Flags}
    (h : Inv kend km pts kern) (hp : pts p = some pt) (hc : pts c = some new)
    (hv : (pt.ent 0 k).v = true) (hcow : (pt.ent 0 k).cow = true)
    (hw : (pt.ent 0 k).w = false) (hl : l < entries 0)
    (hinv : (new.ent 0 l).v = false) (hpath : (new.ent 1 (l / 512)).v = true)
    (hfv : flags.v = true) (hfcow : flags.cow = true) (hfw : flags.w = false) :
    Inv kend (refcadd km (PTE2PA (pt.ent 0 k)))
      (Function.update pts c
        (some (new.set 0 l (PA2PTE (PTE2PA (pt.ent 0 k)) flags)))) kern := by
  have hef : PTE2PA (PA2PTE (PTE2PA (pt.ent 0 k)) flags) = PTE2PA (pt.ent 0 k) :=
    PTE2PA_PA2PTE (h.managed hp hv).aligned _
  refine ⟨h.set hc hl (fun _ => hpath) ?_ ?_, ?_⟩
  · intro _ q qt j hq hvj heq
    rw [hef] at heq
    rcases h.shared p q pt qt k j hp hq hv hvj heq with ⟨rfl, rfl⟩ | ⟨-, -, h₁, h₂⟩
    · rw [hp] at hq
      obtain rfl := Option.some.inj hq
      exact .inr ⟨hfcow, hfw, hcow, hw⟩
    · exact .inr ⟨hfcow, hfw, h₁, h₂⟩
  · intro _
    rw [hef]
    exact h.kernRefs_mapped hp hv
  · have hpos : 0 < refs pts kern (PTE2PA (pt.ent 0 k)) := by
      have := userRefs_pos_of hp ((h.wf p pt hp).bound k hv) hv
      unfold refs
      omega
    refine h.ledger.refcadd hpos (fun pa => ?_)
    have hmove := refs_set hc hl kern (PA2PTE (PTE2PA (pt.ent 0 k)) flags) pa
    have hnew : (PA2PTE (PTE2PA (pt.ent 0 k)) flags).frame =
        some (PTE2PA (pt.ent 0 k)) := by
      rw [Pte.frame_of_v (by exact hfv), hef]
    have hold : (new.ent 0 l).frame = none := by simp [Pte.frame, hinv]
    rw [hold, hnew] at hmove
    simp only [reduceCtorEq, if_false, Nat.add_zero, Option.some.injEq] at hmove
    rw [hmove]
    simp only [eq_comm]

/-! ## The loop -/

theorem uvmunmapLoop_ent {doFree : Bool} : ∀ (m a : Nat) {km : Kmem} {pt : PageTable},
    uvmunmapLoop kend km pt a doFree m = .ok (km', pt') → ∀ k, pt'.ent 0 k =
      if a / 4096 ≤ k ∧ k < a / 4096 + m then .zero else pt.ent 0 k := by
  intro m
  induction m with
  | zero =>
      intro a km pt hu k
      simp only [uvmunmapLoop, Except.ok.injEq, Prod.mk.injEq] at hu
      rw [← hu.2, if_neg (by omega)]
  | succ m ih =>
      intro a km pt hu k
      simp only [uvmunmapLoop] at hu
      split at hu
      · cases hu
      · cases hu
      rename_i j hw
      obtain ⟨-, -, -, hl⟩ := walk_false_ok hw
      obtain rfl : j = vpn 0 a := (lookup_eq_some.mp hl.symm).2.2
      -- the first page goes here, the rest by induction
      have hrest : ∀ {km₁ : Kmem}, uvmunmapLoop kend km₁ (pt.set 0 (vpn 0 a) .zero)
          (a + PGSIZE) doFree m = .ok (km', pt') → pt'.ent 0 k =
          if a / 4096 ≤ k ∧ k < a / 4096 + (m + 1) then .zero else pt.ent 0 k := by
        intro km₁ hu
        rw [ih _ hu k]
        have hdiv : (a + PGSIZE) / 4096 = a / 4096 + 1 := by
          simp only [PGSIZE]
          omega
        rw [hdiv]
        by_cases hk : k = vpn 0 a
        · rw [hk, PageTable.set_ent_self, vpn_zero, ite_self, if_pos (by omega)]
        · rw [pt.set_ent_of_ne _ (fun hh => hk hh.2)]
          rw [vpn_zero] at hk
          by_cases hin : a / 4096 + 1 ≤ k ∧ k < a / 4096 + 1 + m
          · rw [if_pos hin, if_pos (by omega)]
          · rw [if_neg hin, if_neg (by omega)]
      split at hu
      · cases hu
      split at hu
      · cases hu
      split at hu
      · split at hu
        · cases hu
        · exact hrest hu
      · exact hrest hu

theorem update_pair {α : Type*} {f : Fin n → α} {a b a' b' : α} (hpc : p ≠ c) :
    Function.update (Function.update (Function.update (Function.update f p a) c b)
      p a') c b' = Function.update (Function.update f p a') c b' := by
  funext q
  by_cases hq : q = c
  · subst hq
    simp
  · by_cases hq' : q = p
    · subst hq'
      simp [hq]
    · simp [hq, hq']

/-- What `uvmcopy` has done when it returns: the child reads the parent's pages
below `upto`, or after a failure none of them. What it reads elsewhere is its
own, and the entries there are as they were. -/
structure Copied (kend : Nat) (kern : List Nat) (p c : Fin n) (km : Kmem)
    (pts : Tables n) (old new : PageTable) (own : Nat → Option UInt8) (upto : Nat)
    (km' : Kmem) (old' new' : PageTable) (ret : Int) : Prop where
  inv : Inv kend km'
    (Function.update (Function.update pts p (some old')) c (some new')) kern
  others : ∀ q, q ≠ c → ∀ y,
    read km'.mem (Function.update pts p (some old') q) y = read km.mem (pts q) y
  child : (ret = 0 ∧ ∀ y, read km'.mem (some new') y =
      if y / 4096 < upto then read km.mem (some old) y else own y) ∨
    (ret = -1 ∧ ∀ y, read km'.mem (some new') y = own y)
  kept : ∀ k, upto ≤ k → (new'.ent 0 k).v = (new.ent 0 k).v ∧
    ((new.ent 0 k).v = true → new'.ent 0 k = new.ent 0 k)

/-- The parent's entry after `uvmcopy` has met it. -/
def cowEntry (pte : Pte) : Pte := PA2PTE (PTE2PA pte) (cowFlags pte.toFlags)

theorem PTE2PA_cowEntry (pte : Pte) : PTE2PA (cowEntry pte) = PTE2PA pte :=
  PTE2PA_PA2PTE (Nat.mul_mod_left pte.ppn 4096) _

/-- Same frame and same V, R, X and U bits: `uvmcopy` may only turn W into
`PTE_COW`. -/
structure SameRights (pte pte' : Pte) : Prop where
  frame : PTE2PA pte' = PTE2PA pte
  v : pte'.v = pte.v
  r : pte'.r = pte.r
  x : pte'.x = pte.x
  u : pte'.u = pte.u

theorem SameRights.refl (pte : Pte) : SameRights pte pte := ⟨rfl, rfl, rfl, rfl, rfl⟩

theorem SameRights.trans {a b d : Pte} (h : SameRights a b) (h' : SameRights b d) :
    SameRights a d where
  frame := h'.frame.trans h.frame
  v := h'.v.trans h.v
  r := h'.r.trans h.r
  x := h'.x.trans h.x
  u := h'.u.trans h.u

theorem SameRights.symm {a b : Pte} (h : SameRights a b) : SameRights b a :=
  ⟨h.frame.symm, h.v.symm, h.r.symm, h.x.symm, h.u.symm⟩

/-- What a fork makes of an entry, in the parent and in the child. -/
structure Marked (pte pte' : Pte) : Prop extends SameRights pte pte' where
  cow : pte'.cow = true
  w : pte'.w = false

theorem Marked.cowEntry (pte : Pte) : Marked pte (cowEntry pte) :=
  ⟨⟨PTE2PA_cowEntry pte, rfl, rfl, rfl, rfl⟩, rfl, rfl⟩

theorem SameRights.marked {a b d : Pte} (h : SameRights a b) (h' : Marked b d) :
    Marked a d :=
  ⟨h.trans h'.toSameRights, h'.cow, h'.w⟩

def Kept (pte pte' : Pte) : Prop := pte' = pte ∨ Marked pte pte'

theorem Kept.sameRights {pte pte' : Pte} (h : Kept pte pte') : SameRights pte pte' := by
  rcases h with rfl | h
  · exact .refl _
  · exact h.toSameRights

theorem Kept.trans {a b d : Pte} (h : Kept a b) (h' : Kept b d) : Kept a d := by
  rcases h' with rfl | h'
  · exact h
  · exact .inr (h.sameRights.marked h')

theorem kept_set_cowEntry (pt : PageTable) (j k : Nat) :
    Kept (pt.ent 0 k) ((pt.set 0 j (cowEntry (pt.ent 0 j))).ent 0 k) := by
  by_cases hk : k = j
  · subst hk
    rw [PageTable.set_ent_self]
    exact .inr (.cowEntry _)
  · rw [PageTable.set_ent_of_ne _ _ (fun hh => hk hh.2)]
    exact .inl rfl

/-- **The parent's entries**: however `uvmcopy` ends they are marked or as they
were, and marked where it went when it succeeds. -/
theorem uvmcopyLoop_parent : ∀ (m i : Nat) {km km' : Kmem}
    {old new old' new' : PageTable} {ret : Int},
    uvmcopyLoop kend km old new i m = .ok (km', old', new', ret) →
    ∀ k, Kept (old.ent 0 k) (old'.ent 0 k) ∧
      (ret = 0 → i / 4096 ≤ k → k < i / 4096 + m →
        Marked (old.ent 0 k) (old'.ent 0 k)) := by
  intro m
  induction m with
  | zero =>
      intro i km km' old new old' new' ret hu k
      simp only [uvmcopyLoop, Except.ok.injEq, Prod.mk.injEq] at hu
      obtain ⟨-, rfl, -, -⟩ := hu
      exact ⟨.inl rfl, fun _ _ _ => by omega⟩
  | succ m ih =>
      intro i km km' old new old' new' ret hu k
      simp only [uvmcopyLoop] at hu
      split at hu
      · cases hu
      · cases hu
      rename_i j hw
      obtain ⟨-, -, -, hl⟩ := walk_false_ok hw
      obtain rfl : j = vpn 0 i := (lookup_eq_some.mp hl.symm).2.2
      split at hu
      · cases hu
      have hmark := kept_set_cowEntry old (vpn 0 i) k
      split at hu
      · cases hu
      split at hu
      · split at hu
        · cases hu
        · simp only [Except.ok.injEq, Prod.mk.injEq] at hu
          obtain ⟨-, rfl, -, rfl⟩ := hu
          exact ⟨hmark, fun hret => absurd hret (by decide)⟩
      · obtain ⟨hrest, hdone⟩ := ih _ hu k
        refine ⟨hmark.trans hrest, fun hret h₁ h₂ => ?_⟩
        by_cases hki : k = vpn 0 i
        · -- met in this round, and never unmarked again
          subst hki
          rcases hrest with heq | hm
          · rw [heq, PageTable.set_ent_self]
            exact .cowEntry _
          · exact hmark.sameRights.marked hm
        · rw [vpn_zero] at hki
          refine hmark.sameRights.marked (hdone hret ?_ ?_)
          · simp only [PGSIZE]
            omega
          · simp only [PGSIZE]
            omega

theorem walk_ok {va : Nat} (hva : va < MAXVA) (km : Kmem) (pt : PageTable)
    (alloc : Bool) : ∃ km' pt' o, walk km pt va alloc = .ok (km', pt', o) := by
  unfold walk
  rw [if_neg (Nat.not_le.mpr hva)]
  split
  · exact ⟨_, _, _, rfl⟩
  · split
    · exact ⟨_, _, _, rfl⟩
    · exact ⟨_, _, _, rfl⟩

/-- What a round of `uvmcopy` that succeeds at page `i` leaves. -/
structure Round (kend : Nat) (kern : List Nat) (p c : Fin n) (km : Kmem)
    (pts : Tables n) (old new : PageTable) (own : Nat → Option UInt8) (i : Nat)
    (km' : Kmem) (new' : PageTable) : Prop where
  inv : Inv kend km' (Function.update (Function.update pts p
    (some (old.set 0 (vpn 0 i) (cowEntry (old.ent 0 (vpn 0 i)))))) c (some new')) kern
  others : ∀ q, q ≠ c → ∀ y, read km'.mem (Function.update pts p
    (some (old.set 0 (vpn 0 i) (cowEntry (old.ent 0 (vpn 0 i))))) q) y =
      read km.mem (pts q) y
  child : ∀ y, read km'.mem (some new') y =
    if y / 4096 < (i + 4096) / 4096 then read km.mem (some old) y else own y
  given : Marked (old.ent 0 (vpn 0 i)) (new'.ent 0 (vpn 0 i))
  kept : ∀ k, k ≠ vpn 0 i → (new'.ent 0 k).v = (new.ent 0 k).v ∧
    ((new.ent 0 k).v = true → new'.ent 0 k = new.ent 0 k)

/-- **One round of `uvmcopy`** on a mapped page: the child is given the page and
it is counted, or there is no page for a table of the child. -/
theorem Inv.uvmcopyRound (hpc : p ≠ c) {i : Nat} {old new : PageTable}
    {own : Nat → Option UInt8} (h : Inv kend km pts kern) (hp : pts p = some old)
    (hc : pts c = some new) (hi : i % 4096 = 0) (hv : (old.ent 0 (vpn 0 i)).v = true)
    (hown : own i = none)
    (hdone : ∀ y, read km.mem (some new) y =
      if y / 4096 < i / 4096 then read km.mem (some old) y else own y) :
    ∃ km₂ new₂ ret, mappages km new i PGSIZE (PTE2PA (old.ent 0 (vpn 0 i)))
        (cowFlags (old.ent 0 (vpn 0 i)).toFlags) = .ok (km₂, new₂, ret) ∧
      ((ret = -1 ∧ SameUser new new₂ ∧ Quiet kend kern km pts km₂
          (Function.update (Function.update pts p
            (some (old.set 0 (vpn 0 i) (cowEntry (old.ent 0 (vpn 0 i)))))) c
            (some new₂))) ∨
        (ret = 0 ∧ Round kend kern p c km pts old new own i
          (refcadd km₂ (PTE2PA (old.ent 0 (vpn 0 i)))) new₂)) := by
  have hwfp := h.wf p old hp
  have hva : i < MAXVA := by
    have := hwfp.bound _ hv
    simp only [vpn_zero, entries, MAXVA] at *
    omega
  have hmark : Quiet kend kern km pts km (Function.update pts p
      (some (old.set 0 (vpn 0 i) (cowEntry (old.ent 0 (vpn 0 i)))))) := h.cowMark hp hv
  have hef := PTE2PA_cowEntry (old.ent 0 (vpn 0 i))
  have hev : (cowEntry (old.ent 0 (vpn 0 i))).v = true := hv
  have hecow : (cowEntry (old.ent 0 (vpn 0 i))).cow = true := rfl
  have hew : (cowEntry (old.ent 0 (vpn 0 i))).w = false := rfl
  generalize he : cowEntry (old.ent 0 (vpn 0 i)) = e at *
  have hp₁ : Function.update pts p (some (old.set 0 (vpn 0 i) e)) p =
    some (old.set 0 (vpn 0 i) e) := Function.update_self ..
  have hc₁ : Function.update pts p (some (old.set 0 (vpn 0 i) e)) c = some new := by
    rw [Function.update_of_ne hpc.symm, hc]
  obtain ⟨km₃, new₃, o, hw₃⟩ := walk_ok hva km new true
  obtain ⟨-, hq, -, hsame, hk⟩ := hmark.inv.walk hc₁ hw₃
  rw [mappages_page hi, hw₃]
  cases o with
  | none =>
      refine ⟨km₃, new₃, -1, rfl, .inl ⟨rfl, hsame, hq.inv, fun q y => ?_⟩⟩
      rw [hq.reads q y]
      exact hmark.reads q y
  | some k =>
      obtain ⟨rfl, hpath⟩ := hk k rfl
      -- the child reads nothing at page `i` yet, so the entry is free
      have hfree : (new₃.ent 0 (vpn 0 i)).v = false := by
        by_contra hne
        have hvn := hsame.only _ (by simpa using hne)
        have := hdone i
        rw [if_neg (by omega), read_some (h.wf c new hc), if_pos hvn, hown] at this
        cases this
      simp only [hfree, Bool.false_eq_true, if_false]
      refine ⟨km₃, _, 0, rfl, .inr ⟨rfl, ?_⟩⟩
      have hp₂ : Function.update (Function.update pts p
          (some (old.set 0 (vpn 0 i) e))) c (some new₃) p =
          some (old.set 0 (vpn 0 i) e) := by
        rw [Function.update_of_ne hpc, hp₁]
      have hself : (old.set 0 (vpn 0 i) e).ent 0 (vpn 0 i) = e :=
        PageTable.set_ent_self ..
      let flags : Flags :=
        { cowFlags (old.ent 0 (vpn 0 i)).toFlags with v := true }
      have hi₃ : Inv kend (refcadd km₃ (PTE2PA (old.ent 0 (vpn 0 i)))) (Function.update
          (Function.update pts p (some (old.set 0 (vpn 0 i) e))) c
          (some (new₃.set 0 (vpn 0 i)
            (PA2PTE (PTE2PA (old.ent 0 (vpn 0 i))) flags)))) kern := by
        have := hq.inv.share hp₂ (Function.update_self ..)
          (by rw [hself]; exact hev) (by rw [hself]; exact hecow)
          (by rw [hself]; exact hew) (vpn_lt_entries hva) hfree hpath
          (rfl : flags.v = true) rfl rfl
        rwa [hself, Function.update_idem, hef] at this
      have hothers : ∀ q, q ≠ c → ∀ y, read km₃.mem (Function.update pts p
          (some (old.set 0 (vpn 0 i) e)) q) y = read km.mem (pts q) y := by
        intro q hqc y
        have := hq.reads q y
        rw [Function.update_of_ne hqc] at this
        rw [this]
        exact hmark.reads q y
      have hold : ∀ y, read km₃.mem (some (old.set 0 (vpn 0 i) e)) y =
          read km.mem (some old) y := fun y => by
        have := hothers p hpc y
        rwa [hp₁, hp] at this
      refine ⟨by rw [he]; exact hi₃, by rw [he]; exact hothers, fun y => ?_, ?_,
        fun k hki => ?_⟩
      · -- the pages done now include the one of this round
        show read km₃.mem _ y = _
        rw [read_set (hq.inv.wf c new₃ (Function.update_self ..))
          (hi₃.wf c _ (Function.update_self ..))]
        by_cases hy : vpn 0 y = vpn 0 i
        · have hy' : y / 4096 = i / 4096 := hy
          have hfr : PTE2PA (PA2PTE (PTE2PA (old.ent 0 (vpn 0 i))) flags) = PTE2PA e := by
            rw [hef]
            exact PTE2PA_PA2PTE (h.managed hp hv).aligned _
          have hlt : y / 4096 < (i + 4096) / 4096 := by omega
          rw [if_pos hy, if_pos hlt, ← hold y, hfr, read_some (hmark.inv.wf p _ hp₁), hy,
            hself, if_pos hev]
          rfl
        · have hne : y / 4096 ≠ i / 4096 := hy
          have := hq.reads c y
          rw [Function.update_self, hc₁, hdone y] at this
          rw [if_neg hy, this]
          by_cases hlt : y / 4096 < i / 4096
          · rw [if_pos hlt, if_pos (by omega)]
          · rw [if_neg hlt, if_neg (by omega)]
      · rw [PageTable.set_ent_self]
        exact ⟨⟨PTE2PA_PA2PTE (h.managed hp hv).aligned _, hv.symm, rfl, rfl, rfl⟩,
          rfl, rfl⟩
      · have hne : ¬ (0 = 0 ∧ k = vpn 0 i) := fun hh => hki hh.2
        rw [PageTable.set_ent_of_ne _ _ hne]
        exact hsame.entry k

theorem Inv.uvmcopyLoop (hpc : p ≠ c) (own : Nat → Option UInt8) : ∀ (m i : Nat)
    {km km' : Kmem} {pts : Tables n} {old new old' new' : PageTable} {ret : Int},
    Inv kend km pts kern → pts p = some old → pts c = some new →
    i % 4096 = 0 → (∀ y, y / 4096 < i / 4096 + m → own y = none) →
    (∀ y, read km.mem (some new) y =
      if y / 4096 < i / 4096 then read km.mem (some old) y else own y) →
    uvmcopyLoop kend km old new i m = .ok (km', old', new', ret) →
    Copied kend kern p c km pts old new own (i / 4096 + m) km' old' new' ret
  | 0, i, km, km', pts, old, new, old', new', ret, h, hp, hc, _, _, hdone, hu => by
      simp only [Cow.uvmcopyLoop, Except.ok.injEq, Prod.mk.injEq] at hu
      obtain ⟨rfl, rfl, rfl, rfl⟩ := hu
      refine ⟨?_, ?_, .inl ⟨rfl, by simpa using hdone⟩, fun k _ => ⟨rfl, fun _ => rfl⟩⟩
      · rw [update_same hp, update_same hc]
        exact h
      · intro q _ y
        rw [update_same hp]
  | m + 1, i, km, km', pts, old, new, old', new', ret, h, hp, hc, hi, hown, hdone, hu => by
      simp only [Cow.uvmcopyLoop] at hu
      split at hu
      · cases hu
      · cases hu
      rename_i k hw
      obtain ⟨hva, -, -, hl⟩ := walk_false_ok hw
      obtain rfl : k = vpn 0 i := (lookup_eq_some.mp hl.symm).2.2
      split at hu
      · cases hu
      rename_i hnv
      obtain ⟨km₂, new₂, ret₂, hmap, hround⟩ :=
        h.uvmcopyRound hpc hp hc hi (by simpa using hnv) (hown i (by omega)) hdone
      rw [hmap] at hu
      rcases hround with ⟨rfl, hsame, hq⟩ | ⟨rfl, hR⟩
      · -- no page for a table: everything mapped so far is unmapped again
        simp only [ne_eq, show (-1 : Int) ≠ 0 by decide, not_false_eq_true,
          if_true, Cow.uvmunmap, PGSIZE, Nat.zero_mod, not_true_eq_false,
          if_false] at hu
        split at hu
        · cases hu
        rename_i km₄ new₄ hun
        simp only [Except.ok.injEq, Prod.mk.injEq] at hu
        obtain ⟨rfl, rfl, rfl, rfl⟩ := hu
        obtain ⟨hi₄, hr₄⟩ := hq.inv.uvmunmapLoop (i / 4096) 0
          (Function.update_self ..) (by omega) hun
        rw [Function.update_idem] at hi₄ hr₄
        refine ⟨hi₄, fun q hqc y => ?_, .inr ⟨rfl, fun y => ?_⟩, fun k hk => ?_⟩
        · have h₁ := hr₄ q y
          rw [Function.update_of_ne hqc, if_neg (fun hh => hqc hh.1), hq.reads q y] at h₁
          exact h₁
        · have h₁ := hr₄ c y
          have h₂ := hq.reads c y
          rw [Function.update_self] at h₁
          rw [hc, hdone y] at h₂
          rw [h₁]
          by_cases hy : y / 4096 < i / 4096
          · rw [if_pos ⟨rfl, by omega, by omega⟩, hown y (by omega)]
          · rw [if_neg (by omega), h₂, if_neg hy]
        · rw [uvmunmapLoop_ent _ _ hun k, if_neg (by omega)]
          exact hsame.entry k
      · simp only [ne_eq, not_true_eq_false, if_false] at hu
        have hp₁ : Function.update (Function.update pts p (some (old.set 0 (vpn 0 i)
            (cowEntry (old.ent 0 (vpn 0 i)))))) c (some new₂) p =
            some (old.set 0 (vpn 0 i) (cowEntry (old.ent 0 (vpn 0 i)))) := by
          rw [Function.update_of_ne hpc, Function.update_self]
        have hold : ∀ y, read (refcadd km₂ (PTE2PA (old.ent 0 (vpn 0 i)))).mem
            (some (old.set 0 (vpn 0 i) (cowEntry (old.ent 0 (vpn 0 i))))) y =
            read km.mem (some old) y := fun y => by
          have := hR.others p hpc y
          rwa [Function.update_self, hp] at this
        have hrest := Inv.uvmcopyLoop hpc own m (i + 4096) hR.inv hp₁
          (Function.update_self ..) (by omega) (fun y hy => hown y (by omega))
          (fun y => by rw [hR.child y, hold y]) hu
        refine ⟨?_, fun q hqc y => ?_, ?_, fun k hk => ?_⟩
        · have := hrest.inv
          rwa [update_pair hpc] at this
        · have hlater := hrest.others q hqc y
          rw [Function.update_of_ne hqc, hR.others q hqc y] at hlater
          rw [← hlater]
          by_cases hqp : q = p
          · subst hqp
            rw [Function.update_self, Function.update_self]
          · rw [Function.update_of_ne hqp, Function.update_of_ne hqp,
              Function.update_of_ne hqc, Function.update_of_ne hqp]
        · rcases hrest.child with ⟨rfl, hch⟩ | hfail
          · refine .inl ⟨rfl, fun y => ?_⟩
            rw [hch y]
            by_cases hy : y / 4096 < i / 4096 + (m + 1)
            · rw [if_pos (by omega), if_pos hy]
              exact hold y
            · rw [if_neg (by omega), if_neg hy]
          · exact .inr hfail
        · have hki : k ≠ vpn 0 i := by
            rw [vpn_zero]
            omega
          obtain ⟨hv₁, hent₁⟩ := hR.kept k hki
          obtain ⟨hv₂, hent₂⟩ := hrest.kept k (by omega)
          exact ⟨hv₂.trans hv₁, fun hv => (hent₂ (hv₁.trans hv)).trans (hent₁ hv)⟩

/-- **The child's entries** after a `uvmcopy` that succeeds: the parent's, marked. -/
theorem Inv.uvmcopyLoop_child (hpc : p ≠ c) : ∀ (m i : Nat) {km km' : Kmem}
    {pts : Tables n} {old new old' new' : PageTable},
    Inv kend km pts kern → pts p = some old → pts c = some new → i % 4096 = 0 →
    (∀ y, read km.mem (some new) y =
      if y / 4096 < i / 4096 then read km.mem (some old) y else none) →
    (∀ k, (new.ent 0 k).v = true → Marked (old.ent 0 k) (new.ent 0 k)) →
    Cow.uvmcopyLoop kend km old new i m = .ok (km', old', new', 0) →
    ∀ k, (new'.ent 0 k).v = true → Marked (old.ent 0 k) (new'.ent 0 k) := by
  intro m
  induction m with
  | zero =>
      intro i km km' pts old new old' new' _ _ _ _ _ hmarked hu
      simp only [Cow.uvmcopyLoop, Except.ok.injEq, Prod.mk.injEq] at hu
      obtain ⟨-, -, rfl, -⟩ := hu
      exact hmarked
  | succ m ih =>
      intro i km km' pts old new old' new' h hp hc hi hdone hmarked hu
      simp only [Cow.uvmcopyLoop] at hu
      split at hu
      · cases hu
      · cases hu
      rename_i k hw
      obtain ⟨-, -, -, hl⟩ := walk_false_ok hw
      obtain rfl : k = vpn 0 i := (lookup_eq_some.mp hl.symm).2.2
      split at hu
      · cases hu
      rename_i hnv
      obtain ⟨km₂, new₂, ret₂, hmap, hround⟩ :=
        h.uvmcopyRound hpc hp hc hi (by simpa using hnv) rfl hdone
      rw [hmap] at hu
      rcases hround with ⟨rfl, -, -⟩ | ⟨rfl, hR⟩
      · simp only [ne_eq, show (-1 : Int) ≠ 0 by decide, not_false_eq_true, if_true] at hu
        split at hu
        · cases hu
        · simp only [Except.ok.injEq, Prod.mk.injEq] at hu
          exact absurd hu.2.2.2 (by decide)
      simp only [ne_eq, not_true_eq_false, if_false] at hu
      have hrights := fun k => (kept_set_cowEntry old (vpn 0 i) k).sameRights
      have hmarked₂ : ∀ k, (new₂.ent 0 k).v = true →
          Marked (old.ent 0 k) (new₂.ent 0 k) := by
        intro k hvk
        by_cases hki : k = vpn 0 i
        · rw [hki]
          exact hR.given
        · obtain ⟨hvk', hsame⟩ := hR.kept k hki
          rw [hvk'] at hvk
          rw [hsame hvk]
          exact hmarked k hvk
      have hold : ∀ y, read (refcadd km₂ (PTE2PA (old.ent 0 (vpn 0 i)))).mem
          (some (old.set 0 (vpn 0 i) (cowEntry (old.ent 0 (vpn 0 i))))) y =
          read km.mem (some old) y := fun y => by
        have := hR.others p hpc y
        rwa [Function.update_self, hp] at this
      have hrest := ih (i + 4096) hR.inv
        (by rw [Function.update_of_ne hpc, Function.update_self])
        (Function.update_self ..) (by omega) (fun y => by rw [hR.child y, hold y])
        (fun k hvk => (hrights k).symm.marked (hmarked₂ k hvk)) hu
      exact fun k hvk => (hrights k).marked (hrest k hvk)

end Xv6Labs.Cow
