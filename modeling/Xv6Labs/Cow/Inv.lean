import Xv6Labs.Cow.Vm
import Xv6Labs.Lib.Count
import Mathlib.Algebra.Order.BigOperators.Group.Finset
import Mathlib.Data.Fintype.Basic

/-!
# The sharing invariant

The invariant that carries copy-on-write, over all page tables at once:

- the allocator's ledger counts exactly the user entries and the kernel's own
  references (`Inv.ledger`);
- a frame that two entries map is marked `PTE_COW` and not `PTE_W` in both
  (`Shape.shared`);
- a page the kernel holds, page-table pages included, is held once and mapped
  by no user entry (`Shape.kernel`).

Every operation is made of two moves on the tables, a new table page
(`newTable_wf`, `newTable_sameUser`) and a write of one user entry
(`Shape.set`), and of the allocator's own steps.
-/

namespace Xv6Labs.Cow

open Xv6Labs.Lib

variable {n : Nat}

/-- The page tables of the process slots; `none` is an unused slot. -/
abbrev Tables (n : Nat) := Fin n → Option PageTable

/-! ## Counting references -/

def userHits (pa : Nat) : Option PageTable → Nat
  | none => 0
  | some pt => hits (entries 0) (fun k => (pt.ent 0 k).frame) pa

def tableHits (pa : Nat) : Option PageTable → Nat
  | none => 0
  | some pt => pt.tables.count pa

def userRefs (pts : Tables n) (pa : Nat) : Nat := ∑ p, userHits pa (pts p)

/-- Kernel references to `pa`: page-table pages, and what other kernel owners
hold. -/
def kernRefs (pts : Tables n) (kern : List Nat) (pa : Nat) : Nat :=
  (∑ p, tableHits pa (pts p)) + kern.count pa

def refs (pts : Tables n) (kern : List Nat) (pa : Nat) : Nat :=
  userRefs pts pa + kernRefs pts kern pa

theorem userRefs_update (pts : Tables n) (p : Fin n) (o : Option PageTable)
    (pa : Nat) :
    userRefs (Function.update pts p o) pa + userHits pa (pts p) =
      userRefs pts pa + userHits pa o :=
  sum_update_add (userHits pa) pts p o

theorem kernRefs_update (pts : Tables n) (kern : List Nat) (p : Fin n)
    (o : Option PageTable) (pa : Nat) :
    kernRefs (Function.update pts p o) kern pa + tableHits pa (pts p) =
      kernRefs pts kern pa + tableHits pa o := by
  have := sum_update_add (tableHits pa) pts p o
  unfold kernRefs
  omega

theorem userHits_set (pt : PageTable) {k : Nat} (hk : k < entries 0) (e : Pte)
    (pa : Nat) :
    userHits pa (some (pt.set 0 k e)) +
        (if (pt.ent 0 k).frame = some pa then 1 else 0) =
      userHits pa (some pt) + (if e.frame = some pa then 1 else 0) := by
  have hfun : (fun j => ((pt.set 0 k e).ent 0 j).frame) =
      Function.update (fun j => (pt.ent 0 j).frame) k e.frame := by
    funext j
    by_cases hj : j = k
    · subst hj
      simp
    · rw [Function.update_of_ne hj, pt.set_ent_of_ne e (fun h => hj h.2)]
  simp only [userHits]
  rw [hfun]
  exact hits_update hk (fun j => (pt.ent 0 j).frame) e.frame pa

theorem userRefs_set {pts : Tables n} {p : Fin n} {pt : PageTable} {k : Nat}
    (hp : pts p = some pt) (hk : k < entries 0) (e : Pte) (pa : Nat) :
    userRefs (Function.update pts p (some (pt.set 0 k e))) pa +
        (if (pt.ent 0 k).frame = some pa then 1 else 0) =
      userRefs pts pa + (if e.frame = some pa then 1 else 0) := by
  have h₁ := userRefs_update pts p (some (pt.set 0 k e)) pa
  have h₂ := userHits_set pt hk e pa
  rw [hp] at h₁
  omega

theorem kernRefs_set {pts : Tables n} {p : Fin n} {pt : PageTable}
    (hp : pts p = some pt) (kern : List Nat) (k : Nat) (e : Pte) (pa : Nat) :
    kernRefs (Function.update pts p (some (pt.set 0 k e))) kern pa =
      kernRefs pts kern pa := by
  have h := kernRefs_update pts kern p (some (pt.set 0 k e)) pa
  rw [hp] at h
  simp only [tableHits, PageTable.set_tables] at h
  omega

theorem refs_set {pts : Tables n} {p : Fin n} {pt : PageTable} {k : Nat}
    (hp : pts p = some pt) (hk : k < entries 0) (kern : List Nat) (e : Pte)
    (pa : Nat) :
    refs (Function.update pts p (some (pt.set 0 k e))) kern pa +
        (if (pt.ent 0 k).frame = some pa then 1 else 0) =
      refs pts kern pa + (if e.frame = some pa then 1 else 0) := by
  have h₁ := userRefs_set hp hk e pa
  have h₂ := kernRefs_set hp kern k e pa
  unfold refs
  omega

theorem userRefs_pos_of {pts : Tables n} {p : Fin n} {pt : PageTable} {k : Nat}
    (hp : pts p = some pt) (hk : k < entries 0) (hv : (pt.ent 0 k).v = true) :
    0 < userRefs pts (PTE2PA (pt.ent 0 k)) := by
  have hpos : 0 < userHits (PTE2PA (pt.ent 0 k)) (pts p) := by
    rw [hp]
    exact hits_pos_iff.mpr ⟨k, hk, Pte.frame_of_v hv⟩
  exact Nat.lt_of_lt_of_le hpos
    (Finset.single_le_sum (f := fun q => userHits (PTE2PA (pt.ent 0 k)) (pts q))
      (fun _ _ => Nat.zero_le _) (Finset.mem_univ p))

theorem ne_of_userRefs_zero {pts : Tables n} {p : Fin n} {pt : PageTable}
    {k x : Nat} (hp : pts p = some pt) (hk : k < entries 0)
    (hv : (pt.ent 0 k).v = true) (hx : userRefs pts x = 0) :
    PTE2PA (pt.ent 0 k) ≠ x := by
  intro h
  have := userRefs_pos_of hp hk hv
  rw [h] at this
  omega

/-! ## The invariant -/

/-- No entry below a missing table, no user entry beyond `MAXVA`. -/
structure WF (pt : PageTable) : Prop where
  path : ∀ level k, level < 2 → (pt.ent level k).v = true →
    (pt.ent (level + 1) (k / 512)).v = true
  bound : ∀ k, (pt.ent 0 k).v = true → k < entries 0

structure Shape (pts : Tables n) (kern : List Nat) : Prop where
  wf : ∀ p pt, pts p = some pt → WF pt
  shared : ∀ p q pt qt k l, pts p = some pt → pts q = some qt →
    (pt.ent 0 k).v = true → (qt.ent 0 l).v = true →
    PTE2PA (pt.ent 0 k) = PTE2PA (qt.ent 0 l) →
    (p = q ∧ k = l) ∨
      ((pt.ent 0 k).cow = true ∧ (pt.ent 0 k).w = false ∧
        (qt.ent 0 l).cow = true ∧ (qt.ent 0 l).w = false)
  kernel : ∀ pa, 0 < kernRefs pts kern pa → refs pts kern pa = 1

/-- The sharing invariant: the shape, and a ledger that counts it. -/
structure Inv (kend : Nat) (km : Kmem) (pts : Tables n) (kern : List Nat) : Prop
    extends Shape pts kern where
  ledger : Ledger kend km (refs pts kern)

/-- What a process reads at `va`: the byte behind the entry the page walk
finds. -/
def read (mem : Mem) (o : Option PageTable) (va : Nat) : Option UInt8 :=
  match o with
  | none => none
  | some pt =>
      match lookup pt va with
      | none => none
      | some k =>
          if (pt.ent 0 k).v then some (mem (PTE2PA (pt.ent 0 k) + va % 4096))
          else none

theorem WF.lookup {pt : PageTable} (h : WF pt) {va : Nat}
    (hv : (pt.ent 0 (vpn 0 va)).v = true) : lookup pt va = some (vpn 0 va) := by
  have h₁ := h.path 0 _ (by omega) hv
  have h₂ := h.path 1 _ (by omega) h₁
  rw [← vpn_succ] at h₁
  rw [← vpn_succ, ← vpn_succ] at h₂
  exact lookup_eq_some.mpr ⟨h₂, h₁, rfl⟩

theorem read_some {mem : Mem} {pt : PageTable} (h : WF pt) (va : Nat) :
    read mem (some pt) va =
      if (pt.ent 0 (vpn 0 va)).v then
        some (mem (PTE2PA (pt.ent 0 (vpn 0 va)) + va % 4096))
      else none := by
  unfold read
  simp only
  cases hv : (pt.ent 0 (vpn 0 va)).v with
  | true =>
      rw [h.lookup hv]
      simp [hv]
  | false =>
      cases hl : lookup pt va with
      | none => simp
      | some k =>
          obtain rfl : k = vpn 0 va := (lookup_eq_some.mp hl).2.2
          simp [hv]

section Frame

variable {kend : Nat} {km : Kmem} {pts : Tables n} {kern : List Nat}

theorem Inv.managed (h : Inv kend km pts kern) {p : Fin n} {pt : PageTable}
    {k : Nat} (hp : pts p = some pt) (hv : (pt.ent 0 k).v = true) :
    Managed kend (PTE2PA (pt.ent 0 k)) := by
  refine h.ledger.held _ ?_
  have := userRefs_pos_of hp ((h.wf p pt hp).bound k hv) hv
  unfold refs
  omega

theorem Inv.ne_of_free (h : Inv kend km pts kern) {p : Fin n} {pt : PageTable}
    {k x : Nat} (hp : pts p = some pt) (hv : (pt.ent 0 k).v = true)
    (hx : userRefs pts x = 0) : PTE2PA (pt.ent 0 k) ≠ x :=
  ne_of_userRefs_zero hp ((h.wf p pt hp).bound k hv) hv hx

theorem userRefs_of_refs {x : Nat} (h : refs pts kern x = 0) :
    userRefs pts x = 0 := by
  unfold refs at h
  omega

theorem Inv.read_frame (h : Inv kend km pts kern) {mem : Mem} {x : Nat}
    (hm : Managed kend x) (hx : userRefs pts x = 0)
    (hmem : ∀ y, ¬ (x ≤ y ∧ y < x + PGSIZE) → mem y = km.mem y) (q : Fin n)
    (va : Nat) : read mem (pts q) va = read km.mem (pts q) va := by
  cases hq : pts q with
  | none => rfl
  | some qt =>
      have hwf := h.wf q qt hq
      rw [read_some hwf, read_some hwf]
      split
      · rename_i hv
        congr 1
        refine hmem _ (fun hin => ?_)
        have hne := h.ne_of_free hq hv hx
        have hpa := h.managed hq hv
        refine hne (hpa.eq_of_mem hm (x := PTE2PA (qt.ent 0 (vpn 0 va)) + va % 4096)
          ⟨by omega, ?_⟩ hin)
        simp only [PGSIZE]
        omega
      · rfl

/-! ## Writing one user entry -/

/-- **The entry rule.** The new entry must lie in an existing table, share its
frame only under `PTE_COW`, and not map a kernel page. -/
theorem Shape.set {p : Fin n} {pt : PageTable} {k : Nat} {e : Pte}
    (h : Shape pts kern) (hp : pts p = some pt) (hk : k < entries 0)
    (hpath : e.v = true → (pt.ent 1 (k / 512)).v = true)
    (hshare : e.v = true → ∀ q qt l, pts q = some qt → (qt.ent 0 l).v = true →
      PTE2PA e = PTE2PA (qt.ent 0 l) → (q = p ∧ l = k) ∨
        (e.cow = true ∧ e.w = false ∧ (qt.ent 0 l).cow = true ∧
          (qt.ent 0 l).w = false))
    (hkern : e.v = true → kernRefs pts kern (PTE2PA e) = 0) :
    Shape (Function.update pts p (some (pt.set 0 k e))) kern := by
  -- an entry of the new tables is the new entry or one of the old ones
  have hent : ∀ q qt l, Function.update pts p (some (pt.set 0 k e)) q = some qt →
      (qt.ent 0 l).v = true →
      (q = p ∧ l = k ∧ qt.ent 0 l = e) ∨
        (¬ (q = p ∧ l = k) ∧ ∃ ot, pts q = some ot ∧ qt.ent 0 l = ot.ent 0 l) := by
    intro q qt l hq hv
    by_cases hqp : q = p
    · subst hqp
      rw [Function.update_self] at hq
      obtain rfl := Option.some.inj hq
      by_cases hl : l = k
      · subst hl
        exact .inl ⟨rfl, rfl, by simp⟩
      · exact .inr ⟨fun hh => hl hh.2, pt, hp, pt.set_ent_of_ne e (fun hh => hl hh.2)⟩
    · rw [Function.update_of_ne hqp] at hq
      exact .inr ⟨fun hh => hqp hh.1, qt, hq, rfl⟩
  refine ⟨?_, ?_, ?_⟩
  · intro q qt hq
    by_cases hqp : q = p
    · subst hqp
      rw [Function.update_self] at hq
      obtain rfl := Option.some.inj hq
      have hwf := h.wf q pt hp
      refine ⟨?_, ?_⟩
      · intro level j hlevel hv
        rw [PageTable.set_ent_other_level _ _ _ _ (by omega : level + 1 ≠ 0)]
        by_cases hj : level = 0 ∧ j = k
        · obtain ⟨rfl, rfl⟩ := hj
          rw [PageTable.set_ent_self] at hv
          exact hpath hv
        · rw [pt.set_ent_of_ne e hj] at hv
          exact hwf.path level j hlevel hv
      · intro j hv
        by_cases hj : j = k
        · rw [hj]; exact hk
        · rw [pt.set_ent_of_ne e (fun hh => hj hh.2)] at hv
          exact hwf.bound j hv
    · rw [Function.update_of_ne hqp] at hq
      exact h.wf q qt hq
  · intro q r qt rt l m hq hr hvl hvm heq
    rcases hent q qt l hq hvl with ⟨rfl, rfl, he⟩ | ⟨hne, ot, ho, he⟩
    · rcases hent r rt m hr hvm with ⟨rfl, rfl, -⟩ | ⟨-, ot, ho, he'⟩
      · exact .inl ⟨rfl, rfl⟩
      · rw [he] at hvl heq ⊢
        rw [he'] at hvm heq ⊢
        rcases hshare hvl r ot m ho hvm heq with ⟨rfl, rfl⟩ | hc
        · exact .inl ⟨rfl, rfl⟩
        · exact .inr hc
    · rcases hent r rt m hr hvm with ⟨rfl, rfl, he'⟩ | ⟨-, ot', ho', he'⟩
      · rw [he] at hvl heq ⊢
        rw [he'] at hvm heq ⊢
        rcases hshare hvm q ot l ho hvl heq.symm with ⟨rfl, rfl⟩ | ⟨h1, h2, h3, h4⟩
        · exact .inl ⟨rfl, rfl⟩
        · exact .inr ⟨h3, h4, h1, h2⟩
      · rw [he] at hvl heq ⊢
        rw [he'] at hvm heq ⊢
        exact h.shared q r ot ot' l m ho ho' hvl hvm heq
  · intro pa hpos
    rw [kernRefs_set hp] at hpos
    have hone := h.kernel pa hpos
    have hmove := refs_set hp hk kern e pa
    have hold : ¬ (pt.ent 0 k).frame = some pa := by
      intro hf
      obtain ⟨hv, hpa⟩ := Pte.frame_eq_some.mp hf
      have := userRefs_pos_of hp hk hv
      rw [hpa] at this
      unfold refs at hone
      omega
    have hnew : ¬ e.frame = some pa := by
      intro hf
      obtain ⟨hv, hpa⟩ := Pte.frame_eq_some.mp hf
      have := hkern hv
      rw [hpa] at this
      omega
    rw [if_neg hold, if_neg hnew] at hmove
    omega

/-! ## Allocating a table page -/

structure SameUser (pt pt' : PageTable) : Prop where
  keep : ∀ k, (pt.ent 0 k).v = true → pt'.ent 0 k = pt.ent 0 k
  only : ∀ k, (pt'.ent 0 k).v = true → (pt.ent 0 k).v = true

theorem SameUser.entry {pt pt' : PageTable} (h : SameUser pt pt') (k : Nat) :
    (pt'.ent 0 k).v = (pt.ent 0 k).v ∧
      ((pt.ent 0 k).v = true → pt'.ent 0 k = pt.ent 0 k) := by
  refine ⟨?_, h.keep k⟩
  cases hvk : (pt.ent 0 k).v with
  | true => rw [h.keep k hvk, hvk]
  | false =>
      by_contra hne
      have := h.only k (by simpa using hne)
      rw [hvk] at this
      cases this

theorem SameUser.refl (pt : PageTable) : SameUser pt pt :=
  ⟨fun _ _ => rfl, fun _ h => h⟩

theorem SameUser.trans {pt pt' pt'' : PageTable} (h : SameUser pt pt')
    (h' : SameUser pt' pt'') : SameUser pt pt'' := by
  refine ⟨fun k hv => ?_, fun k hv => h.only k (h'.only k hv)⟩
  have hk := h.keep k hv
  rw [h'.keep k (by rw [hk]; exact hv), hk]

theorem SameUser.frame {pt pt' : PageTable} (h : SameUser pt pt') (k : Nat) :
    (pt'.ent 0 k).frame = (pt.ent 0 k).frame := by
  by_cases hv : (pt.ent 0 k).v = true
  · rw [h.keep k hv]
  · have hv' : (pt'.ent 0 k).v ≠ true := fun hh => hv (h.only k hh)
    simp [Pte.frame, hv, hv']

theorem SameUser.userHits {pt pt' : PageTable} (h : SameUser pt pt') (pa : Nat) :
    userHits pa (some pt') = userHits pa (some pt) :=
  hits_congr (fun k _ => h.frame k) pa

theorem SameUser.read {pt pt' : PageTable} (h : SameUser pt pt') (hwf : WF pt)
    (hwf' : WF pt') (mem : Mem) (va : Nat) :
    read mem (some pt') va = read mem (some pt) va := by
  rw [read_some hwf, read_some hwf']
  by_cases hv : (pt.ent 0 (vpn 0 va)).v = true
  · rw [h.keep _ hv]
  · rw [if_neg hv, if_neg (fun hh => hv (h.only _ hh))]

/-- A new table hangs below an invalid entry, so by the path invariant nothing
valid is cleared. -/
theorem newTable_sameUser {pt : PageTable} (hwf : WF pt) {level k r : Nat}
    (hlevel : level = 1 ∨ level = 2) (hinv : (pt.ent level k).v = false)
    (flags : Flags) : SameUser pt (pt.newTable level k r flags) := by
  have hne : ∀ j, ¬ (0 = level ∧ j = k) := fun j hh => by omega
  refine ⟨fun j hv => ?_, fun j hv => ?_⟩
  · refine pt.newTable_ent_of_ne flags (hne j) (fun hh => ?_)
    have := hwf.path 0 j (by omega) hv
    rw [hh.1, hh.2, hinv] at this
    exact absurd this (by simp)
  · by_cases hb : 0 + 1 = level ∧ j / 512 = k
    · rw [pt.newTable_ent_below flags hb.1 hb.2] at hv
      exact absurd hv (by simp [Pte.zero])
    · rwa [pt.newTable_ent_of_ne flags (hne j) hb] at hv

theorem newTable_wf {pt : PageTable} (hwf : WF pt) {level va r : Nat}
    (hlevel : level = 1 ∨ level = 2)
    (habove : level = 1 → (pt.ent 2 (vpn 2 va)).v = true)
    (hinv : (pt.ent level (vpn level va)).v = false) {flags : Flags}
    (hflags : flags.v = true) :
    WF (pt.newTable level (vpn level va) r flags) := by
  have hsame := newTable_sameUser hwf (r := r) hlevel hinv flags
  refine ⟨?_, fun k hv => hwf.bound k (hsame.only k hv)⟩
  intro l j hl hv
  have hup : ∀ i, (pt.ent (l + 1) i).v = true →
      ((pt.newTable level (vpn level va) r flags).ent (l + 1) i).v = true := by
    intro i hi
    by_cases h₁ : l + 1 = level ∧ i = vpn level va
    · rw [h₁.1, h₁.2, pt.newTable_ent_self]
      exact hflags
    · by_cases h₂ : l + 1 + 1 = level ∧ i / 512 = vpn level va
      · have := hwf.path (l + 1) i (by omega) hi
        rw [h₂.1, h₂.2, hinv] at this
        exact absurd this (by simp)
      · rwa [pt.newTable_ent_of_ne flags h₁ h₂]
  by_cases h₁ : l = level ∧ j = vpn level va
  · -- the new entry itself: its parent was found by the level above
    obtain ⟨rfl, rfl⟩ := h₁
    have hl1 : l = 1 := by omega
    subst hl1
    refine hup _ ?_
    rw [← vpn_succ]
    exact habove rfl
  · by_cases h₂ : l + 1 = level ∧ j / 512 = vpn level va
    · rw [pt.newTable_ent_below flags h₂.1 h₂.2] at hv
      exact absurd hv (by simp [Pte.zero])
    · rw [pt.newTable_ent_of_ne flags h₁ h₂] at hv
      exact hup _ (hwf.path l j hl hv)

end Frame

end Xv6Labs.Cow
