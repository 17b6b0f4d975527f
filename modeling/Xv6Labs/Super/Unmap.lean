import Xv6Labs.Super.Space
import Mathlib.Data.List.Intervals
import Mathlib.Order.Interval.Finset.Nat

/-!
# Unmapping a range

`Layout pt N` says that the user pages are the first `N` ones. On such an
address space `uvmunmap` of the top pages, from a page that is not inside a
superpage, ends without a panic and gives every frame back (`Space.uvmdealloc`),
and so does `proc_freepagetable` (`Space.proc_freepagetable`).
-/

namespace Xv6Labs.Super

open Xv6Labs.Lib

/-! ## Layouts -/

/-- The user pages are the first `N`; above them only the trampoline, the
trapframe and the page of `usyscall` are mapped. -/
def Layout (pt : PageTable) (N : Nat) : Prop :=
  ∀ q, (seen pt q).isSome = true ↔ q < N ∨ UPAGES ≤ q ∧ q < UPAGES + 3

/-- Page `q` does not lie strictly inside a superpage. -/
def OnBoundary (pt : PageTable) (q : Nat) : Prop :=
  superAt pt (q / 512) = true → q % 512 = 0

instance (pt : PageTable) (q : Nat) : Decidable (OnBoundary pt q) :=
  inferInstanceAs (Decidable (_ → _))

def smallPages (pt : PageTable) (lo hi : Nat) : Nat :=
  ((Finset.Ico lo hi).filter (fun q => superAt pt (q / 512) = false)).card

variable {kend : Nat} {k k' : Kernel} {pt pt' : PageTable} {N : Nat}

theorem UPAGES_eq : UPAGES = 67108861 := by decide

theorem seen_super {q : Nat} (h : superAt pt (q / 512) = true) :
    seen pt q = some (1, pt.ent 1 (q / 512)) := if_pos h

theorem superAt_eq_seen (pt : PageTable) (q : Nat) :
    superAt pt (q / 512) = decide ((seen pt q).map Prod.fst = some 1) := by
  unfold seen
  cases hs : superAt pt (q / 512) with
  | true => simp
  | false =>
      cases (pt.ent 0 q).v with
      | true => simp
      | false => simp

theorem superAt_congr {q : Nat} (h : seen pt' q = seen pt q) :
    superAt pt' (q / 512) = superAt pt (q / 512) := by
  rw [superAt_eq_seen, superAt_eq_seen, h]

theorem Layout.super_le (h : Layout pt N) (hN : N ≤ 262144) {j : Nat}
    (hs : superAt pt j = true) : j * 512 + 512 ≤ N := by
  have hpage : ∀ q, q / 512 = j → q < N ∨ UPAGES ≤ q ∧ q < UPAGES + 3 := by
    intro q hq
    refine (h q).mp ?_
    rw [seen_super (by rw [hq]; exact hs)]
    rfl
  have h₁ := hpage (j * 512) (by omega)
  have h₂ := hpage (j * 512 + 511) (by omega)
  rw [UPAGES_eq] at h₁ h₂
  omega

theorem Layout.onBoundary (h : Layout pt N) (hN : N ≤ 262144) : OnBoundary pt N := by
  intro hs
  have := h.super_le hN hs
  omega

theorem Space.layout_le (h : Space kend k pt) (hL : Layout pt N) : N ≤ 32768 :=
  h.pages_le (fun q hq => (hL q).mpr (.inl hq))

theorem Layout.table_of_mod (h : Space kend k pt) (hL : Layout pt N)
    (hmod : N % 512 ≠ 0) : tableAt pt (N / 512) = true := by
  have hN := h.layout_le hL
  obtain ⟨e, he⟩ := Option.isSome_iff_exists.mp ((hL (N - 1)).mpr (.inl (by omega)))
  have hslot : (N - 1) / 512 = N / 512 := by omega
  have hs : superAt pt ((N - 1) / 512) = false := by
    by_contra hne
    have := hL.super_le (by omega) (by simpa using hne)
    omega
  unfold seen at he
  rw [hs] at he
  simp only [Bool.false_eq_true, if_false] at he
  split at he
  · rename_i hv
    rw [← hslot]
    exact (h.bot _ hv).1
  · cases he

/-! ## The loop of `uvmunmap` -/

/-- What unmapping the pages `[lo, hi)` changes, and all it changes. -/
structure Unmapped (kend : Nat) (k : Kernel) (pt : PageTable) (k' : Kernel)
    (pt' : PageTable) (lo hi : Nat) : Prop where
  space : Space kend k' pt'
  seen : ∀ q, seen pt' q = if lo ≤ q ∧ q < hi then none else seen pt q
  table : ∀ j, tableAt pt' j = tableAt pt j
  free : k'.freelist.length = k.freelist.length + smallPages pt lo hi
  kept : ∀ va, ¬ (lo ≤ va / 4096 ∧ va / 4096 < hi) → va / 4096 < UPAGES →
    read k'.mem pt' va = read k.mem pt va

theorem smallPages_of_le {lo hi : Nat} (h : hi ≤ lo) : smallPages pt lo hi = 0 := by
  unfold smallPages
  rw [Finset.Ico_eq_empty_of_le h]
  rfl

theorem smallPages_split (pt : PageTable) {lo mid hi : Nat} (h₁ : lo ≤ mid) (h₂ : mid ≤ hi) :
    smallPages pt lo hi = smallPages pt lo mid + smallPages pt mid hi := by
  unfold smallPages
  rw [← Finset.Ico_union_Ico_eq_Ico h₁ h₂, Finset.filter_union,
    Finset.card_union_of_disjoint]
  exact Finset.disjoint_filter_filter (Finset.Ico_disjoint_Ico_consecutive lo mid hi)

theorem smallPages_congr {lo hi : Nat}
    (h : ∀ q, lo ≤ q → q < hi → superAt pt' (q / 512) = superAt pt (q / 512)) :
    smallPages pt' lo hi = smallPages pt lo hi := by
  unfold smallPages
  congr 1
  refine Finset.filter_congr (fun q hq => ?_)
  rw [Finset.mem_Ico] at hq
  rw [h q hq.1 hq.2]

theorem smallPages_one {q : Nat} (h : superAt pt (q / 512) = false) :
    smallPages pt q (q + 1) = 1 := by
  unfold smallPages
  rw [Nat.Ico_succ_singleton, Finset.filter_singleton, if_pos h]
  rfl

theorem smallPages_slot {j : Nat} (h : superAt pt j = true) :
    smallPages pt (j * 512) (j * 512 + 512) = 0 := by
  unfold smallPages
  rw [Finset.card_eq_zero, Finset.filter_eq_empty_iff]
  intro q hq
  rw [Finset.mem_Ico] at hq
  rw [show q / 512 = j by omega, h]
  simp

/-! ## Frames of a range -/

def smallFrame (pt : PageTable) (q : Nat) : Option Nat :=
  (seen pt q).bind (fun e => if e.1 = 0 then some (PTE2PA e.2) else none)

def superFrame (pt : PageTable) (q : Nat) : Option Nat :=
  if q % 512 = 0 then
    (seen pt q).bind (fun e => if e.1 = 0 then none else some (PTE2PA e.2))
  else none

def smallFrames (pt : PageTable) (lo hi : Nat) : List Nat :=
  (List.Ico lo hi).filterMap (smallFrame pt)

def superFrames (pt : PageTable) (lo hi : Nat) : List Nat :=
  (List.Ico lo hi).filterMap (superFrame pt)

theorem filterMap_Ico_split (f : Nat → Option Nat) {lo mid hi : Nat} (h₁ : lo ≤ mid)
    (h₂ : mid ≤ hi) : (List.Ico lo hi).filterMap f =
      (List.Ico lo mid).filterMap f ++ (List.Ico mid hi).filterMap f := by
  rw [← List.Ico.append_consecutive h₁ h₂, List.filterMap_append]

theorem filterMap_Ico_congr {f g : Nat → Option Nat} {lo hi : Nat}
    (h : ∀ q, lo ≤ q → q < hi → f q = g q) :
    (List.Ico lo hi).filterMap f = (List.Ico lo hi).filterMap g :=
  List.filterMap_congr (fun q hq => by
    rw [List.Ico.mem] at hq
    exact h q hq.1 hq.2)

theorem smallFrame_congr {q : Nat} (h : seen pt' q = seen pt q) :
    smallFrame pt' q = smallFrame pt q := by
  unfold smallFrame
  rw [h]

theorem superFrame_congr {q : Nat} (h : seen pt' q = seen pt q) :
    superFrame pt' q = superFrame pt q := by
  unfold superFrame
  rw [h]

theorem smallFrames_congr {lo hi : Nat}
    (h : ∀ q, lo ≤ q → q < hi → seen pt' q = seen pt q) :
    smallFrames pt' lo hi = smallFrames pt lo hi :=
  filterMap_Ico_congr (fun q h₁ h₂ => smallFrame_congr (h q h₁ h₂))

theorem superFrames_congr {lo hi : Nat}
    (h : ∀ q, lo ≤ q → q < hi → seen pt' q = seen pt q) :
    superFrames pt' lo hi = superFrames pt lo hi :=
  filterMap_Ico_congr (fun q h₁ h₂ => superFrame_congr (h q h₁ h₂))

theorem frames_page {q : Nat} {e : Pte} (h : seen pt q = some (0, e)) :
    smallFrames pt q (q + 1) = [PTE2PA e] ∧ superFrames pt q (q + 1) = [] := by
  unfold smallFrames superFrames smallFrame superFrame
  rw [List.Ico.succ_singleton]
  simp [h]

theorem frames_slot {j : Nat} {e : Pte}
    (h : ∀ q, q / 512 = j → seen pt q = some (1, e)) :
    smallFrames pt (j * 512) (j * 512 + 512) = [] ∧
      superFrames pt (j * 512) (j * 512 + 512) = [PTE2PA e] := by
  refine ⟨?_, ?_⟩
  · unfold smallFrames
    rw [List.filterMap_eq_nil_iff]
    intro q hq
    rw [List.Ico.mem] at hq
    unfold smallFrame
    rw [h q (by omega)]
    rfl
  · unfold superFrames
    rw [filterMap_Ico_split _ (show j * 512 ≤ j * 512 + 1 by omega) (by omega),
      List.Ico.succ_singleton]
    have hfirst : superFrame pt (j * 512) = some (PTE2PA e) := by
      unfold superFrame
      rw [if_pos (by omega), h _ (by omega)]
      rfl
    have hrest : (List.Ico (j * 512 + 1) (j * 512 + 512)).filterMap (superFrame pt) = [] := by
      rw [List.filterMap_eq_nil_iff]
      intro q hq
      rw [List.Ico.mem] at hq
      exact if_neg (by omega)
    rw [hrest]
    simp [hfirst]

theorem mem_smallFrames {lo hi f : Nat} : f ∈ smallFrames pt lo hi ↔
    ∃ q e, lo ≤ q ∧ q < hi ∧ seen pt q = some (0, e) ∧ PTE2PA e = f := by
  unfold smallFrames smallFrame
  simp only [List.mem_filterMap, List.Ico.mem, Option.bind_eq_some_iff]
  constructor
  · rintro ⟨q, ⟨h₁, h₂⟩, ⟨l, e⟩, hs, hf⟩
    simp only [Option.ite_none_right_eq_some, Option.some.injEq] at hf
    obtain ⟨rfl, hf⟩ := hf
    exact ⟨q, e, h₁, h₂, hs, hf⟩
  · rintro ⟨q, e, h₁, h₂, hs, hf⟩
    exact ⟨q, ⟨h₁, h₂⟩, (0, e), hs, by simp [hf]⟩

/-- `Unmapped`, and where the frames went: onto the free list of their kind, and
only their bytes changed. -/
structure Freed (kend : Nat) (k : Kernel) (pt : PageTable) (k' : Kernel)
    (pt' : PageTable) (lo hi : Nat) : Prop extends Unmapped kend k pt k' pt' lo hi where
  small : k'.freelist.Perm (smallFrames pt lo hi ++ k.freelist)
  super : k'.superfreelist.Perm (superFrames pt lo hi ++ k.superfreelist)
  tables : pt'.tables = pt.tables
  mem : ∀ x, (∀ f ∈ smallFrames pt lo hi, ¬ (f ≤ x ∧ x < f + PGSIZE)) →
    (∀ f ∈ superFrames pt lo hi, ¬ (f ≤ x ∧ x < f + SUPERPGSIZE)) → k'.mem x = k.mem x

theorem Space.freed_nothing (h : Space kend k pt) {lo hi : Nat} (hle : hi ≤ lo) :
    Freed kend k pt k pt lo hi := by
  have hnil : List.Ico lo hi = [] := List.Ico.eq_nil_of_le hle
  refine ⟨⟨h, fun q => by rw [if_neg (by omega)], fun _ => rfl,
    by rw [smallPages_of_le hle]; rfl, fun _ _ _ => rfl⟩, ?_, ?_, rfl, fun _ _ _ => rfl⟩
  · unfold smallFrames
    rw [hnil]
    exact List.Perm.refl _
  · unfold superFrames
    rw [hnil]
    exact List.Perm.refl _

theorem flags_ne_of_leaf {pte : Pte} (h : pte.leaf = true) :
    pte.toFlags ≠ { v := true } := by
  intro heq
  have : pte.leaf = false := by
    unfold Pte.leaf
    rw [heq]
    rfl
  rw [this] at h
  cases h

theorem Freed.trans {k₁ : Kernel} {pt₁ : PageTable} {lo mid hi : Nat}
    (h₁ : Freed kend k pt k₁ pt₁ lo mid) (h₂ : Freed kend k₁ pt₁ k' pt' mid hi)
    (hlo : lo ≤ mid) (hhi : mid ≤ hi) : Freed kend k pt k' pt' lo hi := by
  have hseen : ∀ q, mid ≤ q → q < hi → Super.seen pt₁ q = Super.seen pt q :=
    fun q hq _ => by rw [h₁.seen, if_neg (by omega)]
  have hsmall := smallFrames_congr hseen
  have hsuper := superFrames_congr hseen
  have hsplit : smallFrames pt lo hi = smallFrames pt lo mid ++ smallFrames pt mid hi :=
    filterMap_Ico_split _ hlo hhi
  have hsplit' : superFrames pt lo hi = superFrames pt lo mid ++ superFrames pt mid hi :=
    filterMap_Ico_split _ hlo hhi
  refine ⟨⟨h₂.space, fun q => ?_, fun j => (h₂.table j).trans (h₁.table j), ?_,
    fun va hne hva => ?_⟩, ?_, ?_, h₂.tables.trans h₁.tables, fun x hx hx' => ?_⟩
  · rw [h₂.seen, h₁.seen]
    split_ifs <;> first | rfl | omega
  · rw [h₂.free, h₁.free, smallPages_split pt hlo hhi,
      smallPages_congr (fun q hq hq' => superAt_congr (hseen q hq hq'))]
    omega
  · rw [h₂.kept va (by omega) hva, h₁.kept va (by omega) hva]
  · refine h₂.small.trans ?_
    rw [hsmall, hsplit, List.append_assoc]
    exact (h₁.small.append_left _).trans (List.perm_append_comm_assoc ..)
  · refine h₂.super.trans ?_
    rw [hsuper, hsplit', List.append_assoc]
    exact (h₁.super.append_left _).trans (List.perm_append_comm_assoc ..)
  · rw [hsplit] at hx
    rw [hsplit'] at hx'
    rw [h₂.mem x, h₁.mem x]
    · exact fun f hf => hx f (List.mem_append_left _ hf)
    · exact fun f hf => hx' f (List.mem_append_left _ hf)
    · rw [hsmall]
      exact fun f hf => hx f (List.mem_append_right _ hf)
    · rw [hsuper]
      exact fun f hf => hx' f (List.mem_append_right _ hf)

theorem kfree_eq {pa : Nat} (h : kfree kend k pa = .ok k') :
    k' = { k with mem := k.mem.fill pa PGSIZE 1, freelist := pa :: k.freelist } := by
  unfold kfree at h
  split at h
  · cases h
  · exact (Except.ok.inj h).symm

theorem superkfree_eq {pa : Nat} (h : superkfree kend k pa = .ok k') :
    k' = { k with
      mem := k.mem.fill pa SUPERPGSIZE 1
      superfreelist := pa :: k.superfreelist } := by
  unfold superkfree at h
  split at h
  · cases h
  split at h
  · cases h
  split at h
  · cases h
  · exact (Except.ok.inj h).symm

theorem Space.freeSmall (h : Space kend k pt) {q : Nat} (hq : q < UPAGES)
    (hv : (pt.ent 0 q).v = true) :
    ∃ k', kfree kend k (PTE2PA (pt.ent 0 q)) = .ok k' ∧
      Freed kend k pt k' (pt.set 0 q .zero) q (q + 1) := by
  obtain ⟨k', hfree, hS, hseen, htab, hfl, -, hkept⟩ := h.unmapSmall hq hv
  have hk := kfree_eq hfree
  have hq₀ := seen_small h.toTree hv
  have hs : superAt pt (q / 512) = false := by
    rw [superAt_eq_seen, hq₀]
    rfl
  obtain ⟨hsmall, hsuper⟩ := frames_page hq₀
  refine ⟨k', hfree, ⟨hS, fun q' => ?_, htab, ?_, fun va hne hva => ?_⟩, ?_, ?_, rfl,
    fun x hx _ => ?_⟩
  · rw [hseen]
    by_cases hqq : q' = q
    · rw [if_pos hqq, if_pos (by omega)]
    · rw [if_neg hqq, if_neg (by omega)]
  · rw [hfl, smallPages_one hs]
  · exact hkept va (by omega) hva
  · rw [hsmall, hk]
    exact List.Perm.refl _
  · rw [hsuper, hk]
    exact List.Perm.refl _
  · rw [hsmall] at hx
    rw [hk]
    exact Mem.fill_of_notMem (hx _ List.mem_cons_self)

theorem Space.freeSuper (h : Space kend k pt) {j : Nat} (hs : superAt pt j = true)
    (hup : j * 512 + 512 ≤ UPAGES) :
    ∃ k', superkfree kend k (PTE2PA (pt.ent 1 j)) = .ok k' ∧
      Freed kend k pt k' (pt.set 1 j .zero) (j * 512) (j * 512 + 512) := by
  obtain ⟨k', hfree, hS, hseen, htab, hfl, hkept⟩ := h.unmapSuper hs hup
  have hk := superkfree_eq hfree
  obtain ⟨hsmall, hsuper⟩ := frames_slot (fun q hq => by
    rw [seen_super (by rw [hq]; exact hs), hq])
  refine ⟨k', hfree, ⟨hS, fun q => ?_, htab, ?_, fun va hne hva => ?_⟩, ?_, ?_, rfl,
    fun x _ hx => ?_⟩
  · rw [hseen]
    by_cases hq : q / 512 = j
    · rw [if_pos hq, if_pos (by omega)]
    · rw [if_neg hq, if_neg (by omega)]
  · rw [hfl, smallPages_slot hs]
    rfl
  · exact hkept va (by omega) hva
  · rw [hsmall, hk]
    exact List.Perm.refl _
  · rw [hsuper, hk]
    exact List.Perm.refl _
  · rw [hsuper] at hx
    rw [hk]
    exact Mem.fill_of_notMem (hx _ List.mem_cons_self)

/-- **The loop of `uvmunmap`** over `[lo, hi)`, a range of mapped pages that cuts
no superpage: one page or one superpage a round, and on from `hi`. -/
theorem Space.uvmunmapLoop_through (fuel : Nat) : ∀ {k : Kernel} {pt : PageTable}
    (lo hi last : Nat), Space kend k pt →
    (∀ q, lo ≤ q → q < hi → (Super.seen pt q).isSome = true) →
    (lo < hi → OnBoundary pt lo) →
    (∀ j, superAt pt j = true → j * 512 < hi → j * 512 + 512 ≤ hi) →
    hi ≤ UPAGES → lo ≤ hi → hi ≤ last → hi ≤ lo + fuel →
    ∃ k' pt' n, uvmunmapLoop kend k pt (lo * 4096) (last * 4096) true fuel =
        uvmunmapLoop kend k' pt' (hi * 4096) (last * 4096) true n ∧
      fuel ≤ n + (hi - lo) ∧ Freed kend k pt k' pt' lo hi := by
  induction fuel with
  | zero =>
      intro k pt lo hi last h _ _ _ _ hle _ hfuel
      obtain rfl : lo = hi := by omega
      exact ⟨k, pt, 0, rfl, by omega, h.freed_nothing (by omega)⟩
  | succ fuel ih =>
      intro k pt lo hi last h hmap hon hend hup hle hlast hfuel
      by_cases hlt : lo < hi
      swap
      · obtain rfl : lo = hi := by omega
        exact ⟨k, pt, fuel + 1, rfl, by omega, h.freed_nothing (by omega)⟩
      have hupq : lo < 67108861 := by
        rw [UPAGES_eq] at hup
        omega
      have hva : lo * 4096 < MAXVA := by
        simp only [MAXVA]
        omega
      have hp₀ : vpn 0 (lo * 4096) = lo := by
        rw [vpn_zero]
        omega
      have hp₁ : vpn 1 (lo * 4096) = lo / 512 := by
        rw [vpn_one_eq, hp₀]
      rw [Super.uvmunmapLoop, if_pos (by omega), h.toTree.walk k hva, hp₀, hp₁]
      by_cases hs : superAt pt (lo / 512) = true
      · -- a superpage: its slot starts at `lo` and ends before `hi`
        have hal : lo % 512 = 0 := hon hlt hs
        have hstart : lo / 512 * 512 = lo := by omega
        have hslot := hend _ hs (by rw [hstart]; exact hlt)
        obtain ⟨hv₁, hs₁⟩ := superAt_iff.mp hs
        obtain ⟨k₁, hfree, hF⟩ := h.freeSuper hs (by omega)
        rw [hstart] at hF
        have hleaf : (pt.ent 1 (lo / 512)).leaf = true := by
          rw [← (h.mid _ hv₁).2]
          exact hs₁
        obtain ⟨k', pt', n, hloop, hn, hU⟩ := ih (lo + 512) hi last hF.space
          (fun q h₁ h₂ => by
            rw [hF.seen, if_neg (by omega)]
            exact hmap q (by omega) h₂)
          (fun hlt' hs' => by omega)
          (fun j hj hjhi => by
            by_cases hjj : j = lo / 512
            · rw [hjj]
              exact hslot
            · refine hend j ?_ hjhi
              unfold superAt at hj ⊢
              rwa [pt.set_ent_of_ne _ (fun hh => hjj hh.2)] at hj)
          hup (by omega) hlast (by omega)
        refine ⟨k', pt', n, ?_, by omega, hF.trans hU (by omega) (by omega)⟩
        rw [if_pos hs]
        simp only [hv₁, hs₁, flags_ne_of_leaf hleaf, hfree, if_true, if_false,
          Bool.true_eq_false]
        have hnext : lo * 4096 + SUPERPGSIZE = (lo + 512) * 4096 := by
          rw [Nat.add_mul]
          rfl
        rw [hnext]
        exact hloop
      · -- a page of its own
        have hv : (pt.ent 0 lo).v = true := by
          have := hmap lo (Nat.le_refl _) hlt
          unfold Super.seen at this
          rw [if_neg hs] at this
          by_contra hne
          rw [if_neg hne] at this
          cases this
        obtain ⟨htabq, hns, hleaf⟩ := h.bot lo hv
        obtain ⟨k₁, hfree, hF⟩ := h.freeSmall (by omega) hv
        have hsup : ∀ j, superAt (pt.set 0 lo .zero) j = superAt pt j := fun j => by
          simp [superAt]
        obtain ⟨k', pt', n, hloop, hn, hU⟩ := ih (lo + 1) hi last hF.space
          (fun q h₁ h₂ => by
            rw [hF.seen, if_neg (by omega)]
            exact hmap q (by omega) h₂)
          (fun hlt' hss => by
            rw [hsup] at hss
            by_contra hne
            rw [show (lo + 1) / 512 = lo / 512 by omega] at hss
            exact hs hss)
          (fun j hj hjhi => by
            rw [hsup] at hj
            exact hend j hj hjhi)
          hup (by omega) hlast (by omega)
        refine ⟨k', pt', n, ?_, by omega, hF.trans hU (by omega) (by omega)⟩
        rw [if_neg hs, if_pos htabq]
        simp only [hv, hns, flags_ne_of_leaf hleaf, hfree, if_true, if_false,
          Bool.true_eq_false, Bool.false_eq_true]
        rw [show lo * 4096 + PGSIZE = (lo + 1) * 4096 by
          simp only [PGSIZE]
          omega]
        exact hloop

theorem uvmunmapLoop_of_le (kend : Nat) (k : Kernel) (pt : PageTable) {a last : Nat}
    (h : last ≤ a) (doFree : Bool) (n : Nat) :
    uvmunmapLoop kend k pt a last doFree n = .ok (k, pt) := by
  cases n with
  | zero => rfl
  | succ n => rw [Super.uvmunmapLoop, if_neg (by omega)]

theorem Space.uvmunmapLoop (fuel : Nat) {k : Kernel} {pt : PageTable} (lo hi : Nat)
    (h : Space kend k pt) (hmap : ∀ q, lo ≤ q → q < hi → (Super.seen pt q).isSome = true)
    (hon : lo < hi → OnBoundary pt lo)
    (hend : ∀ j, superAt pt j = true → j * 512 < hi → j * 512 + 512 ≤ hi)
    (hup : hi ≤ UPAGES) (hfuel : hi ≤ lo + fuel) :
    ∃ k' pt', uvmunmapLoop kend k pt (lo * 4096) (hi * 4096) true fuel = .ok (k', pt') ∧
      Freed kend k pt k' pt' lo hi := by
  by_cases hle : lo ≤ hi
  · obtain ⟨k', pt', n, hloop, -, hF⟩ := Space.uvmunmapLoop_through fuel lo hi hi h hmap hon
      hend hup hle (Nat.le_refl _) hfuel
    refine ⟨k', pt', ?_, hF⟩
    rw [hloop]
    exact uvmunmapLoop_of_le kend k' pt' (Nat.le_refl _) true n
  · exact ⟨k, pt, uvmunmapLoop_of_le kend k pt (by omega) true fuel,
      h.freed_nothing (by omega)⟩

/-- **`uvmdealloc`** down to a page that is not inside a superpage. -/
theorem Space.uvmdealloc (h : Space kend k pt) (hL : Layout pt N) {oldsz newsz : Nat}
    (hold : PGROUNDUP oldsz = N * 4096) (hlt : newsz < oldsz)
    (hon : OnBoundary pt (PGROUNDUP newsz / 4096)) :
    ∃ k' pt', uvmdealloc kend k pt oldsz newsz = .ok (k', pt', newsz) ∧
      Unmapped kend k pt k' pt' (PGROUNDUP newsz / 4096) N ∧
      Layout pt' (PGROUNDUP newsz / 4096) := by
  have hN := h.layout_le hL
  have hup := UPAGES_eq
  have hle : PGROUNDUP newsz / 4096 ≤ N := by
    simp only [PGROUNDUP] at *
    omega
  have hlay : ∀ {k' pt'}, Unmapped kend k pt k' pt' (PGROUNDUP newsz / 4096) N →
      Layout pt' (PGROUNDUP newsz / 4096) := by
    intro k' pt' hU q
    rw [hU.seen]
    split
    · simp only [Option.isSome_none, Bool.false_eq_true, false_iff]
      omega
    · rw [hL q]
      omega
  unfold Super.uvmdealloc
  rw [if_neg (by omega)]
  by_cases hround : PGROUNDUP newsz < PGROUNDUP oldsz
  · have hpages : (PGROUNDUP oldsz - PGROUNDUP newsz) / PGSIZE =
        N - PGROUNDUP newsz / 4096 := by
      simp only [PGROUNDUP, PGSIZE] at *
      omega
    have hnew : PGROUNDUP newsz = PGROUNDUP newsz / 4096 * 4096 := by
      simp only [PGROUNDUP]
      omega
    obtain ⟨k', pt', hloop, hU⟩ := Space.uvmunmapLoop (N - PGROUNDUP newsz / 4096)
      (PGROUNDUP newsz / 4096) N h
      (fun q _ h₂ => (hL q).mpr (.inl h₂)) (fun _ => hon)
      (fun j hj _ => hL.super_le (by omega) hj) (by omega) (by omega)
    refine ⟨k', pt', ?_, hU.toUnmapped, hlay hU.toUnmapped⟩
    rw [if_pos hround, hpages]
    unfold uvmunmap
    have hend : PGROUNDUP newsz + (N - PGROUNDUP newsz / 4096) * PGSIZE = N * 4096 := by
      simp only [PGSIZE]
      omega
    rw [if_neg (by simp only [PGSIZE]; omega), hend]
    rw [← hnew] at hloop
    rw [hloop]
  · have hU := h.freed_nothing (show N ≤ PGROUNDUP newsz / 4096 by omega)
    refine ⟨k, pt, ?_, hU.toUnmapped, hlay hU.toUnmapped⟩
    rw [if_neg hround]

/-! ## `proc_freepagetable` -/

/-- A page the kernel mapped for itself is unmapped without being freed. -/
theorem Tree.drop (h : Tree pt) (kend : Nat) (k : Kernel) {q : Nat} (hmax : q < 67108864)
    (hv : (pt.ent 0 q).v = true) :
    uvmunmap kend k pt (q * 4096) 1 false = .ok (k, pt.set 0 q .zero) ∧
      ∀ q', seen (pt.set 0 q .zero) q' = if q' = q then none else seen pt q' := by
  obtain ⟨htab, hns, hleaf⟩ := h.bot q hv
  obtain ⟨-, hS⟩ := h.set_bot (e := .zero) htab (by simp [Pte.zero])
  refine ⟨?_, fun q' => by simpa [Pte.zero] using hS q'⟩
  have hva : q * 4096 < MAXVA := by
    simp only [MAXVA]
    omega
  have hp₀ : vpn 0 (q * 4096) = q := by
    rw [vpn_zero]
    omega
  have hp₁ : vpn 1 (q * 4096) = q / 512 := by
    rw [vpn_one_eq, hp₀]
  have hs : superAt pt (q / 512) = false := by
    simp [superAt, (tableAt_iff.mp htab).2]
  unfold uvmunmap
  rw [if_neg (by simp only [PGSIZE]; omega)]
  unfold Super.uvmunmapLoop
  rw [if_pos (by simp only [PGSIZE]; omega), h.walk k hva, hp₀, hp₁, hs,
    if_neg Bool.false_ne_true, if_pos htab]
  simp only [hv, flags_ne_of_leaf hleaf, if_false, Bool.true_eq_false,
    Bool.false_eq_true]
  rfl

theorem Space.drop (h : Space kend k pt) {q : Nat} (hq : UPAGES ≤ q)
    (hv : (pt.ent 0 q).v = true) : Space kend k (pt.set 0 q .zero) := by
  obtain ⟨hT, -⟩ := h.toTree.set_bot (e := .zero) (h.bot q hv).1 (by simp [Pte.zero])
  have e₂ : ∀ i, (pt.set 0 q .zero).ent 2 i = pt.ent 2 i := fun i => by simp
  have e₁ : ∀ j, (pt.set 0 q .zero).ent 1 j = pt.ent 1 j := fun j => by simp
  have e₀ : ∀ q', q' < UPAGES → (pt.set 0 q .zero).ent 0 q' = pt.ent 0 q' :=
    fun q' hq' => pt.set_ent_of_ne _ (fun hh => by omega)
  have hsup : ∀ j, superAt (pt.set 0 q .zero) j = superAt pt j := fun j => by
    unfold superAt
    rw [e₁]
  refine ⟨hT, by rw [e₂]; exact h.root, fun q' hq' hv' => ?_,
    fun q₁ q₂ h₁ h₂ hv₁ hv₂ heq => ?_, fun j hj => ?_, fun j₁ j₂ h₁ h₂ heq => ?_,
    h.free, h.nodup, h.superfree, h.supernodup, ?_⟩
  · rw [e₀ q' hq'] at hv' ⊢
    exact h.small q' hq' hv'
  · rw [e₀ q₁ h₁] at hv₁ heq
    rw [e₀ q₂ h₂] at hv₂ heq
    exact h.smallInj q₁ q₂ h₁ h₂ hv₁ hv₂ heq
  · rw [hsup] at hj
    rw [e₁]
    exact h.super j hj
  · rw [hsup] at h₁ h₂
    rw [e₁, e₁] at heq
    exact h.superInj j₁ j₂ h₁ h₂ heq
  · obtain ⟨ht, ht₂, ht₁⟩ := h.tables
    refine ⟨ht, fun i hi => ?_, fun j hj => ?_⟩
    · rw [e₂] at hi ⊢
      exact ht₂ i hi
    · unfold tableAt at hj
      rw [e₁] at hj ⊢
      exact ht₁ j hj

theorem SmallFrame.kfree {f : Nat} (h : SmallFrame kend f) (k : Kernel) :
    ∃ k', kfree kend k f = .ok k' := by
  refine ⟨_, if_neg ?_⟩
  obtain ⟨h₁, h₂, h₃, h₄⟩ := h
  simp only [PGSIZE, SPLIT, SUPERPGSIZE, PHYSTOP] at *
  omega

theorem foldlM_ok {α : Type*} {f : Kernel → α → Except String Kernel}
    (h : ∀ k a, ∃ k', f k a = .ok k') :
    ∀ (l : List α) (k : Kernel), ∃ k', l.foldlM f k = .ok k'
  | [], k => ⟨k, rfl⟩
  | a :: l, k => by
      obtain ⟨k₁, h₁⟩ := h k a
      obtain ⟨k₂, h₂⟩ := foldlM_ok h l k₁
      refine ⟨k₂, ?_⟩
      rw [List.foldlM_cons, h₁]
      exact h₂

theorem forEntries_ok {f : Kernel → Nat → Except String Kernel}
    (h : ∀ k i, ∃ k', f k i = .ok k') (k : Kernel) : ∃ k', forEntries f k = .ok k' := by
  unfold forEntries
  exact foldlM_ok h (List.range 512) k

theorem freewalk_zero_ok {path page : Nat} (hpage : SmallFrame kend page)
    (hnone : ∀ q, (pt.ent 0 q).v = false) (k : Kernel) :
    ∃ k', freewalk kend pt 0 path page k = .ok k' := by
  unfold freewalk
  obtain ⟨k₁, hk₁⟩ := forEntries_ok (f := fun k i =>
    if (pt.ent 0 (path * 512 + i)).v then .error "freewalk: leaf" else .ok k)
    (fun k i => ⟨k, if_neg (by rw [hnone]; exact Bool.false_ne_true)⟩) k
  obtain ⟨k', hk'⟩ := hpage.kfree k₁
  exact ⟨k', by rw [hk₁]; exact hk'⟩

theorem freewalk_succ_ok {l path page : Nat} (hpage : SmallFrame kend page)
    (hbelow : ∀ i, (pt.ent (l + 1) i).v = true → (pt.ent (l + 1) i).leaf = false ∧
      ∀ k, ∃ k', freewalk kend pt l i (PTE2PA (pt.ent (l + 1) i)) k = .ok k')
    (k : Kernel) : ∃ k', freewalk kend pt (l + 1) path page k = .ok k' := by
  unfold freewalk
  obtain ⟨k₁, hk₁⟩ := forEntries_ok (f := fun k i =>
    let pte := pt.ent (l + 1) (path * 512 + i)
    if pte.v && !pte.leaf then freewalk kend pt l (path * 512 + i) (PTE2PA pte) k
    else if pte.v then .error "freewalk: leaf"
    else .ok k) (fun k i => by
      simp only
      rcases Bool.eq_false_or_eq_true (pt.ent (l + 1) (path * 512 + i)).v with hv | hv
      · obtain ⟨hleaf, hfree⟩ := hbelow _ hv
        rw [hleaf, hv]
        exact hfree k
      · rw [hv]
        exact ⟨k, rfl⟩) k
  obtain ⟨k', hk'⟩ := hpage.kfree k₁
  exact ⟨k', by rw [hk₁]; exact hk'⟩

/-- **`freewalk`** meets no leaf when nothing is mapped. -/
theorem Tree.freewalk (h : Tree pt) (hroot : SmallFrame kend (pt.tables.getLastD 0))
    (htop : ∀ i, (pt.ent 2 i).v = true → SmallFrame kend (PTE2PA (pt.ent 2 i)))
    (hmid : ∀ j, tableAt pt j = true → SmallFrame kend (PTE2PA (pt.ent 1 j)))
    (hnone : ∀ q, seen pt q = none) (k : Kernel) :
    ∃ k', freewalk kend pt 2 0 (pt.tables.getLastD 0) k = .ok k' := by
  have hnobot : ∀ q, (pt.ent 0 q).v = false := by
    intro q
    by_contra hne
    have := hnone q
    rw [seen_small h (by simpa using hne)] at this
    cases this
  have hnosuper : ∀ j, (pt.ent 1 j).v = true → (pt.ent 1 j).s = false := by
    intro j hv
    by_contra hne
    have := hnone (j * 512)
    rw [seen_super] at this
    · cases this
    · rw [Nat.mul_div_cancel _ (by omega)]
      exact superAt_iff.mpr ⟨hv, by simpa using hne⟩
  refine freewalk_succ_ok hroot (fun i hv => ⟨(h.top i hv).2, ?_⟩) k
  refine freewalk_succ_ok (htop i hv) (fun j hv' => ?_)
  have hs := hnosuper j hv'
  refine ⟨(h.mid j hv').2.symm.trans hs, ?_⟩
  exact freewalk_zero_ok (hmid j (tableAt_iff.mpr ⟨hv', hs⟩)) hnobot

theorem Space.freewalk (h : Space kend k pt) (hnone : ∀ q, Super.seen pt q = none) :
    ∃ k', freewalk kend pt 2 0 (pt.tables.getLastD 0) k = .ok k' :=
  h.toTree.freewalk h.tables.1 h.tables.2.1 h.tables.2.2 hnone k

theorem Layout.fixed (h : Layout pt N) (hN : N ≤ 262144) {q : Nat} (h₁ : UPAGES ≤ q)
    (h₂ : q < UPAGES + 3) : (pt.ent 0 q).v = true := by
  have hU := UPAGES_eq
  have hnosuper : superAt pt (q / 512) = false := by
    by_contra hne
    have := h.super_le hN (by simpa using hne)
    omega
  have hsome := (h q).mpr (.inr ⟨h₁, h₂⟩)
  unfold seen at hsome
  rw [hnosuper, if_neg Bool.false_ne_true] at hsome
  by_contra hne
  rw [if_neg hne] at hsome
  cases hsome

/-- **`proc_freepagetable`** unmaps the three pages of the kernel and leaves the others to
`uvmfree`; `I` is what is known of the table. -/
theorem Layout.proc_freepagetable {I : PageTable → Prop} (hL : Layout pt N) (hN : N ≤ 262144)
    {sz : Nat} (htree : ∀ pt, I pt → Tree pt)
    (hdrop : ∀ pt q, I pt → UPAGES ≤ q → q < UPAGES + 3 → (pt.ent 0 q).v = true →
      I (pt.set 0 q .zero))
    (hfree : ∀ bare, I bare → (∀ q, seen bare q = if q < N then seen pt q else none) →
      ∃ k', uvmfree kend k bare sz = .ok k') (h : I pt) :
    ∃ k', proc_freepagetable kend k pt sz = .ok k' := by
  have hU := UPAGES_eq
  have hv₁ := hL.fixed hN (q := UPAGES + 2) (by omega) (by omega)
  have hv₂ : ((pt.set 0 (UPAGES + 2) .zero).ent 0 (UPAGES + 1)).v = true := by
    rw [PageTable.set_ent_of_ne _ _ (by omega)]
    exact hL.fixed hN (by omega) (by omega)
  have hv₃ : (((pt.set 0 (UPAGES + 2) .zero).set 0 (UPAGES + 1) .zero).ent 0 UPAGES).v =
      true := by
    rw [PageTable.set_ent_of_ne _ _ (by omega), PageTable.set_ent_of_ne _ _ (by omega)]
    exact hL.fixed hN (by omega) (by omega)
  have h₁ := hdrop _ _ h (by omega) (by omega) hv₁
  have h₂ := hdrop _ _ h₁ (by omega) (by omega) hv₂
  have h₃ := hdrop _ _ h₂ (by omega) (by omega) hv₃
  obtain ⟨d₁, s₁⟩ := (htree _ h).drop kend k (by omega) hv₁
  obtain ⟨d₂, s₂⟩ := (htree _ h₁).drop kend k (by omega) hv₂
  obtain ⟨d₃, s₃⟩ := (htree _ h₂).drop kend k (by omega) hv₃
  unfold Super.proc_freepagetable
  rw [show TRAMPOLINE = (UPAGES + 2) * 4096 by decide, d₁]
  simp only
  rw [show TRAPFRAME = (UPAGES + 1) * 4096 by decide, d₂]
  simp only
  rw [show USYSCALL = UPAGES * 4096 by decide, d₃]
  refine hfree _ h₃ (fun q => ?_)
  rw [s₃, s₂, s₁]
  by_cases hq : q < N
  · rw [if_pos hq, if_neg (by omega), if_neg (by omega), if_neg (by omega)]
  rw [if_neg hq]
  by_cases hfixed : UPAGES ≤ q ∧ q < UPAGES + 3
  · split_ifs <;> first | rfl | omega
  · rw [if_neg (by omega), if_neg (by omega), if_neg (by omega),
      ← Option.not_isSome_iff_eq_none, hL q]
    omega

/-- The superpages among the pages that are left. -/
theorem Layout.super_left {bare : PageTable} (hL : Layout pt N) (hN : N ≤ 262144)
    (hseen : ∀ q, seen bare q = if q < N then seen pt q else none) {j : Nat}
    (hj : superAt bare j = true) (hlt : j * 512 < N) : j * 512 + 512 ≤ N := by
  have hpage : j * 512 / 512 = j := Nat.mul_div_cancel j (by decide)
  have hsame : superAt bare (j * 512 / 512) = superAt pt (j * 512 / 512) :=
    superAt_congr (by rw [hseen, if_pos hlt])
  rw [hpage, hj] at hsame
  exact hL.super_le hN hsame.symm

theorem Space.proc_freepagetable (h : Space kend k pt) (hL : Layout pt N) {sz : Nat}
    (hsz : PGROUNDUP sz = N * 4096) :
    ∃ k', proc_freepagetable kend k pt sz = .ok k' := by
  have hN := h.layout_le hL
  have hU := UPAGES_eq
  refine hL.proc_freepagetable (by omega) (fun _ hS => hS.toTree)
    (fun _ _ hS hq _ hv => hS.drop hq hv) (fun bare hS hseen => ?_) h
  unfold uvmfree
  by_cases hpos : sz > 0
  · obtain ⟨k', pt', hloop, hun⟩ := Space.uvmunmapLoop N 0 N hS
      (fun q _ hq => by
        rw [hseen, if_pos hq]
        exact (hL q).mpr (.inl hq))
      (fun _ _ => rfl) (fun j hj hlt => hL.super_left (by omega) hseen hj hlt) (by omega)
      (by omega)
    rw [if_pos hpos, hsz]
    unfold uvmunmap
    rw [if_neg (by decide), show N * 4096 / PGSIZE = N by simp only [PGSIZE]; omega,
      show 0 + N * PGSIZE = N * 4096 by simp only [PGSIZE]; omega]
    rw [Nat.zero_mul] at hloop
    rw [hloop]
    refine hun.space.freewalk (fun q => ?_)
    rw [hun.seen, hseen]
    split_ifs <;> first | rfl | omega
  · rw [if_neg hpos]
    refine hS.freewalk (fun q => ?_)
    rw [hseen, if_neg]
    simp only [PGROUNDUP] at hsz
    omega

end Xv6Labs.Super
