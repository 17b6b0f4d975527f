import Xv6Labs.Lib.Run
import Xv6Labs.Cow.Vm
import Mathlib.Data.Finset.Card

/-!
# Page faults end

A user access that faults is executed again after each return of `usertrap`.
`cowhandle` reports success for any valid `PTE_COW` page, whatever the access
was, so the second execution may fault as well; a third one never does.

The measure is how much the entry of the address can still be changed: 2 while
it is marked, 1 afterwards, 0 once the process is marked killed.
-/

namespace Xv6Labs.Cow

open Xv6Labs.Lib

/-! ## User accesses -/

/-- Instruction fetch, load and store: scause 12, 13 and 15. -/
inductive Access where
  | fetch
  | load
  | store
deriving DecidableEq

/-- What the hardware checks of a leaf in user mode. W without R is reserved. -/
def Access.permittedBy (a : Access) (pte : Pte) : Bool :=
  pte.v && pte.u && (pte.r || !pte.w) &&
    match a with
    | .fetch => pte.x
    | .load => pte.r
    | .store => pte.w

def Access.permitted (a : Access) (pt : PageTable) (va : Nat) : Bool :=
  va < MAXVA &&
    match lookup pt va with
    | none => false
    | some k => a.permittedBy (pt.ent 0 k)

structure Retry where
  km : Kmem
  pagetable : PageTable
  killed : Bool

/-- The access at `va` faults with `sp` saved, and `usertrap` handles it. A
process that is marked killed exits and executes nothing again. -/
def Fault (kend : Nat) (a : Access) (va : Nat) (s : Retry) (sp : Nat) (t : Retry) :
    Prop :=
  s.killed = false ∧ a.permitted s.pagetable va = false ∧
    pagefault kend s.km s.pagetable va sp = .ok (t.km, t.pagetable, t.killed)

def cowPtes (pt : PageTable) : Finset Nat :=
  (Finset.range (entries 0)).filter fun k =>
    (pt.ent 2 (k / 512 / 512)).v && (pt.ent 1 (k / 512)).v && (pt.ent 0 k).cow

/-- The marked user entries are over frames the allocator hands out. -/
def Handed (kend : Nat) (pt : PageTable) : Prop :=
  ∀ k, (pt.ent 0 k).v = true → (pt.ent 0 k).cow = true →
    kend ≤ PTE2PA (pt.ent 0 k) ∧ PTE2PA (pt.ent 0 k) < PHYSTOP

/-! ## One fault -/

variable {kend va sp : Nat} {a : Access} {km : Kmem} {pt : PageTable} {s t : Retry}

theorem kfree_of_handed (hh : Handed kend pt) {k : Nat}
    (hv : (pt.ent 0 k).v = true) (hcow : (pt.ent 0 k).cow = true) (km : Kmem) :
    ∃ km', kfree kend km (PTE2PA (pt.ent 0 k)) = .ok km' := by
  obtain ⟨hlo, hhi⟩ := hh k hv hcow
  have haligned : PTE2PA (pt.ent 0 k) % PGSIZE = 0 := Nat.mul_mod_left _ _
  unfold kfree
  rw [if_neg (by omega)]
  dsimp only
  split
  · exact ⟨_, rfl⟩
  · exact ⟨_, rfl⟩

theorem cowhandle_of_handed (hh : Handed kend pt) (hva : va < MAXVA) (km : Kmem) :
    ∃ r, cowhandle kend km pt va = .ok r := by
  unfold cowhandle
  rw [walk_noalloc hva]
  cases hl : lookup pt va with
  | none => exact ⟨_, rfl⟩
  | some k =>
      dsimp only
      split
      · exact ⟨_, rfl⟩
      rename_i hflag
      split
      · exact ⟨_, rfl⟩
      have hv : (pt.ent 0 k).v = true := by
        simpa using fun h => hflag (.inl h)
      have hcow : (pt.ent 0 k).cow = true := by
        simpa using fun h => hflag (.inr h)
      rcases hk : kalloc km with ⟨_ | mem, km₁⟩
      · exact ⟨_, rfl⟩
      · obtain ⟨km₂, hf⟩ := kfree_of_handed hh hv hcow
          { km₁ with mem := km₁.mem.copy mem (PTE2PA (pt.ent 0 k)) PGSIZE }
        dsimp only
        rw [hf]
        exact ⟨_, rfl⟩

theorem pagefault_of_handed (hh : Handed kend pt) (km : Kmem) (va sp : Nat) :
    ∃ r, pagefault kend km pt va sp = .ok r := by
  unfold pagefault
  dsimp only
  split
  · exact ⟨_, rfl⟩
  rename_i hno
  have hva : va < MAXVA := by omega
  obtain ⟨⟨km', pt', ret⟩, hc⟩ := cowhandle_of_handed hh hva km
  rw [hc]
  exact ⟨_, rfl⟩

/-- **One fault, inverted**: the process is marked killed with its entries as
they were, or the marked entry of `va` has lost its mark and no other entry has
changed. -/
theorem Fault.cases (h : Fault kend a va s sp t) :
    (t.killed = true ∧ t.pagetable = s.pagetable) ∨
      (t.killed = false ∧ va < MAXVA ∧
        lookup s.pagetable va = some (vpn 0 va) ∧
        (s.pagetable.ent 0 (vpn 0 va)).v = true ∧
        (s.pagetable.ent 0 (vpn 0 va)).cow = true ∧
        ∃ e : Pte, e.cow = false ∧ t.pagetable = s.pagetable.set 0 (vpn 0 va) e) := by
  obtain ⟨-, -, hf⟩ := h
  unfold pagefault at hf
  dsimp only at hf
  split at hf
  · injection hf with hf
    simp only [Prod.mk.injEq] at hf
    exact .inl ⟨hf.2.2.symm, hf.2.1.symm⟩
  split at hf
  · cases hf
  rename_i km' pt' ret hc
  injection hf with hf
  simp only [Prod.mk.injEq] at hf
  obtain ⟨-, hpt, hkilled⟩ := hf
  rw [← hpt, ← hkilled]
  obtain ⟨hva, ⟨rfl, -, rfl, -⟩ | ⟨rfl, hl, hv, hcow, -, mem, km₁, -, rfl, -⟩⟩ :=
    cowhandle_cases hc
  · exact .inl ⟨rfl, rfl⟩
  · exact .inr ⟨rfl, hva, hl, hv, hcow, _, rfl, rfl⟩

theorem Fault.next (hh : Handed kend s.pagetable)
    (hp : a.permitted s.pagetable va = false) (hk : s.killed = false) (sp : Nat) :
    ∃ t, Fault kend a va s sp t := by
  obtain ⟨⟨km', pt', killed⟩, hf⟩ := pagefault_of_handed hh s.km va sp
  exact ⟨⟨km', pt', killed⟩, hk, hp, hf⟩

/-- A handled fault that does not kill leaves one `PTE_COW` less. -/
theorem Fault.cowPtes_lt (h : Fault kend a va s sp t) (hk : t.killed = false) :
    (cowPtes t.pagetable).card < (cowPtes s.pagetable).card := by
  obtain ⟨hkilled, -⟩ | ⟨-, hva, hl, -, hcow, e, he, hpt⟩ := h.cases
  · rw [hk] at hkilled
    cases hkilled
  obtain ⟨h2, h1, -⟩ := lookup_eq_some.mp hl
  rw [vpn_succ, vpn_succ] at h2
  rw [vpn_succ] at h1
  apply Finset.card_lt_card
  rw [Finset.ssubset_iff_of_subset]
  · refine ⟨vpn 0 va, ?_, ?_⟩
    · rw [cowPtes, Finset.mem_filter, Finset.mem_range]
      refine ⟨vpn_lt_entries hva, ?_⟩
      rw [h2, h1, hcow]
      rfl
    · rw [cowPtes, Finset.mem_filter, hpt, PageTable.set_ent_self, he]
      simp
  · intro k hmem
    rw [cowPtes, Finset.mem_filter, hpt] at hmem
    rw [cowPtes, Finset.mem_filter]
    refine ⟨hmem.1, ?_⟩
    have hk' := hmem.2
    rw [PageTable.set_ent_other_level _ _ _ _ (by decide),
      PageTable.set_ent_other_level _ _ _ _ (by decide)] at hk'
    by_cases heq : k = vpn 0 va
    · subst heq
      rw [PageTable.set_ent_self, he] at hk'
      simp at hk'
    · rwa [PageTable.set_ent_of_ne _ _ (fun hh => heq hh.2)] at hk'

/-! ## Faults in a row -/

/-- How much the entry of `va` can still be changed. -/
def Retry.left (va : Nat) (s : Retry) : Nat :=
  if s.killed then 0
  else if (s.pagetable.ent 0 (vpn 0 va)).cow then 2
  else 1

theorem Retry.left_le (va : Nat) (s : Retry) : s.left va ≤ 2 := by
  unfold Retry.left
  split_ifs <;> decide

theorem Fault.left_lt (h : Fault kend a va s sp t) : t.left va < s.left va := by
  have hs : s.killed = false := h.1
  obtain ⟨hkilled, -⟩ | ⟨hkilled, -, -, -, hcow, e, he, hpt⟩ := h.cases
  · have ht : t.left va = 0 := by
      rw [Retry.left, hkilled]
      rfl
    rw [ht, Retry.left, hs, if_neg Bool.false_ne_true]
    split_ifs <;> decide
  · have ht : t.left va = 1 := by
      rw [Retry.left, hkilled, hpt, PageTable.set_ent_self, he]
      rfl
    rw [ht, Retry.left, hs, hcow]
    decide

theorem Fault.handed (hh : Handed kend s.pagetable) (h : Fault kend a va s sp t) :
    Handed kend t.pagetable := by
  obtain ⟨-, hpt⟩ | ⟨-, -, -, -, -, e, he, hpt⟩ := h.cases
  · rwa [hpt]
  intro k hv hcow
  rw [hpt] at hv hcow ⊢
  by_cases heq : k = vpn 0 va
  · rw [heq, PageTable.set_ent_self, he] at hcow
    cases hcow
  · rw [PageTable.set_ent_of_ne _ _ (fun hh => heq hh.2)] at hv hcow ⊢
    exact hh k hv hcow

/-- **No endless fault loop.** An access faults at most twice before it goes
through or the process is marked killed, whatever its kind, the flags of its
entry, the saved stack pointers and the free list; and every fault that does not
kill leaves one `PTE_COW` less. -/
theorem cow_faults_end {sps : List Nat} (hh : Handed kend pt)
    (hr : Run (Fault kend a va) ⟨km, pt, false⟩ sps s) :
    sps.length ≤ 2 ∧
    (s.killed = true ∨ a.permitted s.pagetable va = true ∨
      (sps.length < 2 ∧ ∀ sp, ∃ t, Fault kend a va s sp t)) ∧
    ∀ sp t, Fault kend a va s sp t → t.killed = false →
      (cowPtes t.pagetable).card < (cowPtes s.pagetable).card := by
  have hlen : sps.length + s.left va ≤ 2 := by
    refine le_trans (Run.length_le (I := fun _ => True) (Retry.left va) ?_ hr trivial)
      (Retry.left_le va _)
    intro s sp t _ h
    exact ⟨trivial, h.left_lt⟩
  have hs : Handed kend s.pagetable :=
    hr.invariant (I := fun s => Handed kend s.pagetable)
      (fun s sp t hs h => h.handed hs) hh
  refine ⟨by omega, ?_, fun sp t h hk => h.cowPtes_lt hk⟩
  by_cases hkilled : s.killed = true
  · exact .inl hkilled
  by_cases hp : a.permitted s.pagetable va = true
  · exact .inr (.inl hp)
  rw [Bool.not_eq_true] at hkilled hp
  have hleft : 0 < s.left va := by
    rw [Retry.left, hkilled, if_neg Bool.false_ne_true]
    split_ifs <;> decide
  exact .inr (.inr ⟨by omega, Fault.next hs hp hkilled⟩)

def markedPage : Retry where
  km := { freelist := [PHYSTOP - 8192], count := fun _ => 1, mem := fun _ => 0 }
  pagetable :=
    ((PageTable.empty 0).set 2 0 { v := true }).set 1 0 { v := true } |>.set 0 1
      (PA2PTE (PHYSTOP - 4096) { v := true, r := true, u := true, cow := true })
  killed := false

theorem markedPage_handed : Handed (PHYSTOP - 32768) markedPage.pagetable := by
  intro k hv hcow
  by_cases hk : k = 1
  · subst hk
    decide
  · have hzero : markedPage.pagetable.ent 0 k = .zero := by
      simp [markedPage, PageTable.set, PageTable.empty, hk]
    rw [hzero] at hv
    cases hv

/-- The first fault is handled in vain and the second one kills. -/
theorem cow_faults_end_markedPage :
    ∃ s, Run (Fault (PHYSTOP - 32768) .fetch 4096) markedPage [65536, 65536] s ∧
      [65536, 65536].length ≤ 2 ∧
      (s.killed = true ∨ Access.permitted .fetch s.pagetable 4096 = true ∨
        ([65536, 65536].length < 2 ∧
          ∀ sp, ∃ t, Fault (PHYSTOP - 32768) .fetch 4096 s sp t)) ∧
      ∀ sp t, Fault (PHYSTOP - 32768) .fetch 4096 s sp t → t.killed = false →
        (cowPtes t.pagetable).card < (cowPtes s.pagetable).card := by
  obtain ⟨s, hr⟩ : ∃ s, Run (Fault (PHYSTOP - 32768) .fetch 4096) markedPage
      [65536, 65536] s := by
    refine ⟨⟨_, _, true⟩, .cons (t := ⟨_, _, false⟩) ⟨rfl, rfl, rfl⟩
      (.cons (t := ⟨_, _, true⟩) ⟨rfl, rfl, rfl⟩ (.nil _))⟩
  exact ⟨s, hr, cow_faults_end markedPage_handed hr⟩

end Xv6Labs.Cow
