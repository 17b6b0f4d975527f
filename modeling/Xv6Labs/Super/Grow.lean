import Xv6Labs.Super.Map
import Xv6Labs.Super.Rounds
import Xv6Labs.Super.Unmap
import Xv6Labs.Super.View

/-!
# Growing an address space

The loop of `sbrksuperuvmalloc` on an address space whose first pages are mapped.
What it needs is known in advance: `superNeed` superpages, `smallNeed` 4 KB pages, and
`tableNeed` pages for a level-0 table. It panics exactly when it gets to a slot whose
level-1 entry is already in use (`Clear` rules that out); otherwise it succeeds with
that much memory, and with less it undoes everything.
-/

namespace Xv6Labs.Super

open Xv6Labs.Lib

/-! ## What a growth takes -/

/-- The last slot that gets 4 KB pages, if it is not the one of page `N`. -/
def endSlot (N newsz : Nat) : Nat := max ((N + 511) / 512) (newsz / 2097152)

/-- Pages for a level-0 table: one if the last slot needs it and has none. -/
def tableNeed (pt : PageTable) (N newsz : Nat) : Nat :=
  if endSlot N newsz * 512 < pages newsz ∧ tableAt pt (endSlot N newsz) = false then 1
  else 0

/-- There is memory enough to grow from page `N` to `newsz`. -/
def Enough (k : Kernel) (pt : PageTable) (N newsz : Nat) : Prop :=
  smallNeed N newsz + tableNeed pt N newsz ≤ k.freelist.length ∧
    superNeed N newsz ≤ k.superfreelist.length

instance (k : Kernel) (pt : PageTable) (N newsz : Nat) :
    Decidable (Enough k pt N newsz) := inferInstanceAs (Decidable (_ ∧ _))

/-- No slot that growing from page `N` to `newsz` wants to map as a superpage has
a level-1 entry already, unless memory runs out before it is reached. -/
def Clear (k : Kernel) (pt : PageTable) (N newsz : Nat) : Prop :=
  ∀ j, N ≤ j * 512 → (j + 1) * 2097152 ≤ newsz → (pt.ent 1 j).v = true →
    k.freelist.length < (j * 512 - N) % 512 ∨
      k.superfreelist.length ≤ (j * 512 - N) / 512

variable {kend : Nat} {k k' : Kernel} {pt pt' : PageTable} {N newsz : Nat}

theorem endSlot_super {P : Nat} (hal : P % 512 = 0) (hbig : 2097152 ≤ newsz - P * 4096) :
    endSlot (P + 512) newsz = endSlot P newsz ∧ P / 512 < endSlot P newsz := by
  unfold endSlot
  omega

theorem superpage_fits {P : Nat} (hbig : 2097152 ≤ newsz - P * 4096) :
    P + 512 ≤ pages newsz := by
  unfold pages
  omega

/-- A table page is taken at most once, when the last slot is entered. -/
theorem tableNeed_small {P : Nat} (hlt : P * 4096 < newsz)
    (hno : ¬ (P % 512 = 0 ∧ 2097152 ≤ newsz - P * 4096))
    (hmid : P % 512 ≠ 0 → tableAt pt (P / 512) = true)
    (hslots : ∀ j, j ≠ P / 512 → tableAt pt' j = tableAt pt j) :
    tableNeed pt P newsz =
      tableNeed pt' (P + 1) newsz + if tableAt pt (P / 512) then 0 else 1 := by
  by_cases hal : P % 512 = 0
  · -- the page opens the last slot
    obtain ⟨m, rfl⟩ : ∃ m, P = m * 512 := ⟨P / 512, by omega⟩
    have hm : m * 512 / 512 = m := by omega
    have hend : endSlot (m * 512) newsz = m := by
      unfold endSlot
      omega
    have hafter : ¬ endSlot (m * 512 + 1) newsz * 512 < pages newsz := by
      unfold endSlot pages
      omega
    have hin : m * 512 < pages newsz := lt_pages.mpr hlt
    have hnot : ¬ (endSlot (m * 512 + 1) newsz * 512 < pages newsz ∧
        tableAt pt' (endSlot (m * 512 + 1) newsz) = false) := fun hh => hafter hh.1
    unfold tableNeed
    rw [if_neg hnot, hend, hm]
    cases tableAt pt m with
    | true => simp
    | false => simp [hin]
  · have hend : endSlot (P + 1) newsz = endSlot P newsz := by
      unfold endSlot
      omega
    have hne : endSlot P newsz ≠ P / 512 := by
      unfold endSlot
      omega
    unfold tableNeed
    rw [hend, hslots _ hne, hmid hal]
    rfl

theorem enough_small {P : Nat} (hlt : P * 4096 < newsz)
    (hno : ¬ (P % 512 = 0 ∧ 2097152 ≤ newsz - P * 4096))
    (hmid : P % 512 ≠ 0 → tableAt pt (P / 512) = true)
    (hslots : ∀ j, j ≠ P / 512 → tableAt pt' j = tableAt pt j)
    (hfree : k.freelist.length =
      k'.freelist.length + if tableAt pt (P / 512) then 1 else 2)
    (hsuper : k'.superfreelist = k.superfreelist) :
    Enough k pt P newsz ↔ Enough k' pt' (P + 1) newsz := by
  obtain ⟨hs, hS, -⟩ := need_small hlt hno
  have ht := tableNeed_small hlt hno hmid hslots
  unfold Enough
  rw [hs, hS, ht, hsuper, hfree]
  cases tableAt pt (P / 512) with
  | true =>
      simp only [if_true]
      omega
  | false =>
      simp only [Bool.false_eq_true, if_false]
      omega

theorem enough_super {P : Nat} (hal : P % 512 = 0)
    (hbig : 2097152 ≤ newsz - P * 4096)
    (htable : ∀ j, j ≠ P / 512 → tableAt pt' j = tableAt pt j)
    (hfree : k'.freelist = k.freelist)
    (hsuper : k.superfreelist.length = k'.superfreelist.length + 1) :
    Enough k pt P newsz ↔ Enough k' pt' (P + 512) newsz := by
  obtain ⟨hs, hS, -⟩ := need_super hal hbig
  obtain ⟨hend, hlt⟩ := endSlot_super hal hbig
  unfold Enough tableNeed
  rw [hs, hS, hend, htable _ (by omega), hsuper, hfree]
  omega

theorem clear_small {P : Nat} (hno : ¬ (P % 512 = 0 ∧ 2097152 ≤ newsz - P * 4096))
    (hslots : ∀ j, j ≠ P / 512 → pt'.ent 1 j = pt.ent 1 j)
    (hfree : P % 512 ≠ 0 → k.freelist.length = k'.freelist.length + 1)
    (hsuper : k'.superfreelist = k.superfreelist) :
    Clear k pt P newsz ↔ Clear k' pt' (P + 1) newsz := by
  constructor
  · intro h j hj hend hv
    rw [hslots j (by omega)] at hv
    have := h j (by omega) hend hv
    rw [hsuper]
    omega
  · intro h j hj hend hv
    by_cases hal : P % 512 = 0
    · exfalso
      apply hno
      constructor
      · exact hal
      · rw [Nat.add_mul] at hend
        omega
    · rw [← hslots j (by omega)] at hv
      have := h j (by omega) hend hv
      rw [hsuper] at this
      have hlen := hfree hal
      omega

theorem clear_super {P : Nat} (hal : P % 512 = 0) (hinv : (pt.ent 1 (P / 512)).v = false)
    (hslots : ∀ j, j ≠ P / 512 → pt'.ent 1 j = pt.ent 1 j)
    (hfree : k'.freelist = k.freelist)
    (hsuper : k.superfreelist.length = k'.superfreelist.length + 1) :
    Clear k pt P newsz ↔ Clear k' pt' (P + 512) newsz := by
  constructor
  · intro h j hj hend hv
    rw [hslots j (by omega)] at hv
    have := h j (by omega) hend hv
    rw [hfree]
    omega
  · intro h j hj hend hv
    by_cases hjP : j = P / 512
    · rw [hjP, hinv] at hv
      cases hv
    · rw [← hslots j hjP] at hv
      have := h j (by omega) hend hv
      rw [hfree] at this
      omega

theorem clear_aligned {P : Nat} (hno : ¬ (P % 512 = 0 ∧ 2097152 ≤ newsz - P * 4096))
    (hal : P % 512 = 0) : Clear k pt P newsz := by
  intro j hj hend _
  exfalso
  apply hno
  constructor
  · exact hal
  · rw [Nat.add_mul] at hend
    omega

/-- Without a free page the loop does not get to a superpage. -/
theorem clear_nil {P : Nat} (hno : ¬ (P % 512 = 0 ∧ 2097152 ≤ newsz - P * 4096))
    (hnil : k.freelist = []) : Clear k pt P newsz := by
  by_cases hal : P % 512 = 0
  · exact clear_aligned hno hal
  · intro j hj _ _
    rw [hnil]
    left
    show 0 < _
    omega

theorem clear_done {P : Nat} (h : newsz ≤ P * 4096) : Clear k pt P newsz := by
  intro j hj hend _
  rw [Nat.add_mul] at hend
  omega

/-! ## The loop -/

/-- What growing from page `P` to `newsz` changes, and all it changes. -/
structure Grown (kend : Nat) (k : Kernel) (pt : PageTable) (k' : Kernel)
    (pt' : PageTable) (P newsz : Nat) : Prop where
  space : Space kend k' pt'
  layout : Layout pt' (pages newsz)
  seen : ∀ q, q < P → seen pt' q = seen pt q
  kept : ∀ va, va / 4096 < P → read k'.mem pt' va = read k.mem pt va
  zero : ∀ va, P ≤ va / 4096 → va / 4096 < pages newsz → read k'.mem pt' va = some 0
  super : ∀ q, P ≤ q → q < pages newsz →
    (superAt pt' (q / 512) = true ↔
      (P + 511) / 512 ≤ q / 512 ∧ q / 512 < newsz / 2097152)
  tables : ∀ j, tableAt pt j = true → tableAt pt' j = true
  free : k.freelist.length = k'.freelist.length + smallNeed P newsz + tableNeed pt P newsz
  superfree : k.superfreelist.length = k'.superfreelist.length + superNeed P newsz

/-- What an attempt that found too little memory leaves. -/
structure Undone (kend : Nat) (k : Kernel) (pt : PageTable) (k' : Kernel)
    (pt' : PageTable) (N : Nat) : Prop where
  space : Space kend k' pt'
  layout : Layout pt' N
  seen : ∀ q, q < N → seen pt' q = seen pt q
  kept : ∀ va, va / 4096 < N → read k'.mem pt' va = read k.mem pt va
  tables : ∀ j, tableAt pt j = true → tableAt pt' j = true

/-- **The undo**: everything from page `N` on goes back. -/
theorem Space.undo (h : Space kend k pt) {P : Nat} (hL : Layout pt P) (hle : N ≤ P)
    (hon : OnBoundary pt N) :
    ∃ k' pt' sz, Super.uvmdealloc kend k pt (P * 4096) (N * 4096) = .ok (k', pt', sz) ∧
      Undone kend k pt k' pt' N := by
  have hup := UPAGES_eq
  have hP := h.layout_le hL
  have hpage : ∀ Q, PGROUNDUP (Q * 4096) = Q * 4096 := fun Q => by
    unfold PGROUNDUP
    omega
  by_cases heq : P = N
  · subst heq
    refine ⟨k, pt, _, if_pos (Nat.le_refl _), h, hL, fun _ _ => rfl, fun _ _ => rfl,
      fun _ hj => hj⟩
  · have hN : PGROUNDUP (N * 4096) / 4096 = N := by
      rw [hpage]
      omega
    obtain ⟨k', pt', hok, hU, hL'⟩ := h.uvmdealloc hL (hpage P)
      (show N * 4096 < P * 4096 by omega) (by rw [hN]; exact hon)
    rw [hN] at hU hL'
    refine ⟨k', pt', _, hok, hU.space, hL', fun q hq => ?_, fun va hva => ?_,
      fun j hj => ?_⟩
    · rw [hU.seen, if_neg (by omega)]
    · exact hU.kept va (by omega) (by omega)
    · rw [hU.table]
      exact hj

theorem Undone.trans {k₁ : Kernel} {pt₁ : PageTable} (h : Undone kend k₁ pt₁ k' pt' N)
    (hseen : ∀ q, q < N → Super.seen pt₁ q = Super.seen pt q)
    (hkept : ∀ va, va / 4096 < N → read k₁.mem pt₁ va = read k.mem pt va)
    (htab : ∀ j, tableAt pt j = true → tableAt pt₁ j = true) :
    Undone kend k pt k' pt' N :=
  ⟨h.space, h.layout, fun q hq => (h.seen q hq).trans (hseen q hq),
    fun va hva => (h.kept va hva).trans (hkept va hva), fun j hj => h.tables j (htab j hj)⟩

theorem tableNeed_done (pt : PageTable) {P : Nat} (h : newsz ≤ P * 4096) :
    tableNeed pt P newsz = 0 := by
  refine if_neg (fun hh => ?_)
  have h₁ := hh.1
  unfold endSlot pages at h₁
  omega

/-! ### One 4 KB page -/

section Small

variable {k₁ : Kernel} {pt₁ : PageTable} {P r : Nat}

theorem Mapped.layout (h : Mapped kend k pt k₁ pt₁ P r) (hL : Layout pt P) :
    Layout pt₁ (P + 1) := by
  intro q
  rw [h.seen]
  split
  · simp only [Option.isSome_some, true_iff]
    omega
  · rw [hL q]
    omega

theorem Mapped.tables (h : Mapped kend k pt k₁ pt₁ P r) {j : Nat}
    (hj : tableAt pt j = true) : tableAt pt₁ j = true := by
  by_cases hne : j = P / 512
  · rw [hne]
    exact h.table
  · unfold tableAt at hj ⊢
    rwa [h.slots j hne]

theorem Mapped.slotTables (h : Mapped kend k pt k₁ pt₁ P r) :
    ∀ j, j ≠ P / 512 → tableAt pt₁ j = tableAt pt j := fun j hj => by
  unfold tableAt
  rw [h.slots j hj]

theorem Mapped.notSuper (h : Mapped kend k pt k₁ pt₁ P r) :
    superAt pt₁ (P / 512) = false := by
  simp [superAt, (tableAt_iff.mp h.table).2]

theorem Mapped.grown (h : Mapped kend k pt k₁ pt₁ P r) (hlt : P * 4096 < newsz)
    (hno : ¬ (P % 512 = 0 ∧ 2097152 ≤ newsz - P * 4096)) (hP : P ≤ 32768)
    (hmid : P % 512 ≠ 0 → tableAt pt (P / 512) = true)
    (hG : Grown kend k₁ pt₁ k' pt' (P + 1) newsz) :
    Grown kend k pt k' pt' P newsz := by
  have hup := UPAGES_eq
  obtain ⟨hs, hS, -⟩ := need_small hlt hno
  have ht := tableNeed_small hlt hno hmid h.slotTables
  refine ⟨hG.space, hG.layout, fun q hq => ?_, fun va hva => ?_, fun va h₁ h₂ => ?_,
    fun q h₁ h₂ => ?_, fun j hj => hG.tables j (h.tables hj), ?_, ?_⟩
  · rw [hG.seen q (by omega), h.seen, if_neg (by omega)]
  · rw [hG.kept va (by omega), h.kept va (by omega) (by omega)]
  · by_cases hva : va / 4096 = P
    · rw [hG.kept va (by omega), h.zero va hva]
    · exact hG.zero va (by omega) h₂
  · by_cases hq : q = P
    · subst hq
      rw [superAt_congr (hG.seen q (by omega)), h.notSuper]
      simp only [Bool.false_eq_true, false_iff]
      omega
    · rw [hG.super q (by omega) h₂]
      omega
  · rw [h.free, hG.free, hs, ht]
    cases tableAt pt (P / 512) with
    | true =>
        simp only [if_true]
        omega
    | false =>
        simp only [Bool.false_eq_true, if_false]
        omega
  · rw [← h.superfree, hG.superfree, hS]

end Small

/-! ### The rounds -/

/-- How a growth from page `N` ends that has reached page `P`. -/
def Ends (kend : Nat) (k : Kernel) (pt : PageTable) (N P newsz : Nat) (help : SbrkHelp)
    (res : Except String (Kernel × PageTable × SbrkHelp)) : Prop :=
  (Clear k pt P newsz ∧ Enough k pt P newsz ∧ ∃ k' pt' help', res = .ok (k', pt', help') ∧
      help'.state = true ∧ help'.sz = toInt newsz ∧ Grown kend k pt k' pt' P newsz ∧
      Counts P newsz help help') ∨
    (Clear k pt P newsz ∧ ¬ Enough k pt P newsz ∧ ∃ k' pt' help',
      res = .ok (k', pt', help') ∧ help'.state = false ∧ Undone kend k pt k' pt' N) ∨
    (¬ Clear k pt P newsz ∧ res = .error "mappages: remap")

/-- **A round that wants a 4 KB page** maps it and goes on, or there is too little
memory and everything is undone. -/
theorem Space.round_small (h : Space kend k pt) {P fuel : Nat} {help : SbrkHelp}
    (hL : Layout pt P) (hNP : N ≤ P) (hon : OnBoundary pt N) (hlt : P * 4096 < newsz)
    (hno : ¬ (P % 512 = 0 ∧ 2097152 ≤ newsz - P * 4096)) (hstate : help.state = false) :
    (∃ k₁ pt₁ r, sbrksuperuvmallocLoop kend k pt (N * 4096) (P * 4096) newsz { w := true }
        help (fuel + 1) =
      sbrksuperuvmallocLoop kend k₁ pt₁ (N * 4096) ((P + 1) * 4096) newsz { w := true }
        (help.count ((0, P), r)) fuel ∧ Mapped kend k pt k₁ pt₁ P r) ∨
    Ends kend k pt N P newsz help (sbrksuperuvmallocLoop kend k pt (N * 4096) (P * 4096)
      newsz { w := true } help (fuel + 1)) := by
  have hup := UPAGES_eq
  have hP := h.layout_le hL
  obtain ⟨hs, -, -⟩ := need_small hlt hno
  have hnext : P * 4096 + PGSIZE = (P + 1) * 4096 := (Nat.succ_mul P 4096).symm
  have hcode : ¬ (P * 4096 % SUPERPGSIZE = 0 ∧ newsz - P * 4096 ≥ SUPERPGSIZE) := by
    simp only [SUPERPGSIZE]
    omega
  have hcount : ∀ r, (if help.superpages = 0 then
      { help with startpages := help.startpages + 1 }
      else { help with endpages := help.endpages + 1 }) = help.count ((0, P), r) := by
    intro r
    rfl
  have hcountstate : ∀ r, (help.count ((0, P), r)).state = false := by
    intro r
    rw [← hcount, ← hstate]
    split <;> rfl
  rw [sbrksuperuvmallocLoop, if_pos hlt, if_neg hcode]
  simp only
  rcases hk : Super.kalloc k with ⟨_ | r, k₁⟩
  · obtain ⟨rfl, hnil⟩ := kalloc_none hk
    obtain ⟨k', pt', sz, hundo, hU⟩ := h.undo hL hNP hon
    simp only [hundo]
    refine .inr (.inr (.inl ⟨clear_nil hno hnil, fun hE => ?_, k', pt', _, rfl, rfl, hU⟩))
    have := hE.1
    rw [hnil, hs, List.length_nil] at this
    omega
  · have hnone : Super.seen pt P = none := by
      rw [← Option.not_isSome_iff_eq_none, hL P]
      omega
    rw [hcount r]
    rcases h.mapSmall (by omega) hnone hk with ⟨k₂, pt₂, hmap, hM⟩ | ⟨htab, hnil, hmap⟩
    · refine .inl ⟨k₂, pt₂, r, ?_, hM⟩
      rw [userPerm] at hmap
      simp only [hmap, ne_eq, not_true_eq_false, if_false, hnext]
    · -- no page for the table of this slot
      obtain ⟨k₂, hfree, hS, hfl, hsfl, hkept⟩ := h.giveBack hk
      obtain ⟨k', pt', sz, hundo, hU⟩ := hS.undo hL hNP hon
      have hlen : k.freelist.length = 1 := by
        rw [(h.kalloc hk).2.2.2.1, hnil]
        rfl
      have hmid : P % 512 ≠ 0 → tableAt pt (P / 512) = true := fun hne =>
        hL.table_of_mod h hne
      have hal : P % 512 = 0 := by
        by_contra hne
        rw [hmid hne] at htab
        cases htab
      have hfail : ¬ (-1 : Int) = 0 := by decide
      rw [userPerm] at hmap
      simp only [hmap, hfree, hundo, ne_eq, hfail, not_false_eq_true, if_true]
      refine .inr (.inr (.inl ⟨clear_aligned hno hal, fun hE => ?_, k', pt', _, rfl, rfl,
        hU.trans (fun _ _ => rfl) (fun va hva => hkept va (by omega)) (fun _ hj => hj)⟩))
      have hneed := tableNeed_small hlt hno hmid (fun j _ => rfl)
      rw [htab] at hneed
      simp only [Bool.false_eq_true, if_false] at hneed
      have := hE.1
      omega

theorem Space.region (h : Space kend k pt) : Region pt 0 := by
  obtain ⟨hs, hl⟩ := h.top 0 h.root
  constructor
  · decide
  · exact h.root
  · exact hs
  · exact hl

/-- **A round that wants a superpage** maps it over a free slot and goes on, or panics
over a slot that is in use, or there is too little memory and everything is undone. -/
theorem Space.round_super (h : Space kend k pt) {P fuel : Nat} {help : SbrkHelp}
    (hL : Layout pt P) (hNP : N ≤ P) (hon : OnBoundary pt N) (hal : P % 512 = 0)
    (hbig : 2097152 ≤ newsz - P * 4096) :
    (∃ k₁ r, sbrksuperuvmallocLoop kend k pt (N * 4096) (P * 4096) newsz { w := true } help
        (fuel + 1) =
      sbrksuperuvmallocLoop kend k₁ (pt.set 1 (P / 512) (superPte r)) (N * 4096)
        ((P + 512) * 4096) newsz { w := true } (help.count ((1, P / 512), r)) fuel ∧
      (pt.ent 1 (P / 512)).v = false ∧
      Space kend k₁ (pt.set 1 (P / 512) (superPte r)) ∧
      (∀ q, Super.seen (pt.set 1 (P / 512) (superPte r)) q =
        if q / 512 = P / 512 then some (1, superPte r) else Super.seen pt q) ∧
      k₁.freelist = k.freelist ∧
      k.superfreelist.length = k₁.superfreelist.length + 1 ∧
      (∀ va, va / 4096 / 512 ≠ P / 512 → va / 4096 < UPAGES →
        read k₁.mem (pt.set 1 (P / 512) (superPte r)) va = read k.mem pt va) ∧
      ∀ va, va / 4096 / 512 = P / 512 →
        read k₁.mem (pt.set 1 (P / 512) (superPte r)) va = some 0) ∨
    Ends kend k pt N P newsz help (sbrksuperuvmallocLoop kend k pt (N * 4096) (P * 4096)
      newsz { w := true } help (fuel + 1)) := by
  have hP := h.layout_le hL
  obtain ⟨-, hS, -⟩ := need_super hal hbig
  obtain ⟨m, rfl⟩ : ∃ m, P = m * 512 := ⟨P / 512, by omega⟩
  have hm : m * 512 / 512 = m := Nat.mul_div_cancel m (by decide)
  have haddr : m * 512 * 4096 = m * 2097152 := by omega
  have hfits : (m + 1) * 2097152 ≤ newsz := by
    rw [haddr] at hbig
    rw [Nat.add_mul]
    exact Nat.add_le_of_le_sub' (Nat.le_of_lt (Nat.lt_of_sub_pos (by omega))) hbig
  have hlt : m * 512 * 4096 < newsz := by omega
  have hcode : m * 512 * 4096 % SUPERPGSIZE = 0 ∧
      newsz - m * 512 * 4096 ≥ SUPERPGSIZE := by
    simp only [SUPERPGSIZE]
    omega
  have hnext : m * 512 * 4096 + SUPERPGSIZE = (m * 512 + 512) * 4096 := by
    rw [Nat.add_mul]
    rfl
  have hregion : Region pt (m / 512) := by
    rw [show m / 512 = 0 by omega]
    exact h.region
  rw [hm, sbrksuperuvmallocLoop, if_pos hlt, if_pos hcode]
  simp only
  rcases hk : Super.superkalloc k with ⟨_ | r, k₁⟩
  · obtain ⟨rfl, hnil⟩ := superkalloc_none hk
    obtain ⟨k', pt', sz, hundo, hU⟩ := h.undo hL hNP hon
    simp only [hundo]
    refine .inr (.inr (.inl ⟨fun j _ _ _ => ?_, fun hE => ?_, k', pt', _, rfl, rfl, hU⟩))
    · rw [hnil]
      exact .inr (Nat.zero_le _)
    · have := hE.2
      rw [hnil, hS, List.length_nil] at this
      exact absurd this (Nat.not_succ_le_zero _)
  · obtain ⟨-, -, -, -, hl, hfl, -⟩ := h.superkalloc hk
    by_cases hinv : (pt.ent 1 m).v = false
    · obtain ⟨hmap, hSp, hseen, hkept, hzero⟩ := h.mapSuper (by omega) hinv hk
      refine .inl ⟨_, r, ?_, hinv, hSp, hseen, hfl, by rw [hl]; rfl, hkept, hzero⟩
      rw [userPerm] at hmap
      simp only [hmap, ne_eq, not_true_eq_false, if_false, hnext]
      rfl
    · have hv : (pt.ent 1 m).v = true := by simpa using hinv
      have hmap := hregion.supermappages { k₁ with mem := k₁.mem.fill r SUPERPGSIZE 0 } r
        { r := true, w := true, u := true }
      rw [if_pos hv] at hmap
      refine .inr (.inr (.inr ⟨fun hC => ?_, ?_⟩))
      · have := hC m (Nat.le_refl _) hfits hv
        rw [hl, List.length_cons] at this
        omega
      · simp only [hmap]

/-! ### The whole loop -/

theorem Space.grow_done (h : Space kend k pt) {P : Nat} (help : SbrkHelp)
    (hL : Layout pt P) (hP : P ≤ pages newsz) (hle : newsz ≤ P * 4096) :
    Ends kend k pt N P newsz help
      (.ok (k, pt, { help with sz := toInt newsz, state := true })) := by
  obtain ⟨hs, hS, hst⟩ := need_done hle
  have hpages : pages newsz = P := by
    have := mt lt_pages.mp (Nat.not_lt.mpr hle)
    omega
  refine .inl ⟨clear_done hle, ⟨?_, ?_⟩, k, pt, { help with sz := toInt newsz, state := true },
    rfl, rfl, by dsimp only, ⟨h, ?_, fun _ _ => rfl, fun _ _ => rfl, ?_, ?_, fun _ hj => hj,
      ?_, ?_⟩, ?_, ?_, ?_⟩
  · rw [hs, tableNeed_done pt hle]
    exact Nat.zero_le _
  · rw [hS]
    exact Nat.zero_le _
  · rw [hpages]
    exact hL
  · intro va h₁ h₂
    omega
  · intro q h₁ h₂
    omega
  · rw [hs, tableNeed_done pt hle]
    rfl
  · rw [hS]
    rfl
  · rw [hS]
    rfl
  · intro _
    rw [hs, hst]
    exact ⟨rfl, rfl⟩
  · intro _ _
    rw [hs]
    exact ⟨rfl, rfl⟩

theorem Grown.afterSuper {k₁ : Kernel} {P r : Nat} (hal : P % 512 = 0)
    (hbig : 2097152 ≤ newsz - P * 4096) (hP : P ≤ 32768)
    (hseen : ∀ q, Super.seen (pt.set 1 (P / 512) (superPte r)) q =
      if q / 512 = P / 512 then some (1, superPte r) else Super.seen pt q)
    (htab : ∀ j, tableAt pt j = true →
      tableAt (pt.set 1 (P / 512) (superPte r)) j = true)
    (hkept : ∀ va, va / 4096 / 512 ≠ P / 512 → va / 4096 < UPAGES →
      read k₁.mem (pt.set 1 (P / 512) (superPte r)) va = read k.mem pt va)
    (hzero : ∀ va, va / 4096 / 512 = P / 512 →
      read k₁.mem (pt.set 1 (P / 512) (superPte r)) va = some 0)
    (hslots : ∀ j, j ≠ P / 512 →
      tableAt (pt.set 1 (P / 512) (superPte r)) j = tableAt pt j)
    (hfree : k₁.freelist = k.freelist)
    (hsuper : k.superfreelist.length = k₁.superfreelist.length + 1)
    (hG : Grown kend k₁ (pt.set 1 (P / 512) (superPte r)) k' pt' (P + 512) newsz) :
    Grown kend k pt k' pt' P newsz := by
  have hup := UPAGES_eq
  have hlast : P / 512 < newsz / 2097152 := by omega
  obtain ⟨hs, hS, -⟩ := need_super hal hbig
  obtain ⟨hend, hlt⟩ := endSlot_super hal hbig
  refine ⟨hG.space, hG.layout, fun q hq => ?_, fun va hva => ?_, fun va h₁ h₂ => ?_,
    fun q h₁ h₂ => ?_, fun j hj => hG.tables j (htab j hj), ?_, ?_⟩
  · rw [hG.seen q (by omega), hseen, if_neg (by omega)]
  · rw [hG.kept va (by omega), hkept va (by omega) (by omega)]
  · by_cases hva : va / 4096 / 512 = P / 512
    · rw [hG.kept va (by omega), hzero va hva]
    · exact hG.zero va (by omega) h₂
  · by_cases hq : q / 512 = P / 512
    · have hsup : superAt pt' (q / 512) = true := by
        rw [superAt_congr (hG.seen q (by omega)), superAt_eq_seen, hseen, if_pos hq]
        rfl
      rw [hsup, hq]
      simp only [true_iff]
      exact ⟨by omega, hlast⟩
    · rw [hG.super q (by omega) h₂]
      omega
  · have hneed : tableNeed (pt.set 1 (P / 512) (superPte r)) (P + 512) newsz =
        tableNeed pt P newsz := by
      unfold tableNeed
      rw [hend, hslots _ (by omega)]
    rw [← hfree, hG.free, hs, hneed]
  · rw [hsuper, hG.superfree, hS]
    omega

theorem Mapped.ends {k₁ : Kernel} {pt₁ : PageTable} {P r : Nat} {help : SbrkHelp}
    {res : Except String (Kernel × PageTable × SbrkHelp)} (h : Mapped kend k pt k₁ pt₁ P r)
    (hS : Space kend k pt) (hL : Layout pt P) (hNP : N ≤ P) (hlt : P * 4096 < newsz)
    (hno : ¬ (P % 512 = 0 ∧ 2097152 ≤ newsz - P * 4096))
    (hres : Ends kend k₁ pt₁ N (P + 1) newsz (help.count ((0, P), r)) res) :
    Ends kend k pt N P newsz help res := by
  have hmax := hS.layout_le hL
  have hup := UPAGES_eq
  have hmid : P % 512 ≠ 0 → tableAt pt (P / 512) = true := fun hne => hL.table_of_mod hS hne
  have henough := enough_small hlt hno hmid h.slotTables h.free h.superfree
  have hclear : Clear k pt P newsz ↔ Clear k₁ pt₁ (P + 1) newsz :=
    clear_small hno h.slots (fun hne => by
      rw [h.free, hmid hne]
      rfl) h.superfree
  rcases hres with ⟨hC, hE, k', pt', help', hok, hst, hsz, hG, hcounts⟩ |
    ⟨hC, hE, k', pt', help', hok, hst, hU⟩ | ⟨hC, herr⟩
  · exact .inl ⟨hclear.mpr hC, henough.mpr hE, k', pt', help', hok, hst, hsz,
      h.grown hlt hno hmax hmid hG, hcounts.small hlt hno⟩
  · refine .inr (.inl ⟨hclear.mpr hC, fun hE' => hE (henough.mp hE'), k', pt', help', hok, hst,
      hU.trans (fun q hq => ?_) (fun va hva => h.kept va (by omega) (by omega))
        (fun j hj => h.tables hj)⟩)
    rw [h.seen, if_neg (by omega)]
  · exact .inr (.inr ⟨fun hC' => hC (hclear.mp hC'), herr⟩)

theorem Ends.afterSuper {k₁ : Kernel} {P r : Nat} {help : SbrkHelp}
    {res : Except String (Kernel × PageTable × SbrkHelp)} (hmax : P ≤ 32768) (hNP : N ≤ P)
    (hal : P % 512 = 0) (hbig : 2097152 ≤ newsz - P * 4096)
    (hinv : (pt.ent 1 (P / 512)).v = false)
    (hseen : ∀ q, Super.seen (pt.set 1 (P / 512) (superPte r)) q =
      if q / 512 = P / 512 then some (1, superPte r) else Super.seen pt q)
    (hfree : k₁.freelist = k.freelist)
    (hsuper : k.superfreelist.length = k₁.superfreelist.length + 1)
    (hkept : ∀ va, va / 4096 / 512 ≠ P / 512 → va / 4096 < UPAGES →
      read k₁.mem (pt.set 1 (P / 512) (superPte r)) va = read k.mem pt va)
    (hzero : ∀ va, va / 4096 / 512 = P / 512 →
      read k₁.mem (pt.set 1 (P / 512) (superPte r)) va = some 0)
    (hres : Ends kend k₁ (pt.set 1 (P / 512) (superPte r)) N (P + 512) newsz
      (help.count ((1, P / 512), r)) res) :
    Ends kend k pt N P newsz help res := by
  have hup := UPAGES_eq
  have hslots : ∀ j, j ≠ P / 512 →
      (pt.set 1 (P / 512) (superPte r)).ent 1 j = pt.ent 1 j :=
    fun j hj => pt.set_ent_of_ne _ (fun hh => hj hh.2)
  have htable : ∀ j, j ≠ P / 512 →
      tableAt (pt.set 1 (P / 512) (superPte r)) j = tableAt pt j := fun j hj => by
    unfold tableAt
    rw [hslots j hj]
  have htab : ∀ j, tableAt pt j = true →
      tableAt (pt.set 1 (P / 512) (superPte r)) j = true := by
    intro j hj
    have hne : j ≠ P / 512 := fun hh => by
      rw [hh] at hj
      simp [tableAt, hinv] at hj
    rwa [htable j hne]
  have henough := enough_super hal hbig htable hfree hsuper
  have hclear : Clear k pt P newsz ↔
      Clear k₁ (pt.set 1 (P / 512) (superPte r)) (P + 512) newsz :=
    clear_super hal hinv hslots hfree hsuper
  rcases hres with ⟨hC, hE, k', pt', help', hok, hst, hsz, hG, hcounts⟩ |
    ⟨hC, hE, k', pt', help', hok, hst, hU⟩ | ⟨hC, herr⟩
  · exact .inl ⟨hclear.mpr hC, henough.mpr hE, k', pt', help', hok, hst, hsz,
      Grown.afterSuper hal hbig hmax hseen htab hkept hzero htable hfree hsuper hG, hcounts.super hal hbig⟩
  · refine .inr (.inl ⟨hclear.mpr hC, fun hE' => hE (henough.mp hE'), k', pt', help', hok, hst,
      hU.trans (fun q hq => ?_) (fun va hva => hkept va (by omega) (by omega)) htab⟩)
    rw [hseen, if_neg (by omega)]
  · exact .inr (.inr ⟨fun hC' => hC (hclear.mp hC'), herr⟩)

theorem SbrkHelp.count_state (help : SbrkHelp) (c : PtePtr × Nat) :
    (help.count c).state = help.state := by
  unfold SbrkHelp.count
  split_ifs <;> rfl

/-- **The loop of `sbrksuperuvmalloc`**, from page `P` of a growth that started at page
`N`: it panics at a slot that is in use, or with enough memory it maps everything up to
`newsz`, and otherwise nothing. -/
theorem Space.growLoop (fuel : Nat) : ∀ {k : Kernel} {pt : PageTable} (P : Nat)
    (help : SbrkHelp), Space kend k pt → Layout pt P → N ≤ P → P ≤ pages newsz →
    pages newsz ≤ P + fuel → OnBoundary pt N → help.state = false →
    Ends kend k pt N P newsz help (sbrksuperuvmallocLoop kend k pt (N * 4096) (P * 4096)
      newsz { w := true } help fuel) := by
  induction fuel with
  | zero =>
      intro k pt P help h hL _ hP hfuel _ _
      have hle : newsz ≤ P * 4096 := by
        by_contra hlt
        have := lt_pages.mpr (Nat.not_le.mp hlt)
        omega
      exact h.grow_done help hL hP hle
  | succ fuel ih =>
      intro k pt P help h hL hNP hP hfuel hon hstate
      have hmax := h.layout_le hL
      by_cases hlt : P * 4096 < newsz
      swap
      · rw [sbrksuperuvmallocLoop, if_neg hlt]
        exact h.grow_done help hL hP (Nat.not_lt.mp hlt)
      have hPlt : P < pages newsz := lt_pages.mpr hlt
      by_cases hbig : P % 512 = 0 ∧ 2097152 ≤ newsz - P * 4096
      · obtain ⟨hal, hbig⟩ := hbig
        rcases h.round_super hL hNP hon hal hbig with
          ⟨k₁, r, heq, hinv, hS, hseen, hfl, hsfl, hkept, hzero⟩ | hends
        swap
        · exact hends
        have hfits := superpage_fits hbig
        have hL₁ : Layout (pt.set 1 (P / 512) (superPte r)) (P + 512) := by
          intro q
          rw [hseen]
          split
          · simp only [Option.isSome_some, true_iff]
            omega
          · rw [hL q]
            omega
        have hon₁ : OnBoundary (pt.set 1 (P / 512) (superPte r)) N := by
          intro hs
          by_cases hne : N / 512 = P / 512
          · omega
          · unfold superAt at hs
            rw [pt.set_ent_of_ne _ (fun hh => hne hh.2)] at hs
            exact hon hs
        rw [heq]
        exact Ends.afterSuper hmax hNP hal hbig hinv hseen hfl hsfl hkept hzero
          (ih (P + 512) _ hS hL₁ (by omega) hfits (by omega) hon₁
            ((help.count_state _).trans hstate))
      · rcases h.round_small hL hNP hon hlt hbig hstate with ⟨k₁, pt₁, r, heq, hM⟩ | hends
        swap
        · exact hends
        have hon₁ : OnBoundary pt₁ N := by
          intro hs
          by_cases hne : N / 512 = P / 512
          · rw [hne, hM.notSuper] at hs
            cases hs
          · unfold superAt at hs
            rw [hM.slots _ hne] at hs
            exact hon hs
        rw [heq]
        exact hM.ends h hL hNP hlt hbig (ih (P + 1) _ hM.space (hM.layout hL) (by omega) hPlt
          (by omega) hon₁ ((help.count_state _).trans hstate))

/-! ### The two functions -/

theorem pages_mono {a b : Nat} (h : a ≤ b) : pages a ≤ pages b := by
  unfold pages
  omega

/-- **`sbrksuperuvmalloc`** on an address space that is mapped up to `oldsz`. -/
theorem Space.sbrksuperuvmalloc (h : Space kend k pt) {oldsz : Nat}
    (hL : Layout pt (pages oldsz)) (hle : oldsz ≤ newsz) :
    Ends kend k pt (pages oldsz) (pages oldsz) newsz {}
      (Super.sbrksuperuvmalloc kend k pt oldsz newsz { w := true }) := by
  have hmono := pages_mono hle
  have hfuel : (PGROUNDUP newsz - PGROUNDUP oldsz) / PGSIZE = pages newsz - pages oldsz := by
    rw [PGROUNDUP_eq, PGROUNDUP_eq]
    simp only [PGSIZE]
    omega
  unfold Super.sbrksuperuvmalloc
  rw [if_neg (Nat.not_lt.mpr hle), hfuel, PGROUNDUP_eq]
  exact h.growLoop _ (pages oldsz) {} hL (Nat.le_refl _) hmono (by omega)
    (hL.onBoundary ((h.layout_le hL).trans (by decide))) rfl

/-- **`uvmalloc`** of less than a superpage: there is memory, or everything is undone and
the result is 0. -/
theorem Space.uvmalloc (h : Space kend k pt) {oldsz : Nat} (hL : Layout pt (pages oldsz))
    (hle : oldsz ≤ newsz) (hshort : newsz < oldsz + 2097152) :
    (Enough k pt (pages oldsz) newsz ∧ ∃ k' pt', Super.uvmalloc kend k pt oldsz newsz
        { w := true } = .ok (k', pt', newsz) ∧ Grown kend k pt k' pt' (pages oldsz) newsz) ∨
    (¬ Enough k pt (pages oldsz) newsz ∧ ∃ k' pt', Super.uvmalloc kend k pt oldsz newsz
        { w := true } = .ok (k', pt', 0) ∧ Undone kend k pt k' pt' (pages oldsz)) := by
  have hclear : Clear k pt (pages oldsz) newsz := by
    intro j hj hend _
    unfold pages at hj
    rw [Nat.add_mul] at hend
    omega
  have hends := h.sbrksuperuvmalloc hL hle
  unfold Super.sbrksuperuvmalloc at hends
  rw [if_neg (Nat.not_lt.mpr hle)] at hends
  unfold Super.uvmalloc
  rw [if_neg (Nat.not_lt.mpr hle), uvmallocLoop_eq _ _ _ _ _ _ _ _ {}]
  rcases hends with ⟨-, hE, k', pt', help, hok, hst, -, hG, -⟩ |
    ⟨-, hE, k', pt', help, hok, hst, hU⟩ | ⟨hC, -⟩
  · refine .inl ⟨hE, k', pt', ?_, hG⟩
    simp only [hok, hst, if_true]
  · refine .inr ⟨hE, k', pt', ?_, hU⟩
    simp only [hok, hst, Bool.false_eq_true, if_false]
  · exact absurd hclear hC

end Xv6Labs.Super
