import Xv6Labs.Lib.Run
import Xv6Labs.Super.Fork
import Xv6Labs.Super.Shrink
import Xv6Labs.Super.View

/-!
# Sequences of `growproc` calls

A process that has just been `exec`ed calls `growproc` again and again, and between the
calls the rest of the kernel runs (`Task.Step`). As long as the size and the page table
agree (`Covered`), a call is known in full from the state before it: growing is decided
by the free lists, the level-0 tables left behind and the room in the record
(`Covered.grow`), shrinking by what the record says at its end (`Covered.shrink`).
-/

namespace Xv6Labs.Super

open Xv6Labs.Lib

/-! ## Runs -/

structure Task where
  k : Kernel
  p : Proc

inductive Event where
  | growproc (n : Int)
  /-- the rest of the kernel and the process itself, up to its next call -/
  | others (k : Kernel)

/-- One event. Between two calls free lists and memory change as they like, as long as
nothing that belongs to the process is on a free list. -/
inductive Task.Step (kend : Nat) : Task → Event → Task → Prop
  | growproc {k k' : Kernel} {p p' : Proc} {n ret : Int} (hint : -2 ^ 31 ≤ n ∧ n < 2 ^ 31)
      (hpos : 0 ≤ p.sz + n) (hok : Super.growproc kend k p n = .ok (k', p', ret)) :
      Step kend ⟨k, p⟩ (.growproc n) ⟨k', p'⟩
  | others {k k' : Kernel} {p : Proc} (h : Space kend k' p.pagetable) :
      Step kend ⟨k, p⟩ (.others k') ⟨k', p⟩

/-- The first `sz` bytes are mapped, and nothing else of the user part. -/
structure Covered (kend : Nat) (t : Task) : Prop where
  space : Space kend t.k t.p.pagetable
  layout : Layout t.p.pagetable (pages t.p.sz)

/-- A process right after `exec`: an image whose first page is a 4 KB page, no entries in
the record. -/
structure Exec (kend : Nat) (t : Task) : Prop extends Covered kend t where
  pos : 0 < t.p.sz
  first : superAt t.p.pagetable 0 = false
  next : t.p.next = 0

variable {kend N newsz : Nat} {k k' : Kernel} {pt pt' : PageTable} {p p' : Proc} {t t' : Task}
  {n ret : Int}

theorem Task.Step.det {k' : Kernel} {p' : Proc} (hs : Task.Step kend t (.growproc n) t')
    (hok : Super.growproc kend t.k t.p n = .ok (k', p', ret)) : t' = ⟨k', p'⟩ := by
  cases hs with
  | growproc _ _ hok' =>
      rw [hok'] at hok
      obtain ⟨rfl, rfl, -⟩ : _ ∧ _ ∧ _ := by simpa using hok
      rfl

/-! ## The record -/

def newEntries (sz newsz : Nat) : Nat := smallNeed (pages sz) newsz + superNeed (pages sz) newsz

def Proc.Fits (p : Proc) (count : Nat) : Prop :=
  count = 0 ∨ 0 ≤ p.next ∧ p.next + count ≤ 10000

/-- The process after a growth to `newsz`: `a` entries '0', `b` entries '1' and `c` entries
'0' are new. -/
def Proc.grown (p : Proc) (pt : PageTable) (a b c newsz : Nat) : Proc where
  pagetable := pt
  sz := newsz
  record := fun i =>
    if p.next ≤ i ∧ i < p.next + (a + b + c) then
      if p.next + a ≤ i ∧ i < p.next + (a + b) then '1' else '0'
    else p.record i
  next := p.next + (a + b + c : Nat)

theorem Proc.append_cases (c : Char) (count : Nat) : ∀ p : Proc,
    (p.Fits count ∧ ∃ p', p.append c count = .ok p' ∧ p'.pagetable = p.pagetable ∧
      p'.sz = p.sz ∧ p'.next = p.next + count ∧ ∀ i : Nat, p'.record i =
        if p.next ≤ i ∧ (i : Int) < p.next + count then c else p.record i) ∨
    (¬ p.Fits count ∧ p.append c count = .error "record: out of bounds") := by
  induction count with
  | zero =>
      intro p
      refine .inl ⟨.inl rfl, p, rfl, rfl, rfl, ?_, fun i => ?_⟩
      · omega
      · rw [if_neg (by omega)]
  | succ count ih =>
      intro p
      rw [Proc.append]
      by_cases hout : p.next < 0 ∨ 10000 ≤ p.next
      · rw [if_pos hout]
        refine .inr ⟨fun hfits => ?_, rfl⟩
        rcases hfits with h | h
        · cases h
        · omega
      rw [if_neg hout]
      rcases ih { p with record := Function.update p.record p.next.toNat c
                         next := p.next + 1 } with
        ⟨hfits, p', hok, hpt, hsz, hnext, hrec⟩ | ⟨hfits, herr⟩
      · refine .inl ⟨.inr ?_, p', hok, hpt, hsz, ?_, fun i => ?_⟩
        · rcases hfits with h | h
          · simp only [h]
            omega
          · simp only at h
            omega
        · rw [hnext]
          simp only
          omega
        · rw [hrec]
          simp only
          by_cases hi : i = p.next.toNat
          · rw [if_neg (by omega), hi, Function.update_self, if_pos (by omega)]
          · rw [Function.update_of_ne hi]
            by_cases hin : p.next + 1 ≤ i ∧ (i : Int) < p.next + 1 + count
            · rw [if_pos hin, if_pos (by omega)]
            · rw [if_neg hin, if_neg (by omega)]
      · refine .inr ⟨fun h => hfits ?_, herr⟩
        rcases h with h | h
        · cases h
        · by_cases hz : count = 0
          · exact .inl hz
          · right
            simp only
            omega

/-- **The three appends of `growproc`**: the whole record after them, if it has room. -/
theorem Proc.appends (p : Proc) (a b c newsz : Nat) :
    (p.Fits (a + b + c) ∧
      ∃ p₁ p₂ p₃, p.append '0' a = .ok p₁ ∧ p₁.append '1' b = .ok p₂ ∧
        p₂.append '0' c = .ok p₃ ∧
        { p₃ with sz := newsz } = p.grown p.pagetable a b c newsz) ∨
    (¬ p.Fits (a + b + c) ∧ (p.append '0' a = .error "record: out of bounds" ∨
      ∃ p₁, p.append '0' a = .ok p₁ ∧ (p₁.append '1' b = .error "record: out of bounds" ∨
        ∃ p₂, p₁.append '1' b = .ok p₂ ∧ p₂.append '0' c = .error "record: out of bounds"))) := by
  rcases p.append_cases '0' a with ⟨hf₁, p₁, hok₁, hpt₁, -, hn₁, hr₁⟩ | ⟨hf₁, herr⟩
  swap
  · refine .inr ⟨fun h => hf₁ ?_, .inl herr⟩
    unfold Proc.Fits at h ⊢
    omega
  rcases p₁.append_cases '1' b with ⟨hf₂, p₂, hok₂, hpt₂, -, hn₂, hr₂⟩ | ⟨hf₂, herr⟩
  swap
  · refine .inr ⟨fun h => hf₂ ?_, .inr ⟨p₁, hok₁, .inl herr⟩⟩
    unfold Proc.Fits at h ⊢
    omega
  rcases p₂.append_cases '0' c with ⟨hf₃, p₃, hok₃, hpt₃, -, hn₃, hr₃⟩ | ⟨hf₃, herr⟩
  swap
  · refine .inr ⟨fun h => hf₃ ?_, .inr ⟨p₁, hok₁, .inr ⟨p₂, hok₂, herr⟩⟩⟩
    unfold Proc.Fits at h ⊢
    omega
  refine .inl ⟨?_, p₁, p₂, p₃, hok₁, hok₂, hok₃, ?_⟩
  · unfold Proc.Fits at hf₁ hf₂ hf₃ ⊢
    omega
  · have hnext : p₃.next = p.next + ((a + b + c : Nat) : Int) := by omega
    have hrec : p₃.record = (p.grown p.pagetable a b c newsz).record := by
      funext i
      unfold Proc.grown
      simp only
      rw [hr₃, hr₂, hr₁, hn₂, hn₁]
      split_ifs <;> first | rfl | omega
    unfold Proc.grown at hrec ⊢
    rw [hpt₃.trans (hpt₂.trans hpt₁), hnext, hrec]

/-! ## Growing -/

/-- The record after a growth to `newsz` whose memory was there. -/
def Proc.afterGrowth (p : Proc) (pt : PageTable) (newsz : Nat) : Proc :=
  p.grown pt (startNeed (pages p.sz) newsz) (superNeed (pages p.sz) newsz)
    (smallNeed (pages p.sz) newsz - startNeed (pages p.sz) newsz) newsz

theorem Grown.lt (h : Grown kend k pt k' pt' N newsz) : newsz < 2 ^ 31 := by
  have hmax := h.space.layout_le h.layout
  unfold pages at hmax
  omega

theorem toUint64_toInt {x : Nat} (h : x < 2 ^ 31) : toUint64 (toInt x) = x := by
  rw [toInt_of_lt h]
  unfold toUint64
  omega

/-- **A call that grows**: it panics at a slot that is in use, or there is too little
memory and it does nothing, or the record has no room for the new entries, or it succeeds. -/
theorem Covered.grow (h : Covered kend ⟨k, p⟩) (hn : 0 < n) :
    (¬ Clear k p.pagetable (pages p.sz) (p.sz + n.toNat) ∧
      growproc kend k p n = .error "mappages: remap") ∨
    (Clear k p.pagetable (pages p.sz) (p.sz + n.toNat) ∧
      ¬ Enough k p.pagetable (pages p.sz) (p.sz + n.toNat) ∧ ∃ k' pt',
        growproc kend k p n = .ok (k', { p with pagetable := pt' }, -1) ∧
        Undone kend k p.pagetable k' pt' (pages p.sz)) ∨
    (Clear k p.pagetable (pages p.sz) (p.sz + n.toNat) ∧
      Enough k p.pagetable (pages p.sz) (p.sz + n.toNat) ∧
      ¬ p.Fits (newEntries p.sz (p.sz + n.toNat)) ∧
      growproc kend k p n = .error "record: out of bounds") ∨
    (Clear k p.pagetable (pages p.sz) (p.sz + n.toNat) ∧
      Enough k p.pagetable (pages p.sz) (p.sz + n.toNat) ∧
      p.Fits (newEntries p.sz (p.sz + n.toNat)) ∧ ∃ k' pt',
        growproc kend k p n = .ok (k', p.afterGrowth pt' (p.sz + n.toNat), 0) ∧
        Grown kend k p.pagetable k' pt' (pages p.sz) (p.sz + n.toNat)) := by
  have hends := h.space.sbrksuperuvmalloc h.layout (Nat.le_add_right p.sz n.toNat)
  unfold growproc
  rw [if_pos hn]
  rcases hends with ⟨hC, hE, k', pt', help, hok, hst, hsz, hG, hcounts⟩ |
    ⟨hC, hE, k', pt', help, hok, hst, hU⟩ | ⟨hC, herr⟩
  · right
    right
    have hstart := startNeed_le (pages p.sz) (p.sz + n.toNat)
    obtain ⟨hc₁, hc₂⟩ := hcounts.first rfl
    have hc₃ := hcounts.superpages
    simp only [Nat.zero_add] at hc₁ hc₂ hc₃
    have htotal : newEntries p.sz (p.sz + n.toNat) =
        help.startpages + help.superpages + help.endpages := by
      unfold newEntries
      rw [hc₁, hc₂, hc₃]
      omega
    simp only [hok, hst, Bool.true_eq_false, if_false]
    rw [htotal]
    rcases Proc.appends { p with pagetable := pt' } help.startpages help.superpages
      help.endpages (p.sz + n.toNat) with
      ⟨hfits, p₁, p₂, p₃, h₁, h₂, h₃, heq⟩ | ⟨hfits, herr⟩
    · refine .inr ⟨hC, hE, hfits, k', pt', ?_, hG⟩
      simp only [h₁, h₂, h₃]
      rw [hsz, toUint64_toInt hG.lt, heq]
      unfold Proc.afterGrowth
      rw [hc₁, hc₂, hc₃]
      rfl
    · refine .inl ⟨hC, hE, hfits, ?_⟩
      rcases herr with herr | ⟨p₁, h₁, herr | ⟨p₂, h₂, herr⟩⟩
      · simp only [herr]
      · simp only [h₁, herr]
      · simp only [h₁, h₂, herr]
  · refine .inr (.inl ⟨hC, hE, k', pt', ?_, hU⟩)
    simp only [hok, hst, if_true]
  · refine .inl ⟨hC, ?_⟩
    simp only [herr]

/-! ## Shrinking -/

/-- There is memory, once what lies above `S` is given back, to map `m` bytes there. -/
def EnoughSplit (k : Kernel) (p : Proc) (S m : Nat) : Prop :=
  smallNeed (pages S) (S + m) + tableNeed p.pagetable (pages S) (S + m) ≤
    k.freelist.length + smallPages p.pagetable (pages S) (pages p.sz)

theorem superNeed_short {S m : Nat} (hm : m < 2097152) :
    superNeed (pages S) (S + m) = 0 := by
  unfold superNeed pages
  omega

theorem Unmapped.enough {k₁ : Kernel} {pt₁ : PageTable} {S m : Nat}
    (h : Unmapped kend k p.pagetable k₁ pt₁ (pages S) (pages p.sz)) (hm : m < 2097152) :
    Enough k₁ pt₁ (pages S) (S + m) ↔ EnoughSplit k p S m := by
  unfold Enough EnoughSplit tableNeed
  rw [superNeed_short hm, h.table, h.free]
  simp only [Nat.zero_le, and_true]

def Proc.stop (p : Proc) (n : Int) : ShrinkEnd := shrinkEnd p.record p.sz n p.next.toNat

/-- **A call that shrinks** and cuts no superpage: the pages above the last chunk go, and
what the branch does then is `ShrinkEnd.finish`. -/
theorem Covered.shrink (h : Covered kend ⟨k, p⟩) (hn : n < 0) (hmax : p.next ≤ 10000)
    (hu : Uncut p.pagetable p.record p.sz n p.next.toNat) :
    ∃ k₁ pt₁, Unmapped kend k p.pagetable k₁ pt₁ (pages (p.stop n).sz) (pages p.sz) ∧
      Layout pt₁ (pages (p.stop n).sz) ∧
      growproc kend k p n =
        ((p.stop n).finish kend k₁ { p with pagetable := pt₁ }).map
          (fun r => (r.1, r.2, 0)) := by
  obtain ⟨k₁, pt₁, hU, hL, hloop⟩ := h.space.shrinkLoop p.next.toNat h.layout hn
    (by omega) hu
  refine ⟨k₁, pt₁, hU, hL, ?_⟩
  unfold growproc
  rw [if_neg (by omega), if_pos hn, hloop]
  show _ = ((shrinkEnd p.record p.sz n p.next.toNat).finish kend k₁
    { p with pagetable := pt₁ }).map _
  cases (shrinkEnd p.record p.sz n p.next.toNat).finish kend k₁
    { p with pagetable := pt₁ } with
  | error e => rfl
  | ok r => rfl

/-- The superpage is given back and its first `m` bytes are mapped again, or the size is 0. -/
theorem Unmapped.finish_split {k₁ : Kernel} {pt₁ : PageTable} {i S m : Nat}
    (h : Unmapped kend k p.pagetable k₁ pt₁ (pages S) (pages p.sz))
    (hL : Layout pt₁ (pages S)) (hm : m < 2097152) :
    (EnoughSplit k p S m ∧ ∃ k' pt',
      (ShrinkEnd.split i S m).finish kend k₁ { p with pagetable := pt₁ } = .ok (k', {
        pagetable := pt'
        sz := S + m
        record := Function.update p.record i '0'
        next := p.next - 1 + m / PGSIZE }) ∧ Grown kend k₁ pt₁ k' pt' (pages S) (S + m)) ∨
    (¬ EnoughSplit k p S m ∧ ∃ k' pt',
      (ShrinkEnd.split i S m).finish kend k₁ { p with pagetable := pt₁ } = .ok (k', {
        pagetable := pt'
        sz := 0
        record := Function.update p.record i '0'
        next := p.next - 1 + m / PGSIZE }) ∧ Undone kend k₁ pt₁ k' pt' (pages S)) := by
  unfold ShrinkEnd.finish
  rcases h.space.uvmalloc hL (Nat.le_add_right S m) (by omega) with
    ⟨hE, k', pt', hok, hG⟩ | ⟨hE, k', pt', hok, hU⟩
  · refine .inl ⟨(h.enough hm).mp hE, k', pt', ?_, hG⟩
    simp only [hok]
  · refine .inr ⟨fun hs => hE ((h.enough hm).mpr hs), k', pt', ?_, hU⟩
    simp only [hok]

/-! ## One call -/

/-- The index a shrinking call leaves in `next` when it splits nothing. -/
def ShrinkEnd.next (next : Int) : ShrinkEnd → Int
  | ran _ => next
  | exact i _ => i
  | past i _ => i - 1
  | split .. => next

/-- What a call that returns has done, and all it has done. -/
inductive Called (kend : Nat) (k : Kernel) (p : Proc) (n : Int) : Kernel → Proc → Int → Prop
  | nothing (hn : n = 0) : Called kend k p n k p 0
  | grown {k' : Kernel} {pt' : PageTable} (hn : 0 < n)
      (hG : Grown kend k p.pagetable k' pt' (pages p.sz) (p.sz + n.toNat))
      (hfits : p.Fits (newEntries p.sz (p.sz + n.toNat))) :
      Called kend k p n k' (p.afterGrowth pt' (p.sz + n.toNat)) 0
  | undone {k' : Kernel} {pt' : PageTable} (hn : 0 < n)
      (hU : Undone kend k p.pagetable k' pt' (pages p.sz)) :
      Called kend k p n k' { p with pagetable := pt' } (-1)
  | dropped {k' : Kernel} {pt' : PageTable} (hn : n < 0)
      (hstop : ∀ i S m, p.stop n ≠ .split i S m)
      (hU : Unmapped kend k p.pagetable k' pt' (pages (p.stop n).sz) (pages p.sz))
      (hL : Layout pt' (pages (p.stop n).sz)) :
      Called kend k p n k' { p with
        pagetable := pt', sz := (p.stop n).sz, next := (p.stop n).next p.next } 0
  | split {k₁ k' : Kernel} {pt₁ pt' : PageTable} {i S m : Nat} (hn : n < 0)
      (hstop : p.stop n = .split i S m) (hm : 0 < m ∧ m < 2097152)
      (hE : EnoughSplit k p S m)
      (hU : Unmapped kend k p.pagetable k₁ pt₁ (pages S) (pages p.sz))
      (hG : Grown kend k₁ pt₁ k' pt' (pages S) (S + m)) :
      Called kend k p n k' {
        pagetable := pt'
        sz := S + m
        record := Function.update p.record i '0'
        next := p.next - 1 + m / PGSIZE } 0
  | lost {k₁ k' : Kernel} {pt₁ pt' : PageTable} {i S m : Nat} (hn : n < 0)
      (hstop : p.stop n = .split i S m) (hE : ¬ EnoughSplit k p S m)
      (hU : Unmapped kend k p.pagetable k₁ pt₁ (pages S) (pages p.sz))
      (hD : Undone kend k₁ pt₁ k' pt' (pages S)) :
      Called kend k p n k' {
        pagetable := pt'
        sz := 0
        record := Function.update p.record i '0'
        next := p.next - 1 + m / PGSIZE } 0

/-- The loop starts with an access past the end of the record. -/
theorem shrinkLoop_outside (hn : 10000 < p.next.toNat) :
    shrinkLoop kend k p n p.next.toNat = .error "record: out of bounds" := by
  obtain ⟨i, hi⟩ : ∃ i, p.next.toNat = i + 1 := ⟨p.next.toNat - 1, by omega⟩
  rw [hi, Super.shrinkLoop, if_pos (by omega)]

theorem Covered.shrink_called (h : Covered kend ⟨k, p⟩) (hn : n < 0) (hmax : p.next ≤ 10000)
    (hu : Uncut p.pagetable p.record p.sz n p.next.toNat) :
    ∃ k' p', growproc kend k p n = .ok (k', p', 0) ∧ Called kend k p n k' p' 0 := by
  obtain ⟨k₁, pt₁, hU, hL, hok⟩ := h.shrink hn hmax hu
  rw [hok]
  have hdrop : (∀ i S m, p.stop n ≠ .split i S m) → Called kend k p n k₁ { p with
      pagetable := pt₁, sz := (p.stop n).sz, next := (p.stop n).next p.next } 0 :=
    fun hstop => .dropped hn hstop hU hL
  cases hstop : p.stop n with
  | ran S =>
      rw [hstop] at hdrop
      exact ⟨_, _, rfl, hdrop (fun _ _ _ hh => by cases hh)⟩
  | exact i S =>
      rw [hstop] at hdrop
      exact ⟨_, _, rfl, hdrop (fun _ _ _ hh => by cases hh)⟩
  | past i S =>
      rw [hstop] at hdrop
      exact ⟨_, _, rfl, hdrop (fun _ _ _ hh => by cases hh)⟩
  | split i S m =>
      rw [hstop] at hU hL
      change Unmapped kend k p.pagetable k₁ pt₁ (pages S) (pages p.sz) at hU
      change Layout pt₁ (pages S) at hL
      obtain ⟨hm₀, hm, -⟩ := shrinkEnd_split hn hstop
      rcases hU.finish_split (i := i) hL hm with
        ⟨hE, k', pt', hfin, hG⟩ | ⟨hE, k', pt', hfin, hD⟩
      · rw [hfin]
        exact ⟨_, _, rfl, .split hn hstop ⟨hm₀, hm⟩ hE hU hG⟩
      · rw [hfin]
        exact ⟨_, _, rfl, .lost hn hstop hE hU hD⟩

/-- **A call that returns.** -/
theorem Covered.growproc_cases (h : Covered kend ⟨k, p⟩)
    (hu : n < 0 → Uncut p.pagetable p.record p.sz n p.next.toNat)
    (hok : growproc kend k p n = .ok (k', p', ret)) : Called kend k p n k' p' ret := by
  rcases lt_trichotomy n 0 with hn | hn | hn
  · by_cases hmax : p.next ≤ 10000
    · obtain ⟨k₁, p₁, hok₁, hC⟩ := h.shrink_called hn hmax (hu hn)
      rw [hok₁] at hok
      simp only [Except.ok.injEq, Prod.mk.injEq] at hok
      obtain ⟨rfl, rfl, rfl⟩ := hok
      exact hC
    · unfold growproc at hok
      rw [if_neg (by omega), if_pos hn, shrinkLoop_outside (by omega)] at hok
      cases hok
  · unfold growproc at hok
    rw [if_neg (by omega), if_neg (by omega)] at hok
    simp only [Except.ok.injEq, Prod.mk.injEq] at hok
    obtain ⟨rfl, rfl, rfl⟩ := hok
    exact .nothing hn
  · rcases h.grow hn with ⟨-, herr⟩ | ⟨-, -, k₁, pt₁, hok₁, hU⟩ | ⟨-, -, -, herr⟩ |
      ⟨-, -, hfits, k₁, pt₁, hok₁, hG⟩
    · rw [herr] at hok
      cases hok
    · rw [hok₁] at hok
      simp only [Except.ok.injEq, Prod.mk.injEq] at hok
      obtain ⟨rfl, rfl, rfl⟩ := hok
      exact .undone hn hU
    · rw [herr] at hok
      cases hok
    · rw [hok₁] at hok
      simp only [Except.ok.injEq, Prod.mk.injEq] at hok
      obtain ⟨rfl, rfl, rfl⟩ := hok
      exact .grown hn hG hfits

/-- **A call that does not panic.** -/
theorem Covered.growproc_ok (h : Covered kend ⟨k, p⟩)
    (hgrow : 0 < n → Clear k p.pagetable (pages p.sz) (p.sz + n.toNat) ∧
      (Enough k p.pagetable (pages p.sz) (p.sz + n.toNat) →
        p.Fits (newEntries p.sz (p.sz + n.toNat))))
    (hshrink : n < 0 → p.next ≤ 10000 ∧ Uncut p.pagetable p.record p.sz n p.next.toNat) :
    ∃ r, growproc kend k p n = .ok r := by
  rcases lt_trichotomy n 0 with hn | hn | hn
  · obtain ⟨k', p', hok, -⟩ := h.shrink_called hn (hshrink hn).1 (hshrink hn).2
    exact ⟨_, hok⟩
  · unfold growproc
    rw [if_neg (by omega), if_neg (by omega)]
    exact ⟨_, rfl⟩
  · obtain ⟨hclear, hroom⟩ := hgrow hn
    rcases h.grow hn with ⟨hC, -⟩ | ⟨-, -, k₁, pt₁, hok₁, -⟩ | ⟨-, hE, hfits, -⟩ |
      ⟨-, -, -, k₁, pt₁, hok₁, -⟩
    · exact absurd hclear hC
    · exact ⟨_, hok₁⟩
    · exact absurd (hroom hE) hfits
    · exact ⟨_, hok₁⟩

section Last

variable {i S : Nat}

theorem lower_add {sz c : Nat} (hsz : sz = S + c) : lower sz c = S := by
  unfold lower
  rw [hsz, if_pos (Nat.le_add_left _ _), Nat.add_sub_cancel]

theorem Proc.stop_last (hn : -4096 ≤ n) (hneg : n < 0) (hnext : p.next = (i + 1 : Nat))
    (hrec : p.record i = '0') (hsz : p.sz = S + 4096) :
    p.stop n = if n = -4096 then .exact i S else .past i S := by
  have hchunk : chunkSize '0' = 4096 := by decide
  have hone : ¬ '0' = '1' := by decide
  unfold Proc.stop shrinkEnd
  rw [show p.next.toNat = i + 1 by omega]
  simp only
  rw [hrec, hchunk, lower_add hsz, if_neg hone]
  split_ifs <;> first | rfl | omega

theorem Proc.stop_split (hn : -2097152 < n) (hnext : p.next = (i + 1 : Nat))
    (hrec : p.record i = '1') (hsz : p.sz = S + 2097152) :
    p.stop n = .split i S (n + 2097152).toNat := by
  have hchunk : chunkSize '1' = 2097152 := by decide
  unfold Proc.stop shrinkEnd
  rw [show p.next.toNat = i + 1 by omega]
  simp only
  rw [hrec, hchunk, lower_add hsz, if_pos rfl, if_pos (by omega)]
  rfl

/-- Only the last chunk is looked at when no more than that is asked for. -/
theorem Proc.uncut_last (hn : 0 ≤ n + chunkSize (p.record i)) (hnext : p.next = (i + 1 : Nat))
    (hsz : p.sz = S + chunkSize (p.record i)) (hon : OnBoundary pt (pages S)) :
    Uncut pt p.record p.sz n p.next.toNat := by
  unfold Uncut
  rw [show p.next.toNat = i + 1 by omega]
  simp only
  rw [lower_add hsz]
  exact ⟨hon, fun hlt => by omega⟩

theorem Proc.uncut_page (hn : -4096 ≤ n) (hnext : p.next = (i + 1 : Nat))
    (hrec : p.record i = '0') (hsz : p.sz = S + 4096) (hon : OnBoundary pt (pages S)) :
    Uncut pt p.record p.sz n p.next.toNat := by
  have hchunk : chunkSize (p.record i) = 4096 := by
    rw [hrec]
    decide
  exact Proc.uncut_last (by omega) hnext (by rw [hchunk]; exact hsz) hon

/-- **A call that gives back one 4 KB page**, because it was asked to or because it was asked
for less. -/
theorem Covered.shrink_last (h : Covered kend t) (hn : -4096 ≤ n) (hneg : n < 0)
    (hnext : t.p.next = (i + 1 : Nat)) (hi : i < 10000) (hrec : t.p.record i = '0')
    (hsz : t.p.sz = S + 4096) (hon : OnBoundary t.p.pagetable (pages S)) :
    ∃ k' pt', growproc kend t.k t.p n = .ok (k', { t.p with
        pagetable := pt', sz := S, next := if n = -4096 then (i : Int) else i - 1 }, 0) ∧
      Unmapped kend t.k t.p.pagetable k' pt' (pages S) (pages t.p.sz) ∧
      Layout pt' (pages S) := by
  obtain ⟨k', pt', hU, hL, hok⟩ := Covered.shrink h hneg (by omega)
    (Proc.uncut_page hn hnext hrec hsz hon)
  rw [Proc.stop_last hn hneg hnext hrec hsz] at hU hL hok
  by_cases heq : n = -4096
  · simp only [if_pos heq, ShrinkEnd.sz, ShrinkEnd.finish, Except.map] at hU hL hok ⊢
    exact ⟨k', pt', hok, hU, hL⟩
  · simp only [if_neg heq, ShrinkEnd.sz, ShrinkEnd.finish, Except.map] at hU hL hok ⊢
    exact ⟨k', pt', hok, hU, hL⟩

theorem Proc.stop_chunk (hn : n + chunkSize (p.record i) = 0) (hnext : p.next = (i + 1 : Nat))
    (hsz : p.sz = S + chunkSize (p.record i)) : p.stop n = .exact i S := by
  unfold Proc.stop shrinkEnd
  rw [show p.next.toNat = i + 1 by omega]
  simp only
  rw [lower_add hsz, if_neg (by omega), if_pos hn]

/-- **A call that gives back the last chunk**, be it a page or a superpage. -/
theorem Covered.shrink_chunk (h : Covered kend t) (hn : n + chunkSize (t.p.record i) = 0)
    (hnext : t.p.next = (i + 1 : Nat)) (hi : i < 10000)
    (hsz : t.p.sz = S + chunkSize (t.p.record i))
    (hon : OnBoundary t.p.pagetable (pages S)) :
    ∃ k' pt', growproc kend t.k t.p n =
        .ok (k', { t.p with pagetable := pt', sz := S, next := i }, 0) ∧
      Unmapped kend t.k t.p.pagetable k' pt' (pages S) (pages t.p.sz) ∧
      Layout pt' (pages S) := by
  have hneg : n < 0 := by
    have := chunkSize_pos (t.p.record i)
    omega
  obtain ⟨k', pt', hU, hL, hok⟩ := Covered.shrink h hneg (by omega)
    (Proc.uncut_last (by omega) hnext hsz hon)
  rw [Proc.stop_chunk hn hnext hsz] at hU hL hok
  exact ⟨k', pt', hok, hU, hL⟩

end Last

/-! ## A process of one page -/

/-- One 4 KB page at address 0, and the three pages the kernel maps. -/
def tinyImage : PageTable where
  tables := [0x80600000]
  ent := fun level j =>
    if level = 2 then
      if j = 0 then PA2PTE 0x80601000 { v := true }
      else if j = 255 then PA2PTE 0x80603000 { v := true } else .zero
    else if level = 1 then
      if j = 0 then PA2PTE 0x80602000 { v := true }
      else if j = 131071 then PA2PTE 0x80604000 { v := true } else .zero
    else if level ≠ 0 then .zero
    else if j = 0 then userPte 0x80400000
    else if j = 67108861 then PA2PTE 0x80605000 { v := true, r := true, u := true }
    else if j = 67108862 then PA2PTE 0x80606000 { v := true, r := true, w := true }
    else if j = 67108863 then PA2PTE 0x80007000 { v := true, r := true, x := true }
    else .zero

def tinyImageKernel : Kernel where
  freelist := pageRange 0x80700000 1100
  superfreelist := [SPLIT]
  mem := fun _ => 0

def tinyImageProc : Proc where
  pagetable := tinyImage
  sz := 4096
  record := fun _ => '0'
  next := 0

def tinyImageTask : Task := ⟨tinyImageKernel, tinyImageProc⟩

theorem tinyImage_page {q : Nat} : (tinyImage.ent 0 q).v = true ↔
    q = 0 ∨ UPAGES ≤ q ∧ q < UPAGES + 3 := by
  rw [UPAGES_eq]
  by_cases h₀ : q = 0
  · subst h₀
    simp [tinyImage, userPte, PA2PTE]
  by_cases h₁ : q = 67108861
  · subst h₁
    simp [tinyImage, PA2PTE]
  by_cases h₂ : q = 67108862
  · subst h₂
    simp [tinyImage, PA2PTE]
  by_cases h₃ : q = 67108863
  · subst h₃
    simp [tinyImage, PA2PTE]
  · simp [tinyImage, h₀, h₁, h₂, h₃, Pte.zero]
    omega

theorem tinyImage_slot {j : Nat} : (tinyImage.ent 1 j).v = true ↔ j = 0 ∨ j = 131071 := by
  by_cases h₀ : j = 0
  · subst h₀
    simp [tinyImage, PA2PTE]
  by_cases h₁ : j = 131071
  · subst h₁
    simp [tinyImage, PA2PTE]
  · simp [tinyImage, h₀, h₁, Pte.zero]

theorem tinyImage_super (j : Nat) : superAt tinyImage j = false := by
  by_contra h
  have hs : superAt tinyImage j = true := by simpa using h
  rcases tinyImage_slot.mp (superAt_iff.mp hs).1 with rfl | rfl <;> revert hs <;> decide

theorem tinyImage_tree : Tree tinyImage := by
  refine ⟨fun i hv => ?_, fun j hv => ?_, fun q hv => ?_⟩
  · by_cases h₀ : i = 0
    · subst h₀
      decide
    · by_cases h₁ : i = 255
      · subst h₁
        decide
      · simp [tinyImage, h₀, h₁, Pte.zero] at hv
  · rcases tinyImage_slot.mp hv with rfl | rfl
    · decide
    · decide
  · rw [tinyImage_page, UPAGES_eq] at hv
    obtain rfl | rfl | rfl | rfl :
        q = 0 ∨ q = 67108861 ∨ q = 67108862 ∨ q = 67108863 := by omega
    · decide
    · decide
    · decide
    · decide

theorem tinyImage_frame : PTE2PA (tinyImage.ent 0 0) = 0x80400000 := by decide

theorem pageRange_frame {f : Nat} (hf : f ∈ pageRange 0x80700000 1100) :
    SmallFrame 0x80200000 f ∧ 0x80700000 ≤ f := by
  unfold pageRange at hf
  rw [List.mem_map] at hf
  obtain ⟨i, hi, rfl⟩ := hf
  rw [List.mem_range] at hi
  have hsplit : SPLIT = 0x81800000 := by decide
  have hbase : KERNBASE = 0x80000000 := rfl
  refine ⟨?_, by omega⟩
  constructor <;> omega

theorem tinyImage_space : Space 0x80200000 tinyImageKernel tinyImage := by
  have hup := UPAGES_eq
  have hzero : ∀ q, q < UPAGES → (tinyImage.ent 0 q).v = true → q = 0 := by
    intro q hq hv
    rw [tinyImage_page] at hv
    omega
  have hfree : tinyImageKernel.freelist = pageRange 0x80700000 1100 := by
    unfold tinyImageKernel
    dsimp only
  refine ⟨tinyImage_tree, by decide, fun q hq hv => ?_, fun q q' hq hq' hv hv' _ => ?_,
    fun j hj => ?_, fun j j' hj _ _ => ?_, fun f hf => ?_, ?_, fun f hf => ?_,
    List.nodup_singleton _, ?_, fun i hi => ?_, fun j hj => ?_⟩
  · rw [hzero q hq hv, tinyImage_frame]
    refine ⟨by constructor <;> decide, fun hin => ?_⟩
    rw [hfree] at hin
    have := (pageRange_frame hin).2
    omega
  · rw [hzero q hq hv, hzero q' hq' hv']
  · rw [tinyImage_super] at hj
    cases hj
  · rw [tinyImage_super] at hj
    cases hj
  · rw [hfree] at hf
    exact (pageRange_frame hf).1
  · rw [hfree]
    exact pageRange_nodup _ _
  · rw [List.mem_singleton.mp hf]
    constructor <;> decide
  · constructor <;> decide
  · have hi' : i = 0 ∨ i = 255 := by
      by_contra hne
      rw [not_or] at hne
      simp [tinyImage, hne.1, hne.2, Pte.zero] at hi
    rcases hi' with rfl | rfl <;> constructor <;> decide
  · rcases tinyImage_slot.mp (tableAt_iff.mp hj).1 with rfl | rfl <;> constructor <;> decide

theorem tinyImage_layout : Layout tinyImage 1 := by
  intro q
  have hseen : (seen tinyImage q).isSome = true ↔ (tinyImage.ent 0 q).v = true := by
    unfold seen
    rw [tinyImage_super, if_neg Bool.false_ne_true]
    cases (tinyImage.ent 0 q).v with
    | true => simp
    | false => simp
  rw [hseen, tinyImage_page]
  omega

theorem tinyImage_exec : Exec 0x80200000 tinyImageTask :=
  ⟨⟨tinyImage_space, tinyImage_layout⟩, by decide, tinyImage_super 0, rfl⟩

theorem tinyImage_clear (k : Kernel) (newsz : Nat) (hmax : newsz ≤ 4194304) : Clear k tinyImage 1 newsz := by
  intro j hj hend hv
  rcases tinyImage_slot.mp hv with rfl | rfl <;> omega

theorem tinyImage_fits (newsz : Nat) (hsmall : smallNeed 1 newsz + 1 ≤ 1100) (hsuper : superNeed 1 newsz ≤ 1) :
    tinyImageProc.Fits (newEntries tinyImageProc.sz newsz) := by
  have hpage : pages tinyImageProc.sz = 1 := by decide
  have hnext : tinyImageProc.next = 0 := rfl
  unfold Proc.Fits newEntries
  rw [hpage]
  omega

theorem tinyImage_grows (n : Int) (newsz : Nat) (hn : 0 < n) (hnew : 4096 + n.toNat = newsz)
    (hsmall : smallNeed 1 newsz + 1 ≤ 1100) (hsuper : superNeed 1 newsz ≤ 1)
    (hmax : newsz ≤ 4194304) : ∃ k' pt',
    growproc 0x80200000 tinyImageKernel tinyImageProc n =
      .ok (k', tinyImageProc.afterGrowth pt' newsz, 0) ∧
    Grown 0x80200000 tinyImageKernel tinyImage k' pt' 1 newsz := by
  have hneed : Enough tinyImageKernel tinyImage 1 newsz := by
    have ht : tableNeed tinyImage 1 newsz ≤ 1 := by
      unfold tableNeed
      split <;> omega
    have hlen : tinyImageKernel.freelist.length = 1100 := by
      simp [tinyImageKernel, pageRange]
    have hslen : tinyImageKernel.superfreelist.length = 1 := rfl
    unfold Enough
    omega
  have hpage : pages tinyImageProc.sz = 1 := by decide
  have hcases := Covered.grow (k := tinyImageKernel) (p := tinyImageProc) tinyImage_exec.toCovered hn
  have hsz : tinyImageProc.sz + n.toNat = newsz := hnew
  rw [hpage, hsz] at hcases
  rcases hcases with ⟨hC, -⟩ | ⟨-, hE, -⟩ | ⟨-, -, hfits, -⟩ | ⟨-, -, -, k', pt', hok, hG⟩
  · exact absurd (tinyImage_clear _ newsz hmax) hC
  · exact absurd hneed hE
  · exact absurd (tinyImage_fits newsz hsmall hsuper) hfits
  · exact ⟨k', pt', hok, hG⟩

theorem tinyImage_record (pt : PageTable) (newsz : Nat) (h : superNeed 1 newsz = 0) :
    (tinyImageProc.afterGrowth pt newsz).next = smallNeed 1 newsz ∧
      ∀ i, (tinyImageProc.afterGrowth pt newsz).record i = '0' := by
  have hS : superNeed (pages tinyImageProc.sz) newsz = 0 := h
  have hle := startNeed_le 1 newsz
  unfold Proc.afterGrowth Proc.grown
  rw [hS]
  refine ⟨?_, fun i => ?_⟩
  · have hnext : tinyImageProc.next = 0 := rfl
    have hpage : pages tinyImageProc.sz = 1 := by decide
    simp only
    rw [hpage, hnext]
    omega
  · simp only
    split_ifs
    · omega
    · rfl
    · rfl

theorem tinyImage_second : ∃ t, Run (Task.Step 0x80200000) tinyImageTask [.growproc 4096] t ∧
    Covered 0x80200000 t ∧ t.p.sz = 4096 + 4096 ∧ t.p.next = (0 + 1 : Nat) ∧
    t.p.record 0 = '0' ∧ OnBoundary t.p.pagetable (pages 4096) := by
  obtain ⟨k₁, pt₁, hok, hG⟩ := tinyImage_grows 4096 8192
    (by decide) rfl (by decide) (by decide) (by decide)
  obtain ⟨hnext, hrec⟩ := tinyImage_record pt₁ 8192 (by decide)
  refine ⟨⟨k₁, tinyImageProc.afterGrowth pt₁ 8192⟩,
    .cons (.growproc ⟨by decide, by decide⟩ (by decide) hok) (.nil _), ⟨hG.space, hG.layout⟩,
    rfl, hnext, hrec 0, fun hs => ?_⟩
  have hle : 0 * 512 + 512 ≤ pages 8192 := hG.layout.super_le (by decide) hs
  exact absurd hle (by decide)

theorem tinyImage_superpage : ∃ t,
    growproc 0x80200000 tinyImageKernel tinyImageProc 4190208 = .ok (t.k, t.p, 0) ∧
    Run (Task.Step 0x80200000) tinyImageTask [.growproc 4190208] t ∧
    Covered 0x80200000 t ∧ t.p.sz = 2097152 + chunkSize (t.p.record 511) ∧
    t.p.next = (511 + 1 : Nat) ∧ -2097152 + (chunkSize (t.p.record 511) : Int) = 0 ∧
    superAt t.p.pagetable 1 = true ∧
    OnBoundary t.p.pagetable (pages 2097152) := by
  obtain ⟨k₁, pt₁, hok, hG⟩ := tinyImage_grows 4190208 4194304
    (by decide) rfl (by decide) (by decide) (by decide)
  have hnext : (tinyImageProc.afterGrowth pt₁ 4194304).next = (511 + 1 : Nat) := by
    unfold Proc.afterGrowth Proc.grown
    simp only
    decide
  have hrec : (tinyImageProc.afterGrowth pt₁ 4194304).record 511 = '1' := by
    unfold Proc.afterGrowth Proc.grown
    simp only
    decide
  have hsuper : superAt pt₁ 1 = true := (hG.super 512 (by decide) (by decide)).mpr (by decide)
  refine ⟨⟨k₁, tinyImageProc.afterGrowth pt₁ 4194304⟩, hok,
    .cons (.growproc ⟨by decide, by decide⟩ (by decide) hok) (.nil _), ⟨hG.space, hG.layout⟩,
    ?_, hnext, ?_, hsuper, fun _ => by decide⟩
  · simp only [hrec]
    rfl
  · simp only [hrec]
    decide

end Xv6Labs.Super
