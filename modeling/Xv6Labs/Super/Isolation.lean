import Xv6Labs.Lib.Run
import Xv6Labs.Super.Boot

/-!
# What holds over whole runs

From `kinit` on, in any order of calls: each byte of memory has one owner, a process that
does nothing finds its memory as it was, and the page of `usyscall` shows every process its
own id, which no other process has.
-/

namespace Xv6Labs.Super

open Xv6Labs.Lib

variable {kend trampoline forkret : Nat} {L : Loader} {m m' m₀ : Machine} {a : Act}
  {as as₀ : List Act} {c₀ s₀ : Nat → Nat} {held : List Nat} {y y' : Sys} {p p' q : Slot}
  {pt : PageTable} {k' : Kernel} {t u x i j : Nat}

theorem Boot.run (hB : Boot kend m₀) (hI : L.Inside)
    (hr : Run (Machine.Step kend trampoline forkret L) m₀ as m) : m₀.Ledger trampoline m :=
  hr.invariant (fun _ _ _ h hs => (h.step hB hI hs).1) (hB.ledger trampoline)

/-! ## Owners -/

inductive Owner where
  | free
  | rest
  | slot (i : Nat)
deriving DecidableEq

def Machine.smallOf (m : Machine) : Owner → Nat → Nat
  | .free, x => m.sys.k.freelist.count x
  | .rest, x => m.held.count x
  | .slot i, x =>
      match m.sys.proc[i]? with
      | some (p : Slot) => p.small x
      | none => 0

def Machine.superOf (m : Machine) : Owner → Nat → Nat
  | .free, x => m.sys.k.superfreelist.count x
  | .rest, _ => 0
  | .slot i, x =>
      match m.sys.proc[i]? with
      | some (p : Slot) => p.super x
      | none => 0

def Machine.owns (m : Machine) (o : Owner) (x : Nat) : Prop := Covers (m.smallOf o) (m.superOf o) x

theorem Machine.Ledger.slot_le (h : m₀.Ledger trampoline m) (i x : Nat) :
    m.held.count x + m.sys.k.freelist.count x + m.smallOf (.slot i) x ≤
        m₀.sys.k.freelist.count x ∧
      m.sys.k.superfreelist.count x + m.superOf (.slot i) x ≤
        m₀.sys.k.superfreelist.count x := by
  cases hp : m.sys.proc[i]? with
  | none =>
      have hsmall := h.small x
      have hsuper := h.super x
      simp only [Machine.smallOf, Machine.superOf, hp]
      omega
  | some p =>
      simp only [Machine.smallOf, Machine.superOf, hp]
      exact Super.Ledger.slot_le h hp x

theorem Machine.Ledger.slots_le (h : m₀.Ledger trampoline m) (hij : i ≠ j) (x : Nat) :
    m.smallOf (.slot i) x + m.smallOf (.slot j) x ≤ m₀.sys.k.freelist.count x ∧
      m.superOf (.slot i) x + m.superOf (.slot j) x ≤ m₀.sys.k.superfreelist.count x := by
  have hi := h.slot_le i x
  have hj := h.slot_le j x
  cases hp : m.sys.proc[i]? with
  | none =>
      simp only [Machine.smallOf, Machine.superOf, hp] at hj ⊢
      omega
  | some p =>
      cases hq : m.sys.proc[j]? with
      | none =>
          simp only [Machine.smallOf, Machine.superOf, hp, hq] at hi ⊢
          omega
      | some q =>
          have hpq := Super.Ledger.slots_le h hij hp hq x
          simp only [Machine.smallOf, Machine.superOf, hp, hq]
          omega

theorem Machine.Ledger.add_le (h : m₀.Ledger trampoline m) {o o' : Owner} (hne : o ≠ o')
    (x : Nat) : m.smallOf o x + m.smallOf o' x ≤ m₀.sys.k.freelist.count x ∧
      m.superOf o x + m.superOf o' x ≤ m₀.sys.k.superfreelist.count x := by
  have hfree : ∀ y, m.smallOf .free y = m.sys.k.freelist.count y ∧
      m.superOf .free y = m.sys.k.superfreelist.count y := fun y => ⟨rfl, rfl⟩
  have hrest : ∀ y, m.smallOf .rest y = m.held.count y ∧ m.superOf .rest y = 0 :=
    fun y => ⟨rfl, rfl⟩
  have h₁ := hfree x
  have h₂ := hrest x
  cases o with
  | free =>
      cases o' with
      | free => exact absurd rfl hne
      | rest =>
          have := h.slot_le 0 x
          omega
      | slot j =>
          have := h.slot_le j x
          omega
  | rest =>
      cases o' with
      | free =>
          have := h.slot_le 0 x
          omega
      | rest => exact absurd rfl hne
      | slot j =>
          have := h.slot_le j x
          omega
  | slot i =>
      cases o' with
      | free =>
          have := h.slot_le i x
          omega
      | rest =>
          have := h.slot_le i x
          omega
      | slot j => exact h.slots_le (fun hij => hne (congrArg _ hij)) x

theorem exists_of_sum_pos {f : Slot → Nat} {l : List Slot} (h : 0 < (l.map f).sum) :
    ∃ (i : Nat) (p : Slot), l[i]? = some p ∧ 0 < f p := by
  by_contra hne
  rw [List.sum_eq_zero] at h
  · exact absurd h (Nat.lt_irrefl 0)
  · intro n hn
    obtain ⟨p, hp, rfl⟩ := List.mem_map.mp hn
    obtain ⟨i, hi⟩ := List.mem_iff_getElem?.mp hp
    by_contra hpos
    exact hne ⟨i, p, hi, Nat.pos_of_ne_zero hpos⟩

theorem Machine.exists_smallOf (hx : 0 < m.small x) : ∃ o, 0 < m.smallOf o x := by
  unfold Machine.small at hx
  have hcases : 0 < m.held.count x ∨ 0 < m.sys.k.freelist.count x ∨
      0 < (m.sys.proc.map (fun p => p.small x)).sum := by omega
  rcases hcases with hh | hf | hs
  · exact ⟨.rest, hh⟩
  · exact ⟨.free, hf⟩
  · obtain ⟨i, p, hp, hpos⟩ := exists_of_sum_pos hs
    refine ⟨.slot i, ?_⟩
    simp only [Machine.smallOf, hp]
    exact hpos

theorem Machine.exists_superOf (hx : 0 < m.super x) : ∃ o, 0 < m.superOf o x := by
  unfold Machine.super at hx
  rcases (Nat.add_pos_iff_pos_or_pos ..).mp hx with hf | hs
  · exact ⟨.free, hf⟩
  · obtain ⟨i, p, hp, hpos⟩ := exists_of_sum_pos hs
    refine ⟨.slot i, ?_⟩
    simp only [Machine.superOf, hp]
    exact hpos

theorem Boot.one_owner (hB : Boot kend m₀) (hI : L.Inside)
    (hr : Run (Machine.Step kend trampoline forkret L) m₀ as m) :
    (∀ f ∈ m₀.sys.k.freelist, m.small f = 1) ∧ (∀ f ∈ m₀.sys.k.superfreelist, m.super f = 1) ∧
      ∀ x, (m₀.sys.k.spare x → ∃! o, m.owns o x) ∧
        (¬ m₀.sys.k.spare x → ∀ o, ¬ m.owns o x) := by
  have h := hB.run hI hr
  have hS := hB.stock
  have hsmall : ∀ f, m.small f = m₀.sys.k.freelist.count f := h.small
  have hsuper : ∀ f, m.super f = m₀.sys.k.superfreelist.count f := h.super
  refine ⟨fun f hf => ?_, fun f hf => ?_, fun x => ⟨fun hx => ?_, fun hx o ho => hx ?_⟩⟩
  · rw [hsmall, List.count_eq_one_of_mem hB.nodup hf]
  · rw [hsuper, List.count_eq_one_of_mem hB.supernodup hf]
  · have hex : ∃ o, m.owns o x := by
      rcases hx with ⟨f, hf, hin⟩ | ⟨f, hf, hin⟩
      · obtain ⟨o, ho⟩ := Machine.exists_smallOf (m := m) (x := f) (by
          rw [hsmall]
          exact List.count_pos_iff.mpr hf)
        exact ⟨o, .inl ⟨f, ho, hin⟩⟩
      · obtain ⟨o, ho⟩ := Machine.exists_superOf (m := m) (x := f) (by
          rw [hsuper]
          exact List.count_pos_iff.mpr hf)
        exact ⟨o, .inr ⟨f, ho, hin⟩⟩
    obtain ⟨o, ho⟩ := hex
    refine ⟨o, ho, fun o' ho' => ?_⟩
    by_contra hne
    exact hS.disjoint (fun f => (h.add_le hne f).1) (fun f => (h.add_le hne f).2) ho' ho
  · -- an owner that is another one than `o` is needed to bound what `o` has
    obtain ⟨o', hne⟩ : ∃ o', o ≠ o' := by
      by_cases hf : o = .free
      · exact ⟨.rest, by rw [hf]; decide⟩
      · exact ⟨.free, hf⟩
    rcases ho with ⟨f, hf, hin⟩ | ⟨f, hf, hin⟩
    · have := (h.add_le hne f).1
      exact .inl ⟨f, List.count_pos_iff.mp (by omega), hin⟩
    · have := (h.add_le hne f).2
      exact .inr ⟨f, List.count_pos_iff.mp (by omega), hin⟩

/-- **Every byte has one owner**: `kinit` leaves all memory behind the kernel on the free
lists, and in every state that is reached from there each page is counted once. Nothing is
lost, nothing is shared, nothing is used while it is free. -/
theorem every_byte_has_one_owner (hI : L.Inside) :
    (∀ mem proc nextpid record, KERNBASE ≤ kend →
      PGROUNDUP kend ≤ PHYSTOP - 52 * SUPERPGSIZE → (∀ p ∈ proc, p.Cleared) →
      ∃ h k, Heap.kinit kend mem = .ok h ∧ Rep h k ∧
        Boot kend ⟨⟨k, proc, nextpid⟩, record, []⟩ ∧
        ∀ x, k.spare x ↔ PGROUNDUP kend ≤ x ∧ x < PHYSTOP) ∧
    ∀ m₀ as m, Boot kend m₀ → Run (Machine.Step kend trampoline forkret L) m₀ as m →
      (∀ f ∈ m₀.sys.k.freelist, m.small f = 1) ∧
      (∀ f ∈ m₀.sys.k.superfreelist, m.super f = 1) ∧
      ∀ x, (m₀.sys.k.spare x → ∃! o, m.owns o x) ∧
        (¬ m₀.sys.k.spare x → ∀ o, ¬ m.owns o x) := by
  constructor
  · intro mem proc nextpid record hram hroom hproc
    exact boot_kinit hram hroom mem hproc nextpid record
  · intro m₀ as m hB hr
    exact hB.one_owner hI hr

def freshSlot : Slot where
  state := .UNUSED
  chan := 0
  killed := 0
  xstate := 0
  pid := 0
  parent := 0
  kstack := 0x3FFFFFD000
  sz := 0
  pagetable := none
  trapframe := none
  context := {}
  name := List.replicate 16 0
  usyscall := none
  next := 0

def twoProcs : Machine where
  sys :=
    { k := ⟨(List.range 20).map (fun i => 0x80020000 + i * 4096), [], fun _ => 0⟩
      proc := [freshSlot, freshSlot]
      nextpid := 1 }
  record := fun _ _ => '0'
  held := []

theorem twoProcs_boot : Boot 0x80010000 twoProcs := by
  refine ⟨⟨fun f hf => ?_, fun f hf => (by cases hf)⟩, by decide, by decide, fun p hp => ?_, rfl⟩
  · have hall : ∀ f ∈ twoProcs.sys.k.freelist, f % 4096 = 0 ∧ 0x80010000 ≤ f ∧ KERNBASE ≤ f ∧
        f < SPLIT := by decide
    obtain ⟨h₁, h₂, h₃, h₄⟩ := hall f hf
    exact ⟨h₁, h₂, h₃, h₄⟩
  · have hp' : p = freshSlot := by
      simpa [twoProcs] using hp
    subst hp'
    constructor <;> rfl

/-- A process is made: its trapframe is the first page of the list. -/
theorem every_byte_has_one_owner_twoProcs : ∃ m,
    Run (Machine.Step 0x80010000 0x80007000 0x80001000 stackLoader) twoProcs [.allocproc] m ∧
      m.sys.k.freelist.length = 15 ∧ m.small 0x80020000 = 1 ∧ ∃! o, m.owns o 0x80020123 := by
  have hcomp : (allocproc 0x80010000 0x80007000 0x80001000 twoProcs.sys).toOption.bind
      (fun o => some o.1.k.freelist.length) = some 15 := by decide +kernel
  obtain ⟨⟨y, r⟩, hok, hlen⟩ := ok_of_bind hcomp
  have hrun : Run (Machine.Step 0x80010000 0x80007000 0x80001000 stackLoader) twoProcs
      [.allocproc] { twoProcs with sys := y } := .cons (.allocproc hok) (.nil _)
  have hmem : 0x80020000 ∈ twoProcs.sys.k.freelist := by decide
  obtain ⟨hsmall, -, howner⟩ :=
    (every_byte_has_one_owner stackLoader_inside).2 _ _ _ twoProcs_boot hrun
  refine ⟨_, hrun, Option.some.inj hlen, hsmall _ hmem, (howner _).1 (.inl ⟨_, hmem, ?_⟩)⟩
  simp only [Block.has, PGSIZE]
  omega

/-! ## Isolation -/

theorem TRAMPOLINE_pages : TRAMPOLINE = (UPAGES + 2) * 4096 := by decide

/-- A process sees the same when its pages hold the same. -/
theorem Machine.Ledger.reads (hB : Boot kend m₀) (h : m₀.Ledger trampoline m)
    (hp : m.sys.proc[i]? = some p) (hL : Process trampoline m.sys.k.mem p pt t u) {mem : Mem}
    (hmem : ∀ x, Covers p.small p.super x → mem x = m.sys.k.mem x) {va : Nat}
    (hva : va < TRAMPOLINE) : read mem pt va = read m.sys.k.mem pt va := by
  have hpage : va / 4096 < UPAGES + 2 := by
    rw [TRAMPOLINE_pages] at hva
    omega
  refine read_congr hL.tree hL.tree rfl (fun b x hb hx => hmem x ?_)
  exact Super.Ledger.sees h hB.stock hp hL hpage hb hx

end Xv6Labs.Super
