import Xv6Labs.Super.Isolation
import Xv6Labs.Super.Growproc

/-!
# A process by itself

The model of `growproc` calls has one process and an environment that leaves the pages of
the process alone (`Task.Step`). Here the environment is the rest of the machine: what a
process does between one `exec` and the next is a run of that model with the same calls.
-/

namespace Xv6Labs.Super

open Xv6Labs.Lib

variable {kend trampoline forkret : Nat} {L : Loader} {m m' m₀ : Machine} {a : Act}
  {as as₀ : List Act} {c₀ s₀ : Nat → Nat} {held : List Nat} {y : Sys} {p p' : Slot}
  {pt pt' : PageTable} {t u i : Nat}

/-- **The address space** of a process whose first page is there. -/
theorem Ledger.space (h : Ledger trampoline c₀ s₀ held y) (hS : Stock kend c₀ s₀)
    (hp : y.proc[i]? = some p) (hL : Process trampoline y.k.mem p pt t u)
    (hfirst : tableAt pt 0 = true) : Space kend y.k pt := by
  have hcount : ∀ x, y.k.freelist.count x + tableCount pt x + pageCount pt x ≤ c₀ x := by
    intro x
    have h₁ := (h.slot_le hp x).1
    rw [hL.small] at h₁
    omega
  have hsuper : ∀ x, y.k.superfreelist.count x + superCount pt x ≤ s₀ x := by
    intro x
    have h₁ := (h.slot_le hp x).2
    rw [hL.super] at h₁
    exact h₁
  obtain ⟨hsort, hnodup, hsnodup⟩ := h.sorted hS
  have htable : ∀ x, 0 < tableCount pt x → SmallFrame kend x := by
    intro x hx
    refine hS.small x ?_
    have := hcount x
    omega
  -- slots with an entry are within the table
  have hslot : ∀ j, (pt.ent 1 j).v = true → j < 262144 := by
    intro j hj
    have := hL.range _ (hL.tree.mid j hj).1
    omega
  have hroot : (pt.ent 2 0).v = true := (hL.tree.mid 0 (tableAt_iff.mp hfirst).1).1
  refine
    { toTree := hL.tree
      root := hroot
      small := fun q hq hv => ?_
      smallInj := fun q q' hq hq' hv hv' heq => ?_
      super := fun j hj => ?_
      superInj := fun j j' hj hj' heq => ?_
      free := hsort.small
      nodup := hnodup
      superfree := hsort.super
      supernodup := hsnodup
      tables := ⟨htable _ ?_, fun i hi => htable _ ?_, fun j hj => htable _ ?_⟩ }
  · have hpos : 0 < pageCount pt (PTE2PA (pt.ent 0 q)) :=
      hits_pos_iff.mpr ⟨q, hq, Pte.frame_of_v hv⟩
    have h₁ := hcount (PTE2PA (pt.ent 0 q))
    have h₂ := hS.once (PTE2PA (pt.ent 0 q))
    refine ⟨hS.small _ (by omega), fun hmem => ?_⟩
    have := List.count_pos_iff.mpr hmem
    omega
  · by_contra hne
    have htwice : 2 ≤ pageCount pt (PTE2PA (pt.ent 0 q)) :=
      two_le_hits hne hq hq' (Pte.frame_of_v hv) (by rw [Pte.frame_of_v hv', heq])
    have h₁ := hcount (PTE2PA (pt.ent 0 q))
    have h₂ := hS.once (PTE2PA (pt.ent 0 q))
    omega
  · have hpos : 0 < superCount pt (PTE2PA (pt.ent 1 j)) :=
      hits_pos_iff.mpr ⟨j, hslot j (superAt_iff.mp hj).1, if_pos hj⟩
    have h₁ := hsuper (PTE2PA (pt.ent 1 j))
    have h₂ := hS.superonce (PTE2PA (pt.ent 1 j))
    refine ⟨hS.super _ (by omega), fun hmem => ?_⟩
    have := List.count_pos_iff.mpr hmem
    omega
  · by_contra hne
    have htwice : 2 ≤ superCount pt (PTE2PA (pt.ent 1 j)) :=
      two_le_hits hne (hslot j (superAt_iff.mp hj).1) (hslot j' (superAt_iff.mp hj').1)
        (if_pos hj) (by rw [superPage, if_pos hj', heq])
    have h₁ := hsuper (PTE2PA (pt.ent 1 j))
    have h₂ := hS.superonce (PTE2PA (pt.ent 1 j))
    omega
  · unfold tableCount
    rw [if_pos rfl]
    omega
  · have hpos : 0 < hits 512 (fun i => (pt.ent 2 i).frame) (PTE2PA (pt.ent 2 i)) :=
      hits_pos_iff.mpr ⟨i, hL.range i hi, Pte.frame_of_v hi⟩
    unfold tableCount
    omega
  · have hpos : 0 < hits 262144 (tablePage pt) (PTE2PA (pt.ent 1 j)) :=
      hits_pos_iff.mpr ⟨j, hslot j (tableAt_iff.mp hj).1, if_pos hj⟩
    unfold tableCount
    omega

/-! ## The view of a process -/

/-- What the process in slot `i` is to the model of one process. -/
structure Alone (m : Machine) (i : Nat) (p : Slot) (pt : PageTable) : Prop where
  slot : m.sys.proc[i]? = some p
  state : p.state ≠ .UNUSED
  pagetable : p.pagetable = some pt
  first : tableAt pt 0 = true

def Machine.task (m : Machine) (i : Nat) (p : Slot) (pt : PageTable) : Task :=
  ⟨m.sys.k, m.proc i p pt⟩

/-- The calls of `growproc` that the process in slot `i` makes. -/
def Act.call (i : Nat) : Act → Option Int
  | .growproc j n => if j = i then some n else none
  | _ => none

def Event.call : Event → Option Int
  | .growproc n => some n
  | .others _ => none

/-- The process in slot `i` gets another page table, or goes. -/
def Act.replaces (i : Nat) : Act → Prop
  | .exec j _ _ _ => j = i
  | .freeproc j => j = i
  | _ => False

theorem Alone.space (hB : Boot kend m₀) (h : m₀.Ledger trampoline m) (hA : Alone m i p pt) :
    Space kend m.sys.k pt := by
  obtain ⟨pt', t, u, hL⟩ := Super.Ledger.process h hA.slot hA.state
  obtain rfl := Option.some.inj (hL.pagetable.symm.trans hA.pagetable)
  exact Super.Ledger.space h hB.stock hA.slot hL hA.first

/-- A step that is no call of the process itself. -/
theorem Alone.rests (hA : Alone m i p pt) {st : ProcState} (hst : st ≠ .UNUSED)
    (hslot : m'.sys.proc[i]? = some { p with state := st }) :
    Alone m' i { p with state := st } pt :=
  ⟨hslot, hst, hA.pagetable, hA.first⟩

/-- **One step** of the machine is a call of `growproc` or an event of the environment. -/
theorem Alone.step (hB : Boot kend m₀) (hI : L.Inside) (h : m₀.Ledger trampoline m)
    (hA : Alone m i p pt) (hkeep : ¬ a.replaces i)
    (hs : Machine.Step kend trampoline forkret L m a m') :
    ∃ p' pt' e, Alone m' i p' pt' ∧ Task.Step kend (m.task i p pt) e (m'.task i p' pt') ∧
      e.call = a.call i := by
  have hstep := h.step hB hI hs
  obtain ⟨h', hrest⟩ := hstep
  -- whatever leaves the slot as it is, but for the state, is an event of the environment
  have hothers : a.call i = none → (∃ st, st ≠ .UNUSED ∧
      m'.sys.proc[i]? = some { p with state := st }) → m'.record i = m.record i →
      ∃ p' pt' e, Alone m' i p' pt' ∧ Task.Step kend (m.task i p pt) e (m'.task i p' pt') ∧
        e.call = a.call i := by
    rintro hcall ⟨st, hst, hslot⟩ hrec
    have hA' := hA.rests hst hslot
    refine ⟨_, pt, .others m'.sys.k, hA', ?_, hcall.symm⟩
    have hproc : m'.proc i { p with state := st } pt = m.proc i p pt := by
      unfold Machine.proc
      rw [hrec]
    unfold Machine.task
    rw [hproc]
    exact .others (hA'.space hB h')
  have halone : a.call i = none → a.owner ≠ some i → ∃ p' pt' e, Alone m' i p' pt' ∧
      Task.Step kend (m.task i p pt) e (m'.task i p' pt') ∧ e.call = a.call i := by
    intro hcall hown
    have hR := hrest.rests i p hA.slot hA.state hown
    exact hothers hcall hR.slot hR.record
  cases hs with
  | @growproc j n ret q qt k q' hq hrun hqt hint hpos hmem hmax hok =>
      by_cases hj : j = i
      swap
      · refine halone (if_neg hj) (fun hown => hj (Option.some.inj hown))
      subst hj
      obtain rfl := Option.some.inj (hq.symm.trans hA.slot)
      obtain rfl := Option.some.inj (hqt.symm.trans hA.pagetable)
      obtain ⟨qt', t, u, hL⟩ := Super.Ledger.process h hA.slot hA.state
      obtain rfl := Option.some.inj (hL.pagetable.symm.trans hA.pagetable)
      obtain ⟨-, -, hfirst⟩ := Super.Ledger.growproc h hB.stock hA.slot hL hmem hmax hok
      have hlt := (List.getElem?_eq_some_iff.mp hA.slot).1
      refine ⟨q.grown q', q'.pagetable, .growproc n,
        ⟨List.getElem?_set_self hlt, hA.state, rfl, hfirst⟩, ?_, (if_pos rfl).symm⟩
      have hproc : Machine.proc ⟨⟨k, m.sys.proc.set j (q.grown q'), m.sys.nextpid⟩,
          Function.update m.record j q'.record, m.held⟩ j (q.grown q') q'.pagetable = q' := by
        simp only [Machine.proc, Slot.grown, Function.update_self]
      unfold Machine.task
      rw [hproc]
      exact .growproc hint hpos hok
  | allocproc _ => exact halone rfl (by simp [Act.owner])
  | fork _ _ _ => exact halone rfl (by simp [Act.owner])
  | @exec j path elf argv q q' k ret hq hrun helf hok =>
      exact halone rfl (fun hown => hkeep (Option.some.inj hown))
  | @freeproc j q q' k hq hzombie hok =>
      exact halone rfl (fun hown => hkeep (Option.some.inj hown))
  | state _ _ _ => exact halone rfl (by simp [Act.owner])
  | store _ _ _ _ _ _ _ => exact hothers rfl ⟨p.state, hA.state, hA.slot⟩ rfl
  | trapframe _ _ _ => exact hothers rfl ⟨p.state, hA.state, hA.slot⟩ rfl
  | kalloc _ => exact halone rfl (by simp [Act.owner])
  | kfree _ _ => exact halone rfl (by simp [Act.owner])
  | kstore _ _ => exact halone rfl (by simp [Act.owner])

/-- **The machine refines the model of one process.** From any state that is reached, what a
process that has memory does until it starts another program or goes is a run of
`Task.Step` with the same calls of `growproc`, in the same order; that nothing of its pages
is on a free list, which `Task.Step` takes for granted, is what the rest of the machine
keeps. -/
theorem process_runs_alone (hB : Boot kend m₀) (hI : L.Inside)
    (hr₀ : Run (Machine.Step kend trampoline forkret L) m₀ as₀ m)
    (hr : Run (Machine.Step kend trampoline forkret L) m as m')
    (hp : m.sys.proc[i]? = some p) (hst : p.state ≠ .UNUSED) (hmem : 0 < p.sz)
    (hpt : p.pagetable = some pt) (hkeep : ∀ a ∈ as, ¬ a.replaces i) :
    ∃ p' pt' es, m'.sys.proc[i]? = some p' ∧ p'.pagetable = some pt' ∧
      Run (Task.Step kend) (m.task i p pt) es (m'.task i p' pt') ∧
      es.filterMap Event.call = as.filterMap (Act.call i) := by
  have h := hB.run hI hr₀
  have hA : Alone m i p pt := by
    obtain ⟨pt', t, u, hL⟩ := Super.Ledger.process h hp hst
    obtain rfl := Option.some.inj (hL.pagetable.symm.trans hpt)
    exact ⟨hp, hst, hpt, hL.image hmem⟩
  clear hr₀ hp hst hmem hpt
  induction hr generalizing p pt with
  | nil m => exact ⟨p, pt, [], hA.slot, hA.pagetable, .nil _, rfl⟩
  | @cons m m₁ m' a as hs hrun ih =>
      obtain ⟨p₁, pt₁, e, hA₁, hstep, hcall⟩ :=
        hA.step hB hI h (hkeep a List.mem_cons_self) hs
      obtain ⟨p', pt', es, hp', hpt', htask, hcalls⟩ :=
        ih (fun a ha => hkeep a (List.mem_cons_of_mem _ ha)) (h.step hB hI hs).1 hA₁
      refine ⟨p', pt', e :: es, hp', hpt', .cons hstep htask, ?_⟩
      rw [List.filterMap_cons, List.filterMap_cons, hcall, hcalls]

def bss : Elf where
  segments := [some { vaddr := 0, memsz := 100, filesz := 0, off := 0, w := true, x := true }]
  entry := 0

theorem bss_low (elf : Elf) (h : some bss = some elf) : elf.Low := by
  obtain rfl := Option.some.inj h
  intro ph hph
  obtain rfl := Option.some.inj (List.mem_singleton.mp hph)
  decide

/-- The first process starts a program; it may grow then, and there may be another process. -/
theorem first_program : ∃ m p k p' pt,
    Run (Machine.Step 0x80010000 0x80007000 0x80001000 stackLoader) twoProcs
        [.allocproc, .state 0 .RUNNING] m ∧ m.record = twoProcs.record ∧
      m.sys.proc[0]? = some p ∧ p.state = .RUNNING ∧
      exec 0x80010000 stackLoader 0x80007000 m.sys.k p [97] (some bss) [] = .ok (k, p', 0) ∧
      p'.state = .RUNNING ∧ p'.sz = 12288 ∧ p'.pagetable = some pt ∧
      (∃ k₂ p₂, growproc 0x80010000 k ⟨pt, p'.sz, fun _ => '0', p'.next⟩ 4096 = .ok (k₂, p₂, 0) ∧
        p₂.sz = 16384) ∧
      ∃ y, allocproc 0x80010000 0x80007000 0x80001000
        ⟨k, m.sys.proc.set 0 p', m.sys.nextpid⟩ = .ok (y, some 1) := by
  have hcomp : (allocproc 0x80010000 0x80007000 0x80001000 twoProcs.sys).toOption.bind
      (fun o => o.1.proc[0]?.bind (fun q =>
        (exec 0x80010000 stackLoader 0x80007000 o.1.k { q with state := .RUNNING } [97]
          (some bss) []).toOption.bind (fun e => e.2.1.pagetable.bind (fun pt =>
          (growproc 0x80010000 e.1 ⟨pt, e.2.1.sz, fun _ => '0', e.2.1.next⟩
            4096).toOption.bind (fun g =>
            (allocproc 0x80010000 0x80007000 0x80001000
              ⟨e.1, (o.1.proc.set 0 { q with state := .RUNNING }).set 0 e.2.1,
                o.1.nextpid⟩).toOption.bind (fun a =>
              some ([q.state, e.2.1.state], [e.2.1.sz, g.2.1.sz], [e.2.2, g.2.2], a.2))))))) =
      some ([.USED, .RUNNING], [12288, 16384], [0, 0], some 1) := by decide +kernel
  obtain ⟨⟨y, r⟩, hok, h₁⟩ := ok_of_bind hcomp
  obtain ⟨q, hq, h₂⟩ := Option.bind_eq_some_iff.mp h₁
  obtain ⟨⟨k, p', ret⟩, hexec, h₃⟩ := ok_of_bind h₂
  obtain ⟨pt, hpt, h₄⟩ := Option.bind_eq_some_iff.mp h₃
  obtain ⟨⟨k₂, p₂, ret₂⟩, hgrow, h₅⟩ := ok_of_bind h₄
  obtain ⟨⟨y₂, r₂⟩, hok₂, h₆⟩ := ok_of_bind h₅
  simp only [Option.some.injEq, Prod.mk.injEq, List.cons.injEq, and_true] at h₆
  obtain ⟨⟨hst, hst'⟩, ⟨hsz, hsz₂⟩, ⟨rfl, rfl⟩, rfl⟩ := h₆
  have hlt := (List.getElem?_eq_some_iff.mp hq).1
  refine ⟨_, { q with state := .RUNNING }, k, p', pt,
    .cons (.allocproc hok) (.cons (.state hq (by rw [hst]; decide) (by decide)) (.nil _)), rfl,
    List.getElem?_set_self hlt, rfl, hexec, hst', hsz, hpt, ⟨k₂, p₂, hgrow, hsz₂⟩, y₂, hok₂⟩

/-- It grows by a page. -/
theorem process_runs_alone_bss : ∃ m m' p p' pt pt' es,
    Run (Machine.Step 0x80010000 0x80007000 0x80001000 stackLoader) m [.growproc 0 4096] m' ∧
      m'.sys.proc[0]? = some p' ∧ p'.pagetable = some pt' ∧ p'.sz = 16384 ∧
      Run (Task.Step 0x80010000) (m.task 0 p pt) es (m'.task 0 p' pt') ∧
      es.filterMap Event.call = [4096] := by
  obtain ⟨m, p, k, p', pt, hrun, hrec, hp, hst, hexec, hst', hsz, hpt, ⟨k₂, p₂, hgrow, hsz₂⟩,
    -⟩ := first_program
  have hlt := (List.getElem?_eq_some_iff.mp hp).1
  have hslot : (m.sys.proc.set 0 p')[0]? = some p' := List.getElem?_set_self hlt
  have hrun₁ := hrun.append (.cons (.exec hp hst bss_low hexec) (.nil _))
  have hproc : (m.record 0) = fun _ => '0' := by rw [hrec]; rfl
  have hstep : Run (Machine.Step 0x80010000 0x80007000 0x80001000 stackLoader)
      { m with sys := ⟨k, m.sys.proc.set 0 p', m.sys.nextpid⟩ } [.growproc 0 4096] _ :=
    .cons (.growproc hslot hst' hpt (by decide) (by rw [hsz]; decide) (by rw [hsz]; decide)
      (by rw [hsz]; decide) (by unfold Machine.proc; rw [hproc]; exact hgrow)) (.nil _)
  obtain ⟨q, qt, es, hq, hqt, htask, hcalls⟩ := process_runs_alone twoProcs_boot
    stackLoader_inside hrun₁ hstep hslot (by rw [hst']; decide) (by rw [hsz]; decide) hpt
    (by simp [Act.replaces])
  have hgrown := List.getElem?_set_self (a := p'.grown p₂) (by simpa using hlt :
    0 < (m.sys.proc.set 0 p').length)
  refine ⟨_, _, p', q, pt, qt, es, hstep, hq, hqt, ?_, htask, hcalls⟩
  rw [← Option.some.inj (hgrown.symm.trans hq)]
  exact hsz₂

end Xv6Labs.Super
