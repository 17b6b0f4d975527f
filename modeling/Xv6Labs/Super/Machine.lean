import Xv6Labs.Super.Exec

/-!
# The processes of the superpage kernel

`Machine` is the process table over the page tables, with `p->record` of every slot and the
pages that the rest of the kernel has taken. Processes come and go, fork, start programs,
grow and shrink in any order. Within its 10000 bytes nothing is asked of a record: a call of
`growproc` may leave a process whose size and page table do not fit any more, and the others
go on. `growproc` checks no bounds. A call that would read or store outside
`record[0..9999]`, where `usyscall`, `next` and the following slot lie, ends the run as a
panic does, so nothing is said of runs with such a call.

In every state that is reached each page has one owner (`every_byte_has_one_owner`), so what
happens in a damaged process stays there.
-/

namespace Xv6Labs.Super

open Xv6Labs.Lib

/-! ## The code -/

def TRAPFRAMESIZE : Nat := 288

def A0 : Nat := 112

/-- What `fork` copies to the slot of the child, its files apart; a pointer to a slot is its
number counted from 1. -/
def Slot.child (np p : Slot) (i : Nat) : Slot :=
  { np with
    sz := p.sz
    name := safestrcpy np.name p.name 16
    parent := i + 1
    state := .RUNNABLE }

/-- The registers of the child; it returns 0 from the call. -/
def copyRegisters (mem : Mem) (ntf tf : Nat) : Mem :=
  (mem.copy ntf tf TRAPFRAMESIZE).store (ntf + A0) (le64 0)

def fork (kend trampoline forkret : Nat) (y : Sys) (i : Nat) : Except String (Sys × Int) :=
  match allocproc kend trampoline forkret y with
  | .error e => .error e
  | .ok (y, none) => .ok (y, -1)
  | .ok (y, some j) =>
      match y.proc[i]?, y.proc[j]? with
      | some p, some np =>
          match p.pagetable, np.pagetable, p.trapframe, np.trapframe with
          | some old, some new, some tf, some ntf =>
              match uvmcopy kend y.k old new p.sz with
              | .error e => .error e
              | .ok (k, old, new, ret) =>
                  let proc := y.proc.set i { p with pagetable := some old }
                  let np := { np with pagetable := some new }
                  if ret < 0 then
                    match freeproc kend k np with
                    | .error e => .error e
                    | .ok (k, np) => .ok (⟨k, proc.set j np, y.nextpid⟩, -1)
                  else
                    .ok (⟨{ k with mem := copyRegisters k.mem ntf tf },
                      proc.set j (np.child p i), y.nextpid⟩, np.pid.toInt)
          | _, _, _, _ => .error "fork: null pointer"
      | _, _ => .error "fork: no process"

/-! ## The machine -/

structure Machine where
  sys : Sys
  /-- `p->record` of each slot -/
  record : Nat → Nat → Char
  /-- pages from `kalloc` in the rest of the kernel -/
  held : List Nat

inductive Act where
  /-- `userinit` -/
  | allocproc
  | growproc (i : Nat) (n : Int)
  | fork (i : Nat)
  | exec (i : Nat) (path : List UInt8) (elf : Option Elf) (argv : List Bytes)
  /-- `wait` -/
  | freeproc (i : Nat)
  /-- the scheduler, `sleep`, `wakeup`, `exit` -/
  | state (i : Nat) (st : ProcState)
  /-- the program stores the byte `b` -/
  | store (i va : Nat) (b : UInt8)
  /-- the trap handler and the system calls write to the trapframe -/
  | trapframe (i off : Nat) (b : UInt8)
  | kalloc
  | kfree (pa : Nat)
  /-- the rest of the kernel writes to a page it has taken -/
  | kstore (pa off : Nat) (b : UInt8)

/-- The call `growproc(n)` of a process `p`. -/
def Machine.proc (m : Machine) (i : Nat) (p : Slot) (pt : PageTable) : Proc :=
  ⟨pt, p.sz, m.record i, p.next⟩

def Slot.grown (p : Slot) (p' : Proc) : Slot :=
  { p with pagetable := some p'.pagetable, sz := p'.sz, next := p'.next }

/-- One step. Programs end below 2 MB, and processes that have memory, others do not run,
grow below 1 GB. A call that panics is no step, and neither is a call of `growproc` that
reads or stores outside `record[0..9999]`. -/
inductive Machine.Step (kend trampoline forkret : Nat) (L : Loader) :
    Machine → Act → Machine → Prop
  | allocproc {m : Machine} {y : Sys} {r : Option Nat}
      (hok : Super.allocproc kend trampoline forkret m.sys = .ok (y, r)) :
      Step kend trampoline forkret L m .allocproc { m with sys := y }
  | growproc {m : Machine} {i : Nat} {n ret : Int} {p : Slot} {pt : PageTable} {k : Kernel}
      {p' : Proc} (hp : m.sys.proc[i]? = some p) (hrun : p.state = .RUNNING)
      (hpt : p.pagetable = some pt) (hint : -2 ^ 31 ≤ n ∧ n < 2 ^ 31) (hpos : 0 ≤ p.sz + n)
      (hmem : 0 < p.sz) (hmax : p.sz + n ≤ 2 ^ 30)
      (hok : Super.growproc kend m.sys.k (m.proc i p pt) n = .ok (k, p', ret)) :
      Step kend trampoline forkret L m (.growproc i n)
        ⟨⟨k, m.sys.proc.set i (p.grown p'), m.sys.nextpid⟩,
          Function.update m.record i p'.record, m.held⟩
  | fork {m : Machine} {i : Nat} {p : Slot} {y : Sys} {ret : Int}
      (hp : m.sys.proc[i]? = some p) (hrun : p.state = .RUNNING)
      (hok : Super.fork kend trampoline forkret m.sys i = .ok (y, ret)) :
      Step kend trampoline forkret L m (.fork i) { m with sys := y }
  | exec {m : Machine} {i : Nat} {path : List UInt8} {elf : Option Elf} {argv : List Bytes}
      {p p' : Slot} {k : Kernel} {ret : Int} (hp : m.sys.proc[i]? = some p)
      (hrun : p.state = .RUNNING) (helf : ∀ e, elf = some e → e.Low)
      (hok : Super.exec kend L trampoline m.sys.k p path elf argv = .ok (k, p', ret)) :
      Step kend trampoline forkret L m (.exec i path elf argv)
        { m with sys := ⟨k, m.sys.proc.set i p', m.sys.nextpid⟩ }
  | freeproc {m : Machine} {i : Nat} {p p' : Slot} {k : Kernel}
      (hp : m.sys.proc[i]? = some p) (hzombie : p.state = .ZOMBIE)
      (hok : Super.freeproc kend m.sys.k p = .ok (k, p')) :
      Step kend trampoline forkret L m (.freeproc i)
        { m with sys := ⟨k, m.sys.proc.set i p', m.sys.nextpid⟩ }
  | state {m : Machine} {i : Nat} {p : Slot} {st : ProcState}
      (hp : m.sys.proc[i]? = some p) (hold : p.state ≠ .UNUSED) (hnew : st ≠ .UNUSED) :
      Step kend trampoline forkret L m (.state i st)
        { m with sys := { m.sys with proc := m.sys.proc.set i { p with state := st } } }
  | store {m : Machine} {i va level j : Nat} {b : UInt8} {p : Slot} {pt : PageTable}
      (hp : m.sys.proc[i]? = some p) (hrun : p.state = .RUNNING)
      (hpt : p.pagetable = some pt) (hva : va < MAXVA) (hleaf : sv39 pt va = some (level, j))
      (hw : (pt.ent level j).w = true) (hu : (pt.ent level j).u = true) :
      Step kend trampoline forkret L m (.store i va b) { m with sys := { m.sys with
        k := { m.sys.k with
          mem := m.sys.k.mem.store (PTE2PA (pt.ent level j) + va % 2 ^ PXSHIFT level) [b] } } }
  | trapframe {m : Machine} {i off t : Nat} {b : UInt8} {p : Slot}
      (hp : m.sys.proc[i]? = some p) (ht : p.trapframe = some t) (hoff : off < PGSIZE) :
      Step kend trampoline forkret L m (.trapframe i off b) { m with sys := { m.sys with
        k := { m.sys.k with mem := m.sys.k.mem.store (t + off) [b] } } }
  | kalloc {m : Machine} {r : Nat} {k : Kernel} (hok : Super.kalloc m.sys.k = (some r, k)) :
      Step kend trampoline forkret L m .kalloc
        { m with sys := { m.sys with k := k }, held := r :: m.held }
  | kfree {m : Machine} {pa : Nat} {k : Kernel} (hpa : pa ∈ m.held)
      (hok : Super.kfree kend m.sys.k pa = .ok k) :
      Step kend trampoline forkret L m (.kfree pa)
        { m with sys := { m.sys with k := k }, held := m.held.erase pa }
  | kstore {m : Machine} {pa off : Nat} {b : UInt8} (hpa : pa ∈ m.held)
      (hoff : off < PGSIZE) :
      Step kend trampoline forkret L m (.kstore pa off b) { m with sys := { m.sys with
        k := { m.sys.k with mem := m.sys.k.mem.store (pa + off) [b] } } }

/-- How often the 4 KB page `x` is free, in a slot of the process table or in the rest of the
kernel. -/
def Machine.small (m : Machine) (x : Nat) : Nat :=
  m.held.count x + m.sys.k.freelist.count x + (m.sys.proc.map (fun p => p.small x)).sum

def Machine.super (m : Machine) (x : Nat) : Nat :=
  m.sys.k.superfreelist.count x + (m.sys.proc.map (fun p => p.super x)).sum

/-- The kernel after `kinit`, its process table still zeroed. -/
structure Boot (kend : Nat) (m : Machine) : Prop where
  sorted : m.sys.k.Sorted kend
  nodup : m.sys.k.freelist.Nodup
  supernodup : m.sys.k.superfreelist.Nodup
  cleared : ∀ p ∈ m.sys.proc, p.Cleared
  held : m.held = []

/-- The ledger of a machine that was `m₀` after `kinit`. -/
def Machine.Ledger (trampoline : Nat) (m₀ m : Machine) : Prop :=
  Super.Ledger trampoline (fun x => m₀.sys.k.freelist.count x)
    (fun x => m₀.sys.k.superfreelist.count x) m.held m.sys

variable {kend trampoline forkret : Nat} {L : Loader} {m m' m₀ : Machine} {a : Act} {as : List Act}
  {c₀ s₀ : Nat → Nat} {held : List Nat} {y y' : Sys} {p p' : Slot} {pt pt' : PageTable}
  {t u x i j : Nat}

theorem Boot.stock (h : Boot kend m) : Stock kend (fun x => m.sys.k.freelist.count x)
    (fun x => m.sys.k.superfreelist.count x) := by
  refine ⟨fun x => ?_, fun x => ?_, fun x hx => ?_, fun x hx => ?_⟩
  · exact List.nodup_iff_count_le_one.mp h.nodup x
  · exact List.nodup_iff_count_le_one.mp h.supernodup x
  · exact h.sorted.small x (List.count_pos_iff.mp hx)
  · exact h.sorted.super x (List.count_pos_iff.mp hx)

theorem Boot.ledger (h : Boot kend m) (trampoline : Nat) : m.Ledger trampoline m := by
  refine ⟨fun x => ?_, fun x => ?_, fun i p hp => .inl (h.cleared p (List.mem_of_getElem? hp))⟩
  · rw [h.held, List.sum_eq_zero]
    · simp
    · intro n hn
      obtain ⟨p, hp, rfl⟩ := List.mem_map.mp hn
      exact (h.cleared p hp).small x
  · rw [List.sum_eq_zero]
    · simp
    · intro n hn
      obtain ⟨p, hp, rfl⟩ := List.mem_map.mp hn
      exact (h.cleared p hp).super x

/-! ## What a process reaches -/

theorem Ledger.sees (h : Ledger trampoline c₀ s₀ held y) (hS : Stock kend c₀ s₀)
    (hp : y.proc[i]? = some p) (hL : Process trampoline y.k.mem p pt t u) {q b : Nat}
    (hq : q < UPAGES + 2) (hb : frameOf pt q = some b) (hx : b ≤ x ∧ x < b + 4096) :
    Covers p.small p.super x := by
  have hU := UPAGES_eq
  rcases frameOf_cases hb with ⟨hs, rfl⟩ | ⟨-, hv, rfl⟩
  · refine .inr ⟨PTE2PA (pt.ent 1 (q / 512)), ?_, ?_⟩
    · rw [hL.super]
      exact hits_pos_iff.mpr ⟨q / 512, by omega, if_pos hs⟩
    · simp only [Block.has, SUPERPGSIZE]
      omega
  · obtain ⟨ht, hu, -⟩ := h.aligned hS hp hL
    have hcases : q < UPAGES ∨ q = UPAGES ∨ q = UPAGES + 1 := by omega
    rcases hcases with hlt | rfl | rfl
    · refine .inl ⟨PTE2PA (pt.ent 0 q), ?_, hx⟩
      have : 0 < pageCount pt (PTE2PA (pt.ent 0 q)) :=
        hits_pos_iff.mpr ⟨q, hlt, Pte.frame_of_v hv⟩
      rw [hL.small]
      omega
    · rw [hL.fixed.usyscall, PTE2PA_PA2PTE hu.aligned] at hx
      refine .inl ⟨u, ?_, hx⟩
      rw [hL.small, if_pos (rfl : u = u)]
      omega
    · rw [hL.fixed.trapframe, PTE2PA_PA2PTE ht.aligned] at hx
      refine .inl ⟨t, ?_, hx⟩
      rw [hL.small, if_pos (rfl : t = t)]
      omega

structure Spawned (held : List Nat) (y y' : Sys) (j : Nat) (q q' : Slot) : Prop where
  slot : y.proc[j]? = some q
  cleared : q.Cleared
  proc : y'.proc = y.proc.set j q'
  nextpid : y'.nextpid = y.nextpid + 1
  turn : Turn held y y' j
  pid : q'.Cleared ∨ q'.pid = y.nextpid

/-- **`fork`** concerns the slot of the child only, a free one. -/
theorem Ledger.fork {ret : Int} (h : Ledger trampoline c₀ s₀ held y) (hS : Stock kend c₀ s₀)
    (hp : y.proc[i]? = some p) (hrun : p.state = .RUNNING)
    (hok : Super.fork kend trampoline forkret y i = .ok (y', ret)) :
    Ledger trampoline c₀ s₀ held y' ∧ (y' = y ∨ ∃ j q q', Spawned held y y' j q q') := by
  unfold Super.fork at hok
  split at hok
  · cases hok
  · rename_i y₁ halloc
    simp only [Except.ok.injEq, Prod.mk.injEq] at hok
    obtain ⟨rfl, -⟩ := hok
    obtain ⟨-, rfl⟩ | ⟨j, q, q', hq, hc, hproc, hnext, h₁, hT, ⟨-, hc'⟩ | ⟨hr, -⟩⟩ :=
      h.allocproc hS halloc
    · exact ⟨h, .inl rfl⟩
    · exact ⟨h₁, .inr ⟨j, q, q', hq, hc, hproc, hnext, hT, .inl hc'⟩⟩
    · cases hr
  rename_i y₁ j halloc
  obtain ⟨hr, -⟩ | ⟨j', q, np, hq, hc, hproc, hnext, h₁, hT, ⟨hr, -⟩ | ⟨hr, hpid, -, new, ntf, u,
    hnp⟩⟩ := h.allocproc hS halloc
  · cases hr
  · cases hr
  obtain rfl := Option.some.inj hr
  have hlt : j < y.proc.length := (List.getElem?_eq_some_iff.mp hq).1
  have hslot : y₁.proc[j]? = some np := by
    rw [hproc, List.getElem?_set_self hlt]
  -- the parent is another slot, and still what it was
  have hij : i ≠ j := by
    rintro rfl
    obtain rfl := Option.some.inj (hp.symm.trans hq)
    rw [hc.state] at hrun
    cases hrun
  have hp₁ : y₁.proc[i]? = some p := (hT.others i hij).slot.trans hp
  obtain ⟨old, tf, u', hold⟩ : ∃ pt t u, Process trampoline y₁.k.mem p pt t u := by
    rcases h₁.slots i p hp₁ with hc' | hex
    · rw [hc'.state] at hrun
      cases hrun
    · exact hex
  simp only [hp₁, hslot] at hok
  split at hok
  swap
  · cases hok
  rename_i old₁ new₁ tf₁ ntf₁ e₁ e₂ e₃ e₄
  obtain rfl := Option.some.inj (hold.pagetable.symm.trans e₁)
  obtain rfl := Option.some.inj (hnp.pagetable.symm.trans e₂)
  obtain rfl := Option.some.inj (hnp.trapframe.symm.trans e₄)
  split at hok
  · cases hok
  rename_i k old' new' ret' hcopy
  have hK := h₁.kept hS hslot hnp
  obtain ⟨hM, rfl, hret⟩ := hK.uvmcopy hold.tree hold.first hold.size hcopy
  have hparent : y₁.proc.set i { p with pagetable := some old' } = y₁.proc := by
    have hsame : { p with pagetable := some old' } = p := by
      rw [← hold.pagetable]
    obtain ⟨hi, hget⟩ := List.getElem?_eq_some_iff.mp hp₁
    rw [hsame, ← hget]
    exact List.set_getElem_self hi
  have hset : ∀ q', y₁.proc.set j q' = y.proc.set j q' := by
    intro q'
    rw [hproc, List.set_set]
  simp only [hparent, hset] at hok
  have hcopied : Ledger trampoline c₀ s₀ held
        ⟨k, y.proc.set j { np with pagetable := some new' }, y₁.nextpid⟩ ∧
      Turn held y₁ ⟨k, y.proc.set j { np with pagetable := some new' }, y₁.nextpid⟩ j ∧
      Process trampoline k.mem { np with pagetable := some new' } new' ntf u := by
    rw [← hset]
    exact h₁.moves hS hslot hnp y₁.nextpid hM ⟨rfl, rfl, rfl⟩ hnp.state rfl hnp.size
      (fun hpos => hM.table 0 (hnp.image hpos))
  obtain ⟨h₂, hT₂, hnp₂⟩ := hcopied
  have hpid₂ : { np with pagetable := some new' }.pid = y.nextpid := hpid
  generalize { np with pagetable := some new' } = np₂ at *
  have hslot₂ : (y.proc.set j np₂)[j]? = some np₂ := List.getElem?_set_self hlt
  split at hok
  · split at hok
    · cases hok
    rename_i k₃ np₃ hfree
    simp only [Except.ok.injEq, Prod.mk.injEq] at hok
    obtain ⟨rfl, -⟩ := hok
    obtain ⟨hc₃, h₃, hT₃⟩ := h₂.freeproc hS hslot₂ hnp₂ y₁.nextpid hfree
    simp only [List.set_set] at h₃ hT₃
    exact ⟨h₃, .inr ⟨j, q, np₃, hq, hc, rfl, hnext, (hT.trans hT₂).trans hT₃, .inl hc₃⟩⟩
  · simp only [Except.ok.injEq, Prod.mk.injEq] at hok
    obtain ⟨rfl, -⟩ := hok
    rename_i hpos
    obtain ⟨-, himage⟩ := hret.resolve_right (fun hh => hpos (by omega))
    have hregisters : Ledger trampoline c₀ s₀ held
          ⟨{ k with mem := copyRegisters k.mem ntf tf₁ }, y.proc.set j (np₂.child p i),
            y₁.nextpid⟩ ∧
        Turn held ⟨k, y.proc.set j np₂, y₁.nextpid⟩
          ⟨{ k with mem := copyRegisters k.mem ntf tf₁ }, y.proc.set j (np₂.child p i),
            y₁.nextpid⟩ j := by
      rw [← List.set_set (b := np₂.child p i) np₂]
      refine h₂.write hS hslot₂ hnp₂ y₁.nextpid (fun x hx => ?_) ⟨rfl, rfl, rfl⟩
        (by simp [Slot.child]) rfl hold.size himage
      refine h₂.trapframe_bytes hS hslot₂ hnp₂ ?_
      by_contra hout
      simp only [Block.has, PGSIZE] at hout
      refine hx ?_
      unfold copyRegisters
      rw [Mem.store_of_notMem, Mem.copy_of_notMem]
      · simp only [TRAPFRAMESIZE]
        omega
      · rw [length_le64]
        simp only [A0]
        omega
    exact ⟨hregisters.1, .inr ⟨j, q, _, hq, hc, rfl, hnext, (hT.trans hT₂).trans hregisters.2,
      .inr hpid₂⟩⟩

/-! ## Steps -/

def Act.owner : Act → Option Nat
  | .growproc i _ => some i
  | .exec i _ _ _ => some i
  | .freeproc i => some i
  | .store i _ _ => some i
  | .trapframe i _ _ => some i
  | _ => none

/-- The page of the rest of the kernel that a step may change. -/
def Act.page : Act → Option Nat
  | .kfree pa => some pa
  | .kstore pa _ _ => some pa
  | _ => none

/-- The process `p` in slot `j` is as it was, but for its state. -/
structure Rests (m m' : Machine) (j : Nat) (p : Slot) : Prop where
  slot : ∃ st, st ≠ .UNUSED ∧ m'.sys.proc[j]? = some { p with state := st }
  record : m'.record j = m.record j
  mem : ∀ x, Covers p.small p.super x → m'.sys.k.mem x = m.sys.k.mem x

theorem Spared.rests {record : Nat → Nat → Char} {l : List Nat} (h : Spared m.sys y' j)
    (hp : m.sys.proc[j]? = some p) (hst : p.state ≠ .UNUSED) (hrec : record j = m.record j) :
    Rests m ⟨y', record, l⟩ j p :=
  ⟨⟨p.state, hst, h.slot.trans hp⟩, hrec, h.mem p hp⟩

structure LeavesAlone (a : Act) (m m' : Machine) : Prop where
  rests : ∀ (j : Nat) (p : Slot), m.sys.proc[j]? = some p → p.state ≠ .UNUSED →
    a.owner ≠ some j → Rests m m' j p
  held : ∀ f ∈ m.held, a.page ≠ some f → f ∈ m'.held ∧
    ∀ x, Block.has (f, PGSIZE) x → m'.sys.k.mem x = m.sys.k.mem x

theorem LeavesAlone.refl (a : Act) (m : Machine) : LeavesAlone a m m :=
  ⟨fun j _ hp hst _ => (Spared.refl m.sys j).rests hp hst rfl,
    fun _ hf _ => ⟨hf, fun _ _ => rfl⟩⟩

theorem Turn.leavesAlone {record : Nat → Nat → Char} (h : Turn m.held m.sys y' i)
    (hi : a.owner = some i ∨ ∃ q, m.sys.proc[i]? = some q ∧ q.state = .UNUSED)
    (hrec : ∀ j, j ≠ i → record j = m.record j) :
    LeavesAlone a m ⟨y', record, m.held⟩ := by
  have hne : ∀ j p, m.sys.proc[j]? = some p → p.state ≠ .UNUSED → a.owner ≠ some j →
      j ≠ i := by
    rintro j p hp hst ho rfl
    rcases hi with hi | ⟨q, hq, hun⟩
    · exact ho hi
    · obtain rfl := Option.some.inj (hp.symm.trans hq)
      exact hst hun
  refine ⟨fun j p hp hst ho => ?_, fun f hf _ => ⟨hf, h.held f hf⟩⟩
  have hj := hne j p hp hst ho
  exact (h.others j hj).rests hp hst (hrec j hj)

theorem Ledger.process (h : Ledger trampoline c₀ s₀ held y) (hp : y.proc[i]? = some p)
    (hst : p.state ≠ .UNUSED) : ∃ pt t u, Process trampoline y.k.mem p pt t u :=
  (h.slots i p hp).resolve_left (fun hc => hst hc.state)

theorem set_self {l : List Slot} (h : l[i]? = some p) : l.set i p = l := by
  obtain ⟨hi, hget⟩ := List.getElem?_eq_some_iff.mp h
  rw [← hget]
  exact List.set_getElem_self hi

theorem Ledger.store_bytes (h : Ledger trampoline c₀ s₀ held y) (hS : Stock kend c₀ s₀)
    (hp : y.proc[i]? = some p) (hL : Process trampoline y.k.mem p pt t u) {va level l : Nat}
    (hva : va < MAXVA) (hleaf : sv39 pt va = some (level, l))
    (hw : (pt.ent level l).w = true) (hu : (pt.ent level l).u = true) :
    Covers p.small p.super (PTE2PA (pt.ent level l) + va % 2 ^ PXSHIFT level) ∧
      ¬ Block.has (u, PGSIZE) (PTE2PA (pt.ent level l) + va % 2 ^ PXSHIFT level) := by
  have hU := UPAGES_eq
  obtain ⟨-, husmall, -⟩ := h.aligned hS hp hL
  have hle := h.slot_le hp
  rw [hL.tree.sv39] at hleaf
  obtain ⟨e, hseen, heq⟩ := Option.map_eq_some_iff.mp hleaf
  simp only [Prod.mk.injEq] at heq
  obtain ⟨rfl, rfl⟩ := heq
  unfold seen at hseen
  rw [← vpn_one_eq] at hseen
  split at hseen
  · rename_i hs
    obtain rfl := Option.some.inj hseen
    have hlt : vpn 1 va < 262144 := by
      simp only [vpn_one, MAXVA] at *
      omega
    have hpos : 0 < p.super (PTE2PA (pt.ent 1 (vpn 1 va))) := by
      rw [hL.super]
      exact hits_pos_iff.mpr ⟨vpn 1 va, hlt, if_pos hs⟩
    have hframe : SuperFrame kend (PTE2PA (pt.ent 1 (vpn 1 va))) := by
      refine hS.super _ ?_
      have := (hle (PTE2PA (pt.ent 1 (vpn 1 va)))).2
      omega
    have hin : Block.has (PTE2PA (pt.ent 1 (vpn 1 va)), SUPERPGSIZE)
        (PTE2PA (pt.ent 1 (vpn 1 va)) + va % 2 ^ PXSHIFT 1) := by
      simp only [Block.has, SUPERPGSIZE, PXSHIFT]
      omega
    exact ⟨.inr ⟨_, hpos, hin⟩, fun hin' => husmall.apart hframe hin' hin⟩
  · split at hseen
    · rename_i hv
      obtain rfl := Option.some.inj hseen
      have hlt : vpn 0 va < UPAGES := by
        have htop : vpn 0 va < UPAGES + 3 := by
          simp only [vpn_zero, MAXVA] at *
          omega
        simp only at hw hu
        -- the three pages of the kernel lack `PTE_W` or `PTE_U`
        have h₀ : vpn 0 va ≠ UPAGES := by
          intro he
          rw [he, hL.fixed.usyscall] at hw
          cases hw
        have h₁ : vpn 0 va ≠ UPAGES + 1 := by
          intro he
          rw [he, hL.fixed.trapframe] at hu
          cases hu
        have h₂ : vpn 0 va ≠ UPAGES + 2 := by
          intro he
          rw [he, hL.fixed.trampoline] at hu
          cases hu
        omega
      have hpos : 0 < pageCount pt (PTE2PA (pt.ent 0 (vpn 0 va))) :=
        hits_pos_iff.mpr ⟨vpn 0 va, hlt, Pte.frame_of_v hv⟩
      have hle₁ := (hle (PTE2PA (pt.ent 0 (vpn 0 va)))).1
      have hsmall := hL.small (PTE2PA (pt.ent 0 (vpn 0 va)))
      have hframe : SmallFrame kend (PTE2PA (pt.ent 0 (vpn 0 va))) := by
        refine hS.small _ ?_
        omega
      have hin : Block.has (PTE2PA (pt.ent 0 (vpn 0 va)), PGSIZE)
          (PTE2PA (pt.ent 0 (vpn 0 va)) + va % 2 ^ PXSHIFT 0) := by
        simp only [Block.has, PGSIZE, PXSHIFT]
        omega
      refine ⟨.inl ⟨_, by omega, hin⟩, fun hin' => ?_⟩
      have heq := husmall.eq_of_has hframe hin' hin
      have honce := hS.once (PTE2PA (pt.ent 0 (vpn 0 va)))
      rw [if_pos heq] at hsmall
      omega
    · cases hseen

theorem Ledger.bytes (h : Ledger trampoline c₀ s₀ held y) (hS : Stock kend c₀ s₀)
    (hp : y.proc[i]? = some p) (hL : Process trampoline y.k.mem p pt t u)
    (hx : Covers p.small p.super x ∧ ¬ Block.has (u, PGSIZE) x) (b : UInt8) :
    Ledger trampoline c₀ s₀ held { y with k := { y.k with mem := y.k.mem.store x [b] } } ∧
      Turn held y { y with k := { y.k with mem := y.k.mem.store x [b] } } i := by
  have hmem : ∀ x', y.k.mem.store x [b] x' ≠ y.k.mem x' →
      Covers p.small p.super x' ∧ ¬ Block.has (u, PGSIZE) x' := by
    intro x' hne
    have heq : x' = x := by
      by_contra hout
      refine hne (Mem.store_of_notMem ?_)
      rw [List.length_singleton]
      omega
    rw [heq]
    exact hx
  have hwrite := h.write hS hp hL y.nextpid hmem ⟨rfl, rfl, rfl⟩ hL.state rfl hL.size hL.image
  rwa [set_self hp] at hwrite

theorem Ledger.held_frame (h : Ledger trampoline c₀ s₀ held y) (hS : Stock kend c₀ s₀)
    {f : Nat} (hf : f ∈ held) : SmallFrame kend f := by
  refine hS.small f ?_
  have := h.small f
  have := List.count_pos_iff.mpr hf
  omega

theorem Ledger.elsewhere (h : Ledger trampoline c₀ s₀ m.held m.sys) (hS : Stock kend c₀ s₀)
    {k : Kernel} {r : Nat} {held' : List Nat} (hr : r ∈ m.held ∨ r ∈ m.sys.k.freelist)
    (hsmall : ∀ x, held'.count x + k.freelist.count x =
      m.held.count x + m.sys.k.freelist.count x)
    (hsuper : k.superfreelist = m.sys.k.superfreelist)
    (hmem : ∀ x, ¬ Block.has (r, PGSIZE) x → k.mem x = m.sys.k.mem x)
    (hkeep : ∀ f ∈ m.held, a.page ≠ some f → f ∈ held' ∧ f ≠ r) :
    Ledger trampoline c₀ s₀ held' { m.sys with k := k } ∧
      LeavesAlone a m ⟨{ m.sys with k := k }, m.record, held'⟩ := by
  have hpos : 0 < m.held.count r + m.sys.k.freelist.count r := by
    rcases hr with hr | hr
    · exact Nat.add_pos_left (List.count_pos_iff.mpr hr) _
    · exact Nat.add_pos_right _ (List.count_pos_iff.mpr hr)
  have hframe : SmallFrame kend r := by
    refine hS.small r ?_
    have := h.small r
    omega
  obtain ⟨hL, hspared⟩ := h.hold hS hsmall hsuper
    (fun x hx => hmem x (fun hin => hx (.inl ⟨r, hpos, hin⟩)))
  refine ⟨hL, fun j p hp hst _ => (hspared j).rests hp hst rfl, fun f hf hpage => ?_⟩
  obtain ⟨hf', hne⟩ := hkeep f hf hpage
  exact ⟨hf', fun x hx => hmem x (fun hin => hne ((h.held_frame hS hf).eq_of_has hframe hx hin))⟩

/-- **`growproc`** keeps the ledger, and the table of the first slot stays. -/
theorem Ledger.growproc {n ret : Int} {p' : Proc} {k : Kernel}
    (h : Ledger trampoline c₀ s₀ m.held m.sys) (hS : Stock kend c₀ s₀)
    (hp : m.sys.proc[i]? = some p) (hL : Process trampoline m.sys.k.mem p pt t u)
    (hmem : 0 < p.sz) (hmax : p.sz + n ≤ 2 ^ 30)
    (hok : Super.growproc kend m.sys.k (m.proc i p pt) n = .ok (k, p', ret)) :
    Ledger trampoline c₀ s₀ m.held ⟨k, m.sys.proc.set i (p.grown p'), m.sys.nextpid⟩ ∧
      Turn m.held m.sys ⟨k, m.sys.proc.set i (p.grown p'), m.sys.nextpid⟩ i ∧
      tableAt p'.pagetable 0 = true := by
  have htab := hL.image hmem
  obtain ⟨hM, hsz⟩ := Kept.growproc (p := m.proc i p pt) (h.kept hS hp hL) hL.size
    (fun _ => ⟨by simp only [Machine.proc]; omega, .inr htab⟩) hok
  obtain ⟨hL', hT, -⟩ : Ledger trampoline c₀ s₀ m.held
        ⟨k, m.sys.proc.set i (p.grown p'), m.sys.nextpid⟩ ∧
      Turn m.held m.sys ⟨k, m.sys.proc.set i (p.grown p'), m.sys.nextpid⟩ i ∧
      Process trampoline k.mem (p.grown p') p'.pagetable t u :=
    h.moves hS hp hL m.sys.nextpid hM ⟨rfl, rfl, rfl⟩ hL.state rfl hsz
      (fun _ => hM.table 0 htab)
  exact ⟨hL', hT, hM.table 0 htab⟩

/-- **One step** keeps the ledger and leaves everyone else alone. -/
theorem Machine.Ledger.step (hB : Boot kend m₀) (hI : L.Inside)
    (h : m₀.Ledger trampoline m) (hs : Machine.Step kend trampoline forkret L m a m') :
    m₀.Ledger trampoline m' ∧ LeavesAlone a m m' := by
  have hS := hB.stock
  cases hs with
  | allocproc hok =>
      obtain ⟨-, rfl⟩ | ⟨i, p, p', hp, hc, -, -, hL, hT, -⟩ := Super.Ledger.allocproc h hS hok
      · exact ⟨h, .refl _ _⟩
      · exact ⟨hL, hT.leavesAlone (.inr ⟨p, hp, hc.state⟩) (fun _ _ => rfl)⟩
  | @growproc i n ret p pt k p' hp hrun hpt hint hpos hmem hmax hok =>
      obtain ⟨pt', t, u, hL⟩ := Super.Ledger.process h hp (by rw [hrun]; decide)
      obtain rfl := Option.some.inj (hL.pagetable.symm.trans hpt)
      obtain ⟨hL', hT, -⟩ := Super.Ledger.growproc h hS hp hL hmem hmax hok
      exact ⟨hL', hT.leavesAlone (.inl rfl) (fun j hj => Function.update_of_ne hj _ _)⟩
  | @fork i p y ret hp hrun hok =>
      obtain ⟨hL, rfl | ⟨j, q, q', hsp⟩⟩ := Super.Ledger.fork h hS hp hrun hok
      · exact ⟨h, .refl _ _⟩
      · exact ⟨hL, hsp.turn.leavesAlone (.inr ⟨q, hsp.slot, hsp.cleared.state⟩)
          (fun _ _ => rfl)⟩
  | @exec i path elf argv p p' k ret hp hrun helf hok =>
      obtain ⟨pt, t, u, hL⟩ := Super.Ledger.process h hp (by rw [hrun]; decide)
      obtain ⟨hL', hT, -⟩ := Super.Ledger.exec h hS hp hL hI helf m.sys.nextpid hok
      exact ⟨hL', hT.leavesAlone (.inl rfl) (fun _ _ => rfl)⟩
  | @freeproc i p p' k hp hzombie hok =>
      obtain ⟨pt, t, u, hL⟩ := Super.Ledger.process h hp (by rw [hzombie]; decide)
      obtain ⟨-, hL', hT⟩ := Super.Ledger.freeproc h hS hp hL m.sys.nextpid hok
      exact ⟨hL', hT.leavesAlone (.inl rfl) (fun _ _ => rfl)⟩
  | @state i p st hp hold hnew =>
      obtain ⟨pt, t, u, hL⟩ := Super.Ledger.process h hp hold
      obtain ⟨hL', hT⟩ : Super.Ledger trampoline _ _ m.held
            ⟨m.sys.k, m.sys.proc.set i { p with state := st }, m.sys.nextpid⟩ ∧
          Turn m.held m.sys ⟨m.sys.k, m.sys.proc.set i { p with state := st },
            m.sys.nextpid⟩ i :=
        Super.Ledger.write h hS hp hL m.sys.nextpid (fun x hx => absurd rfl hx)
          ⟨rfl, rfl, rfl⟩ hnew rfl hL.size hL.image
      refine ⟨hL', fun j q hq hst _ => ?_, fun f hf _ => ⟨hf, fun _ _ => rfl⟩⟩
      by_cases hj : j = i
      · subst hj
        obtain rfl := Option.some.inj (hq.symm.trans hp)
        have hlt := (List.getElem?_eq_some_iff.mp hp).1
        exact ⟨⟨st, hnew, List.getElem?_set_self hlt⟩, rfl, fun _ _ => rfl⟩
      · exact (hT.others j hj).rests hq hst rfl
  | @store i va level l b p pt hp hrun hpt hva hleaf hw hu =>
      obtain ⟨pt', t, u, hL⟩ := Super.Ledger.process h hp (by rw [hrun]; decide)
      obtain rfl := Option.some.inj (hL.pagetable.symm.trans hpt)
      have hbytes := Super.Ledger.store_bytes h hS hp hL hva hleaf hw hu
      obtain ⟨hL', hT⟩ := h.bytes hS hp hL hbytes b
      exact ⟨hL', hT.leavesAlone (.inl rfl) (fun _ _ => rfl)⟩
  | @trapframe i off t b p hp ht hoff =>
      have hst : p.state ≠ .UNUSED := by
        intro hun
        rcases h.slots i p hp with hc | ⟨pt, t, u, hL⟩
        · rw [hc.trapframe] at ht
          cases ht
        · exact hL.state hun
      obtain ⟨pt, t', u, hL⟩ := Super.Ledger.process h hp hst
      obtain rfl := Option.some.inj (hL.trapframe.symm.trans ht)
      have hin : Block.has (t', PGSIZE) (t' + off) := by
        simp only [Block.has]
        omega
      obtain ⟨hL', hT⟩ := h.bytes hS hp hL (h.trapframe_bytes hS hp hL hin) b
      exact ⟨hL', hT.leavesAlone (.inl rfl) (fun _ _ => rfl)⟩
  | @kalloc r k hok =>
      obtain ⟨hl, hsl, hm⟩ := kalloc_some hok
      have hr : r ∈ m.sys.k.freelist := by
        rw [hl]
        exact List.mem_cons_self
      refine h.elsewhere hS (.inr hr) (fun x => ?_) hsl (fun x hx => ?_)
        (fun f hf _ => ⟨List.mem_cons_of_mem _ hf, ?_⟩)
      · rw [hl, List.count_cons, List.count_cons]
        omega
      · rw [hm]
        exact Mem.fill_of_notMem hx
      · rintro rfl
        have h₁ := h.small f
        have h₂ := hS.once f
        have h₃ := List.count_pos_iff.mpr hf
        have h₄ := List.count_pos_iff.mpr hr
        omega
  | @kfree pa k hpa hok =>
      obtain rfl := kfree_eq hok
      have hcount : m.held.count pa ≤ 1 := by
        have h₁ := h.small pa
        have h₂ := hS.once pa
        omega
      refine h.elsewhere hS (.inl hpa) (fun x => ?_) rfl
        (fun x hx => Mem.fill_of_notMem hx) (fun f hf hpage => ?_)
      · rw [List.count_erase, List.count_cons]
        simp only [beq_iff_eq]
        by_cases hpx : pa = x
        · subst hpx
          have := List.count_pos_iff.mpr hpa
          rw [if_pos rfl]
          omega
        · rw [if_neg hpx, Nat.sub_zero, Nat.add_zero]
      · have hne : f ≠ pa := fun he => hpage (congrArg some he.symm)
        exact ⟨(List.mem_erase_of_ne hne).mpr hf, hne⟩
  | @kstore pa off b hpa hoff =>
      refine h.elsewhere hS (.inl hpa) (fun x => rfl) rfl (fun x hx => ?_)
        (fun f hf hpage => ⟨hf, fun he => hpage (congrArg some he.symm)⟩)
      refine Mem.store_of_notMem (fun hin => hx ?_)
      simp only [Block.has, List.length_singleton] at *
      omega

end Xv6Labs.Super
