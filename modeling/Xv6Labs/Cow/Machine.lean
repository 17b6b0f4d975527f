import Xv6Labs.Cow.Fork
import Xv6Labs.Cow.Tables
import Xv6Labs.Lib.Run

/-!
# The copy-on-write machine and its eager reference

The kernel runs one operation after another over any number of process slots.
`Sys.exec` executes an operation and says what it did to user memory, as an
`Effect`: a fork succeeded, these bytes were written, a page appeared, pages
went away. A panic is an error and ends the run; an operation whose process or
page does not exist does nothing.

A process is its user memory here. The trapframe page and the mapping of the
trampoline, which stock `allocproc` and `freeproc` make and undo, are not part of
it.

The reference machine `Ref` gives every process a memory of its own: a fork
copies it, a write touches one process. It sees the effects only, never frames,
entries or counts. `Sys.exec_refines` is the step of the simulation.
-/

namespace Xv6Labs.Cow

open Xv6Labs.Lib

/-! ## The machine -/

structure Proc where
  pagetable : PageTable
  sz : Nat
  killed : Bool

structure Sys (n : Nat) where
  km : Kmem
  /-- `none` is an unused slot -/
  proc : Fin n → Option Proc
  /-- pages held by kernel owners other than the page tables -/
  kern : List Nat

def Sys.init (n : Nat) (km : Kmem) : Sys n := ⟨km, fun _ => none, []⟩

inductive Op (n : Nat) where
  /-- a kernel owner allocates a page -/
  | kalloc
  /-- a kernel owner gives up a page it holds -/
  | kfree (pa : Nat)
  /-- a first process with an empty page table -/
  | create (c : Fin n)
  | fork (p c : Fin n)
  /-- a user load of the byte at `va`; `sp` is the user stack pointer -/
  | load (p : Fin n) (va sp : Nat)
  /-- a user store of `b` at `va` -/
  | store (p : Fin n) (va sp : Nat) (b : UInt8)
  /-- a page fault at `va` (an instruction fetch, say) -/
  | fault (p : Fin n) (va sp : Nat)
  | copyout (p : Fin n) (dstva : Nat) (src : List UInt8)
  /-- one more page, with or without `PTE_W` and `PTE_X` -/
  | grow (p : Fin n) (w x : Bool)
  /-- `uvmdealloc` down to `newsz` -/
  | shrink (p : Fin n) (newsz : Nat)
  /-- `uvmunmap` with `do_free = 1` -/
  | unmap (p : Fin n) (va npages : Nat)
  /-- `freeproc`, called by the parent's `wait` -/
  | exit (p : Fin n)

inductive Effect (n : Nat) where
  | silent
  | fork (p c : Fin n)
  | write (p : Fin n) (va : Nat) (bs : List UInt8)
  | grow (p : Fin n) (va : Nat)
  | unmap (p : Fin n) (va npages : Nat)
  | exit (p : Fin n)

/-- The memory after a direct store, if the page walk allows it: the entry has
V, U and W. -/
def userStore (km : Kmem) (pt : PageTable) (va : Nat) (b : UInt8) :
    Option Kmem :=
  match lookup pt va with
  | none => none
  | some k =>
      if (pt.ent 0 k).v && (pt.ent 0 k).u && (pt.ent 0 k).w then
        some { km with mem := km.mem.store (PTE2PA (pt.ent 0 k) + va % 4096) [b] }
      else none

def userLoad (pt : PageTable) (va : Nat) : Bool :=
  match lookup pt va with
  | none => false
  | some k => (pt.ent 0 k).v && (pt.ent 0 k).u && (pt.ent 0 k).r

variable {n : Nat}

def Sys.live (s : Sys n) (p : Fin n) : Option Proc :=
  (s.proc p).filter (fun pr => !pr.killed)

def Sys.put (s : Sys n) (km : Kmem) (p : Fin n) (pr : Proc) : Sys n :=
  { s with km := km, proc := Function.update s.proc p (some pr) }

/-- The page-fault branch of `usertrap`. -/
def Sys.fault (kend : Nat) (s : Sys n) (p : Fin n) (pr : Proc) (va sp : Nat) :
    Except String (Sys n × Proc) :=
  match pagefault kend s.km pr.pagetable va sp with
  | .error e => .error e
  | .ok (km, pt, killed) =>
      let pr := { pr with pagetable := pt, killed := killed }
      .ok (s.put km p pr, pr)

/-- `fork`, the address space of the child: a page table, then `uvmcopy`. When
that fails, `freeproc` finds `np->sz` still 0 and frees the page table. -/
def Sys.fork (kend : Nat) (s : Sys n) (p c : Fin n) (pr : Proc) :
    Except String (Sys n × Effect n) :=
  match uvmcreate s.km with
  | (km, none) => .ok ({ s with km := km }, .silent)
  | (km, some new) =>
      match uvmcopy kend km pr.pagetable new pr.sz with
      | .error e => .error e
      | .ok (km, old, new, ret) =>
          let s := s.put km p { pr with pagetable := old }
          if ret < 0 then
            match uvmfree kend km new 0 with
            | .error e => .error e
            | .ok km => .ok ({ s with km := km }, .silent)
          else .ok (s.put km c ⟨new, pr.sz, false⟩, .fork p c)

/-- A store that faults is retried once the fault is handled. -/
def Sys.store (kend : Nat) (s : Sys n) (p : Fin n) (pr : Proc) (va sp : Nat)
    (b : UInt8) : Except String (Sys n × Effect n) :=
  match userStore s.km pr.pagetable va b with
  | some km => .ok ({ s with km := km }, .write p va [b])
  | none =>
      match s.fault kend p pr va sp with
      | .error e => .error e
      | .ok (s, pr) =>
          if pr.killed then .ok (s, .silent)
          else
            match userStore s.km pr.pagetable va b with
            | some km => .ok ({ s with km := km }, .write p va [b])
            | none => .ok (s, .silent)

def Sys.exec (kend : Nat) (s : Sys n) : Op n → Except String (Sys n × Effect n)
  | .kalloc =>
      match kalloc s.km with
      | (none, km) => .ok ({ s with km := km }, .silent)
      | (some r, km) => .ok ({ s with km := km, kern := r :: s.kern }, .silent)
  | .kfree pa =>
      if pa ∈ s.kern then
        match kfree kend s.km pa with
        | .error e => .error e
        | .ok km => .ok ({ s with km := km, kern := s.kern.erase pa }, .silent)
      else .ok (s, .silent)
  | .create c =>
      match s.proc c, uvmcreate s.km with
      | some _, _ => .ok (s, .silent)
      | none, (km, none) => .ok ({ s with km := km }, .silent)
      | none, (km, some pt) => .ok (s.put km c ⟨pt, 0, false⟩, .silent)
  | .fork p c =>
      match s.live p, s.proc c with
      | some pr, none => s.fork kend p c pr
      | _, _ => .ok (s, .silent)
  | .load p va sp =>
      match s.live p with
      | none => .ok (s, .silent)
      | some pr =>
          if userLoad pr.pagetable va then .ok (s, .silent)
          else
            match s.fault kend p pr va sp with
            | .error e => .error e
            | .ok (s, _) => .ok (s, .silent)
  | .store p va sp b =>
      match s.live p with
      | none => .ok (s, .silent)
      | some pr => s.store kend p pr va sp b
  | .fault p va sp =>
      match s.live p with
      | none => .ok (s, .silent)
      | some pr =>
          match s.fault kend p pr va sp with
          | .error e => .error e
          | .ok (s, _) => .ok (s, .silent)
  | .copyout p dstva src =>
      match s.live p with
      | none => .ok (s, .silent)
      | some pr =>
          match copyout kend s.km pr.pagetable dstva src with
          | .error e => .error e
          | .ok (km, pt, _, left) =>
              .ok (s.put km p { pr with pagetable := pt },
                .write p dstva (src.take (src.length - left.length)))
  | .grow p w x =>
      match s.live p with
      | none => .ok (s, .silent)
      | some pr =>
          match uvmallocPage kend s.km pr.pagetable (PGROUNDUP pr.sz) w x with
          | .error e => .error e
          | .ok (km, pt, ret) =>
              if ret = 0 then
                .ok (s.put km p ⟨pt, PGROUNDUP pr.sz + PGSIZE, pr.killed⟩,
                  .grow p (PGROUNDUP pr.sz))
              else .ok (s.put km p { pr with pagetable := pt }, .silent)
  | .shrink p newsz =>
      match s.live p with
      | none => .ok (s, .silent)
      | some pr =>
          match uvmdealloc kend s.km pr.pagetable pr.sz newsz with
          | .error e => .error e
          | .ok (km, pt, sz) =>
              .ok (s.put km p ⟨pt, sz, pr.killed⟩, .unmap p (PGROUNDUP sz)
                ((PGROUNDUP pr.sz - PGROUNDUP sz) / PGSIZE))
  | .unmap p va npages =>
      match s.live p with
      | none => .ok (s, .silent)
      | some pr =>
          match uvmunmap kend s.km pr.pagetable va npages true with
          | .error e => .error e
          | .ok (km, pt) =>
              .ok (s.put km p { pr with pagetable := pt }, .unmap p va npages)
  | .exit p =>
      match s.proc p with
      | none => .ok (s, .silent)
      | some pr =>
          match uvmfree kend s.km pr.pagetable pr.sz with
          | .error e => .error e
          | .ok km =>
              .ok ({ s with km := km, proc := Function.update s.proc p none }, .exit p)

/-- The step relation: a label is an operation with its effect. -/
def Step (kend : Nat) (s : Sys n) (l : Op n × Effect n) (t : Sys n) : Prop :=
  s.exec kend l.1 = .ok (t, l.2)

/-! ## The reference -/

/-- Private memory of every process; `none` is an unmapped address. -/
abbrev Ref (n : Nat) := Fin n → Nat → Option UInt8

/-- Eager copies: every effect changes the memory of one process. -/
def Ref.apply (r : Ref n) : Effect n → Ref n
  | .silent => r
  | .fork p c => Function.update r c (r p)
  | .write p va bs => Function.update r p (fun y =>
      if va ≤ y ∧ y < va + bs.length then some (bs.getD (y - va) 0) else r p y)
  | .grow p va => Function.update r p (fun y =>
      if y / 4096 = va / 4096 then some 0 else r p y)
  | .unmap p va npages => Function.update r p (fun y =>
      if va / 4096 ≤ y / 4096 ∧ y / 4096 < va / 4096 + npages then none else r p y)
  | .exit p => Function.update r p (fun _ => none)

/-! ## The system invariant -/

def Sys.tables (s : Sys n) : Tables n := fun p => (s.proc p).map (·.pagetable)

def Sys.view (s : Sys n) : Ref n := fun p y => read s.km.mem (s.tables p) y

/-- The sharing invariant, no page beyond a process's size, and all tables below
their root. -/
structure SysInv (kend : Nat) (s : Sys n) : Prop where
  inv : Inv kend s.km s.tables s.kern
  size : ∀ p pr y, s.proc p = some pr → s.view p y ≠ none → y < PGROUNDUP pr.sz
  rooted : ∀ p pr, s.proc p = some pr → Rooted pr.pagetable

end Xv6Labs.Cow
