import Xv6Labs.Lib.CString
import Xv6Labs.Lib.Run

/-!
# System call tracing

`syscall` with the mask of `sys_trace`, the inheritance in `fork` and the reset in
`freeproc`. A handler may sleep, so a call has three moments: the process enters it, the
handler has its effect, the call returns and the line is printed; between two of them
every other process may run, end, be reaped, and its slot be used again.

`maskOf` and `lines` say what a user expects, in terms of pids and of what happened so
far. The code keeps the mask in a slot of the process table; the two agree because a slot
gets the mask of the parent before the child runs and pids are not used twice.
-/

namespace Xv6Labs.Trace

open Xv6Labs.Lib

/-! ## System calls -/

inductive Syscall where
  | SYS_fork | SYS_exit | SYS_wait | SYS_pipe | SYS_read | SYS_kill | SYS_exec | SYS_fstat
  | SYS_chdir | SYS_dup | SYS_getpid | SYS_sbrk | SYS_sleep | SYS_uptime | SYS_open
  | SYS_write | SYS_mknod | SYS_unlink | SYS_link | SYS_mkdir | SYS_close | SYS_trace
deriving DecidableEq, Repr

/-- `#define SYS_fork 1` and so on. -/
def Syscall.number : Syscall → Nat
  | .SYS_fork => 1
  | .SYS_exit => 2
  | .SYS_wait => 3
  | .SYS_pipe => 4
  | .SYS_read => 5
  | .SYS_kill => 6
  | .SYS_exec => 7
  | .SYS_fstat => 8
  | .SYS_chdir => 9
  | .SYS_dup => 10
  | .SYS_getpid => 11
  | .SYS_sbrk => 12
  | .SYS_sleep => 13
  | .SYS_uptime => 14
  | .SYS_open => 15
  | .SYS_write => 16
  | .SYS_mknod => 17
  | .SYS_unlink => 18
  | .SYS_link => 19
  | .SYS_mkdir => 20
  | .SYS_close => 21
  | .SYS_trace => 22

/-- What `usys.pl` calls the stub that loads `SYS_name` into `a7`. -/
def Syscall.name : Syscall → String
  | .SYS_fork => "fork"
  | .SYS_exit => "exit"
  | .SYS_wait => "wait"
  | .SYS_pipe => "pipe"
  | .SYS_read => "read"
  | .SYS_write => "write"
  | .SYS_close => "close"
  | .SYS_kill => "kill"
  | .SYS_exec => "exec"
  | .SYS_open => "open"
  | .SYS_mknod => "mknod"
  | .SYS_unlink => "unlink"
  | .SYS_fstat => "fstat"
  | .SYS_link => "link"
  | .SYS_mkdir => "mkdir"
  | .SYS_chdir => "chdir"
  | .SYS_dup => "dup"
  | .SYS_getpid => "getpid"
  | .SYS_sbrk => "sbrk"
  | .SYS_sleep => "sleep"
  | .SYS_uptime => "uptime"
  | .SYS_trace => "trace"

/-- The initializers `[SYS_fork] sys_fork` in their order. -/
def handlers : List Syscall :=
  [.SYS_fork, .SYS_exit, .SYS_wait, .SYS_pipe, .SYS_read, .SYS_kill, .SYS_exec, .SYS_fstat,
    .SYS_chdir, .SYS_dup, .SYS_getpid, .SYS_sbrk, .SYS_sleep, .SYS_uptime, .SYS_open,
    .SYS_write, .SYS_mknod, .SYS_unlink, .SYS_link, .SYS_mkdir, .SYS_close, .SYS_trace]

/-- `syscalls[num]`, `none` for a null pointer. -/
def syscalls (num : Nat) : Option Syscall := handlers.find? (fun s => s.number = num)

/-- `NELEM(syscalls)`: the highest index and 0. -/
def nelem : Nat := 23

def names : List String :=
  ["fork", "exit", "wait", "pipe", "read", "kill", "exec", "fstat", "chdir",
    "dup", "getpid", "sbrk", "sleep", "uptime", "open", "write", "mknod",
    "unlink", "link", "mkdir", "close", "trace"]

/-- The test on `num`, an `int` made of `a7`. -/
def dispatch (a7 : BitVec 64) : Option (BitVec 32 × Syscall) :=
  let num := a7.truncate 32
  if 0 < num.toInt ∧ num.toNat < nelem then
    (syscalls num.toNat).map (fun s => (num, s))
  else none

/-! ## Processes -/

/-- `RUNNABLE`, `RUNNING` and `SLEEPING` are all `live`. -/
inductive State where
  | UNUSED
  | live
  | ZOMBIE
deriving DecidableEq, Repr

/-- Where a process is in `syscall`. -/
inductive Call where
  | user
  /-- in `syscalls[num]()` -/
  | handler (num : BitVec 32)
  /-- its result is there -/
  | result (num : BitVec 32) (v : BitVec 64)
deriving DecidableEq, Repr

/-- `struct proc`, as far as `syscall` goes. -/
structure Proc where
  state : State
  pid : Nat
  traceid : BitVec 32
  name : Bytes
  a0 : BitVec 64
  a7 : BitVec 64
  call : Call

inductive Line where
  /-- `%d: syscall %s -> %ld` -/
  | traced (pid : Nat) (name : String) (a0 : BitVec 64)
  /-- `%d %s: unknown sys call %d` -/
  | unknown (pid : Nat) (name : Bytes) (num : BitVec 32)
deriving DecidableEq, Repr

structure Machine where
  proc : List Proc
  /-- an `int`; it does not wrap around before 2^31 forks -/
  nextpid : Nat
  out : List Line

def Machine.put (m : Machine) (i : Nat) (p : Proc) : Machine :=
  { m with proc := m.proc.set i p }

/-! ## The code -/

def Proc.masked (p : Proc) (num : BitVec 32) : Bool :=
  p.traceid &&& (1#32 <<< num.toNat) ≠ 0

def Machine.finish (m : Machine) (i : Nat) (p : Proc) (num : BitVec 32) (v : BitVec 64) :
    Machine :=
  let p := { p with a0 := v, call := .user }
  let m := m.put i p
  if p.masked num then
    { m with out := m.out ++ [.traced p.pid (names.getD (num.toNat - 1) "") p.a0] }
  else m

def Machine.unknown (m : Machine) (i : Nat) (p : Proc) (a7 : BitVec 64) : Machine :=
  let m := m.put i { p with a7 := a7, a0 := -1 }
  { m with out := m.out ++ [.unknown p.pid p.name (a7.truncate 32)] }

def sys_trace (p : Proc) : Proc :=
  let n : BitVec 32 := p.a0.truncate 32
  let n := if n.slt 0 then 0 else n
  { p with traceid := n }

/-- The fields of `Proc` only. -/
def freeproc (p : Proc) : Proc :=
  { p with
    pid := 0
    name := p.name.set 0 0
    state := .UNUSED
    traceid := 0 }

/-- The child of `fork`, in the slot `np`. -/
def forkChild (p np : Proc) (pid : Nat) : Proc :=
  { np with
    pid := pid
    a7 := p.a7
    a0 := 0
    name := p.name
    traceid := p.traceid
    state := .live
    call := .user }

/-! ## Runs -/

inductive Event where
  | entered (pid : Nat) (s : Syscall)
  | unknown (pid : Nat) (name : Bytes) (num : BitVec 32)
  | forked (pid child : Nat)
  | traced (pid : Nat) (n : BitVec 32)
  | exited (pid : Nat)
  | reaped (child : Nat)
  /-- any other effect of a handler -/
  | ran (pid : Nat)
  | returned (pid : Nat) (s : Syscall) (v : BitVec 64)
deriving DecidableEq, Repr

inductive Step : Machine → Event → Machine → Prop
  | enter {m : Machine} {i : Nat} {p : Proc} {num : BitVec 32} {s : Syscall}
      (a7 a0 : BitVec 64) (hp : m.proc[i]? = some p) (hlive : p.state = .live)
      (hcall : p.call = .user) (hnum : dispatch a7 = some (num, s)) :
      Step m (.entered p.pid s) (m.put i { p with a7 := a7, a0 := a0, call := .handler num })
  | unknown {m : Machine} {i : Nat} {p : Proc} (a7 : BitVec 64)
      (hp : m.proc[i]? = some p) (hlive : p.state = .live) (hcall : p.call = .user)
      (hnum : dispatch a7 = none) :
      Step m (.unknown p.pid p.name (a7.truncate 32)) (m.unknown i p a7)
  | fork {m : Machine} {i j : Nat} {p np : Proc} {num : BitVec 32}
      (hp : m.proc[i]? = some p) (hlive : p.state = .live) (hcall : p.call = .handler num)
      (hnum : syscalls num.toNat = some .SYS_fork)
      (hnp : m.proc[j]? = some np) (hfree : np.state = .UNUSED) :
      Step m (.forked p.pid m.nextpid)
        { (m.put j (forkChild p np m.nextpid)).put i
            { p with call := .result num (BitVec.ofNat 64 m.nextpid) } with
          nextpid := m.nextpid + 1 }
  /-- `uvmcopy` ran out of memory; the slot and a pid were taken -/
  | forkFails {m : Machine} {i j : Nat} {p np : Proc} {num : BitVec 32}
      (hp : m.proc[i]? = some p) (hlive : p.state = .live) (hcall : p.call = .handler num)
      (hnum : syscalls num.toNat = some .SYS_fork)
      (hnp : m.proc[j]? = some np) (hfree : np.state = .UNUSED) :
      Step m (.ran p.pid)
        { (m.put j (freeproc { np with pid := m.nextpid })).put i
            { p with call := .result num (-1) } with
          nextpid := m.nextpid + 1 }
  | trace {m : Machine} {i : Nat} {p : Proc} {num : BitVec 32}
      (hp : m.proc[i]? = some p) (hlive : p.state = .live) (hcall : p.call = .handler num)
      (hnum : syscalls num.toNat = some .SYS_trace) :
      Step m (.traced p.pid (p.a0.truncate 32))
        (m.put i { sys_trace p with call := .result num 0 })
  /-- the call `exit`, or a process that was killed -/
  | exit {m : Machine} {i : Nat} {p : Proc} (hp : m.proc[i]? = some p)
      (hlive : p.state = .live) :
      Step m (.exited p.pid) (m.put i { p with state := .ZOMBIE })
  | wait {m : Machine} {i j : Nat} {p pp : Proc} {num : BitVec 32}
      (hp : m.proc[i]? = some p) (hlive : p.state = .live) (hcall : p.call = .handler num)
      (hnum : syscalls num.toNat = some .SYS_wait)
      (hpp : m.proc[j]? = some pp) (hzombie : pp.state = .ZOMBIE) :
      Step m (.reaped pp.pid) ((m.put j (freeproc pp)).put i
        { p with call := .result num (BitVec.ofNat 64 pp.pid) })
  /-- every other call, and `fork` and `wait` that fail before they touch a slot; only
  `exec` changes the name -/
  | other {m : Machine} {i : Nat} {p : Proc} {num : BitVec 32} {s : Syscall}
      (v : BitVec 64) (name : Bytes) (hp : m.proc[i]? = some p) (hlive : p.state = .live)
      (hcall : p.call = .handler num) (hnum : syscalls num.toNat = some s)
      (hs : s ≠ .SYS_trace ∧ s ≠ .SYS_exit) (hname : s ≠ .SYS_exec → name = p.name) :
      Step m (.ran p.pid) (m.put i { p with name := name, call := .result num v })
  | finish {m : Machine} {i : Nat} {p : Proc} {num : BitVec 32} {s : Syscall}
      {v : BitVec 64} (hp : m.proc[i]? = some p) (hlive : p.state = .live)
      (hcall : p.call = .result num v) (hnum : syscalls num.toNat = some s) :
      Step m (.returned p.pid s v) (m.finish i p num v)

/-- The first process, alone. The table is in zeroed memory. -/
structure Booted (m : Machine) : Prop where
  alone : ∀ i p, m.proc[i]? = some p → p.state ≠ .UNUSED → i = 0
  first : ∀ p, m.proc[0]? = some p → p.pid = 1 ∧ p.traceid = 0
  nextpid : m.nextpid = 2
  out : m.out = []

/-! ## What the user expects -/

/-- The mask of a process after what happened, the last event first: that of its last
call of `trace`, else that of the parent at the fork. -/
def maskOf : List Event → Nat → BitVec 32
  | [], _ => 0
  | .traced pid n :: h, q => if q = pid then if n.slt 0 then 0 else n else maskOf h q
  | .forked pid child :: h, q => if q = child then maskOf h pid else maskOf h q
  | .entered _ _ :: h, q | .unknown _ _ _ :: h, q | .exited _ :: h, q | .reaped _ :: h, q
  | .ran _ :: h, q | .returned _ _ _ :: h, q => maskOf h q

def lines : List Event → List Line
  | [] => []
  | .returned pid s v :: h =>
      if (maskOf h pid).getLsbD s.number then lines h ++ [.traced pid s.name v] else lines h
  | .unknown pid name num :: h => lines h ++ [.unknown pid name num]
  | .entered _ _ :: h | .forked _ _ :: h | .traced _ _ :: h | .exited _ :: h
  | .reaped _ :: h | .ran _ :: h => lines h

/-! ## The tables -/

/-- **The name that is printed is that of the stub.** -/
theorem names_number (s : Syscall) : names.getD (s.number - 1) "" = s.name := by
  cases s <;> rfl

theorem number_of_syscalls {num : Nat} {s : Syscall} (h : syscalls num = some s) :
    num = s.number := by
  have := List.find?_some h
  simpa using (of_decide_eq_true this).symm

theorem number_lt (s : Syscall) : 0 < s.number ∧ s.number < nelem := by
  cases s <;> decide

/-- The stubs reach their handlers. -/
theorem dispatch_number (s : Syscall) :
    dispatch (BitVec.ofNat 64 s.number) = some (BitVec.ofNat 32 s.number, s) := by
  cases s <;> rfl

theorem masked_iff {p : Proc} {num : BitVec 32} {s : Syscall}
    (h : syscalls num.toNat = some s) : p.masked num = p.traceid.getLsbD s.number := by
  have hnum := number_of_syscalls h
  have hlt := (number_lt s).2
  unfold Proc.masked
  rw [hnum, Bool.eq_iff_iff, decide_eq_true_iff]
  constructor
  · intro hne
    by_contra hbit
    apply hne
    ext i hi
    by_cases his : i = s.number
    · subst his
      rw [BitVec.getLsbD_eq_getElem hi] at hbit
      simpa using hbit
    · simp [BitVec.getElem_one]
      omega
  · intro hbit heq
    have hat := congrArg (fun x => x.getLsbD s.number) heq
    unfold nelem at hlt
    simp [hbit] at hat
    omega

/-! ## The code does that -/

def Machine.Used (m : Machine) (i : Nat) (p : Proc) : Prop :=
  m.proc[i]? = some p ∧ p.state ≠ .UNUSED

/-- Two used slots never have one pid, and a slot has the mask of its pid. -/
structure Inv (m : Machine) (h : List Event) : Prop where
  unique : ∀ {i j p q}, m.Used i p → m.Used j q → p.pid = q.pid → i = j
  below : ∀ {i p}, m.Used i p → p.pid < m.nextpid
  mask : ∀ {i p}, m.Used i p → p.traceid = maskOf h p.pid
  out : m.out = lines h

variable {m m' : Machine} {h : List Event} {i j k : Nat} {p p' np q : Proc} {e : Event}

theorem Used.live (hp : m.proc[i]? = some p) (hlive : p.state = .live) : m.Used i p := by
  refine ⟨hp, ?_⟩
  rw [hlive]
  decide

theorem used_put (hq : (m.put i p').Used k q) :
    (k = i ∧ q = p') ∨ (k ≠ i ∧ m.Used k q) := by
  obtain ⟨hget, hused⟩ := hq
  unfold Machine.put at hget
  rw [List.getElem?_set] at hget
  by_cases hk : i = k
  · subst hk
    left
    rw [if_pos rfl] at hget
    split at hget
    · exact ⟨rfl, (Option.some.inj hget).symm⟩
    · cases hget
  · right
    rw [if_neg hk] at hget
    exact ⟨Ne.symm hk, hget, hused⟩

theorem Inv.put (hI : Inv m h) (hp : m.Used i p)
    (hsame : p'.state ≠ .UNUSED → p'.pid = p.pid ∧ p'.traceid = p.traceid) :
    Inv (m.put i p') h := by
  have hold : ∀ k q, (m.put i p').Used k q → ∃ q', m.Used k q' ∧ q.pid = q'.pid ∧
      q.traceid = q'.traceid := by
    intro k q hq
    have hused := hq.2
    rcases used_put hq with ⟨rfl, rfl⟩ | ⟨-, hq⟩
    · exact ⟨p, hp, hsame hused⟩
    · exact ⟨q, hq, rfl, rfl⟩
  constructor
  · intro k l q r hq hr heq
    obtain ⟨q', hq', hpid, -⟩ := hold k q hq
    obtain ⟨r', hr', hpid', -⟩ := hold l r hr
    exact hI.unique hq' hr' (by rw [← hpid, ← hpid', heq])
  · intro k q hq
    obtain ⟨q', hq', hpid, -⟩ := hold k q hq
    rw [hpid]
    exact hI.below hq'
  · intro k q hq
    obtain ⟨q', hq', hpid, hmask⟩ := hold k q hq
    rw [hpid, hmask]
    exact hI.mask hq'
  · exact hI.out

theorem Inv.event (hI : Inv m h) (hmask : maskOf (e :: h) = maskOf h)
    (hlines : lines (e :: h) = lines h) : Inv m (e :: h) where
  unique := hI.unique
  below := hI.below
  mask := by
    rw [hmask]
    exact hI.mask
  out := by
    rw [hlines]
    exact hI.out

theorem Inv.take (hI : Inv m h) {h' : List Event} (hout : lines h' = lines h)
    (hold : ∀ pid, pid < m.nextpid → maskOf h' pid = maskOf h pid)
    (hnew : p'.state ≠ .UNUSED → p'.pid = m.nextpid ∧ p'.traceid = maskOf h' m.nextpid) :
    Inv { m.put j p' with nextpid := m.nextpid + 1 } h' := by
  constructor
  · intro k l q r hk hl heq
    rcases used_put hk with ⟨rfl, rfl⟩ | ⟨-, hq⟩
    · rcases used_put hl with ⟨rfl, rfl⟩ | ⟨-, hr⟩
      · rfl
      · have hlt := hI.below hr
        rw [← heq, (hnew hk.2).1] at hlt
        exact absurd hlt (Nat.lt_irrefl _)
    · rcases used_put hl with ⟨rfl, rfl⟩ | ⟨-, hr⟩
      · have hlt := hI.below hq
        rw [heq, (hnew hl.2).1] at hlt
        exact absurd hlt (Nat.lt_irrefl _)
      · exact hI.unique hq hr heq
  · intro k q hk
    rcases used_put hk with ⟨rfl, rfl⟩ | ⟨-, hq⟩
    · rw [(hnew hk.2).1]
      exact Nat.lt_succ_self _
    · exact Nat.lt_succ_of_lt (hI.below hq)
  · intro k q hk
    rcases used_put hk with ⟨rfl, rfl⟩ | ⟨-, hq⟩
    · rw [(hnew hk.2).1]
      exact (hnew hk.2).2
    · rw [hold _ (hI.below hq)]
      exact hI.mask hq
  · rw [hout]
    exact hI.out

theorem Inv.traced (hI : Inv m h) (hp : m.Used i p) (hpid : p'.pid = p.pid)
    {n : BitVec 32} (hmask : p'.traceid = if n.slt 0 then 0 else n) :
    Inv (m.put i p') (.traced p.pid n :: h) := by
  have hother : ∀ {k q}, k ≠ i → m.Used k q → q.pid ≠ p.pid := by
    intro k q hk hq heq
    exact hk (hI.unique hq hp heq)
  constructor
  · intro k l q r hk hl heq
    rcases used_put hk with ⟨rfl, rfl⟩ | ⟨hki, hq⟩
    · rcases used_put hl with ⟨rfl, rfl⟩ | ⟨hli, hr⟩
      · rfl
      · exact absurd (by rw [← heq, hpid]) (hother hli hr)
    · rcases used_put hl with ⟨rfl, rfl⟩ | ⟨hli, hr⟩
      · exact absurd (by rw [heq, hpid]) (hother hki hq)
      · exact hI.unique hq hr heq
  · intro k q hk
    rcases used_put hk with ⟨rfl, rfl⟩ | ⟨-, hq⟩
    · rw [hpid]
      exact hI.below hp
    · exact hI.below hq
  · intro k q hk
    rcases used_put hk with ⟨rfl, rfl⟩ | ⟨hki, hq⟩
    · rw [hpid, maskOf, if_pos rfl, hmask]
    · rw [maskOf, if_neg (hother hki hq)]
      exact hI.mask hq
  · exact hI.out

theorem Inv.print (hI : Inv m h) (hmask : maskOf (e :: h) = maskOf h) {ls : List Line}
    (hlines : lines (e :: h) = lines h ++ ls) :
    Inv { m with out := m.out ++ ls } (e :: h) where
  unique := hI.unique
  below := hI.below
  mask := by
    rw [hmask]
    exact hI.mask
  out := by
    rw [hlines, ← hI.out]

theorem ne_of_free (hp : m.proc[i]? = some p) (hlive : p.state = .live)
    (hnp : m.proc[j]? = some np) (hfree : np.state ≠ .live) : i ≠ j := by
  rintro rfl
  rw [hp] at hnp
  obtain rfl := Option.some.inj hnp
  exact hfree hlive

theorem used_of_ne (hp : m.Used i p) (hij : i ≠ j) : (m.put j p').Used i p := by
  refine ⟨?_, hp.2⟩
  unfold Machine.put
  rw [List.getElem?_set, if_neg (Ne.symm hij)]
  exact hp.1

/-- **One step** keeps what `maskOf` and `lines` say. -/
theorem Inv.step (hI : Inv m h) (hs : Step m e m') : Inv m' (e :: h) := by
  cases hs with
  | enter a7 a0 hp hlive hcall hnum =>
      refine Inv.event ?_ rfl rfl
      exact hI.put (Used.live hp hlive) (fun _ => ⟨rfl, rfl⟩)
  | unknown a7 hp hlive hcall hnum =>
      refine Inv.print ?_ rfl rfl
      exact hI.put (Used.live hp hlive) (fun _ => ⟨rfl, rfl⟩)
  | @fork i j p np num hp hlive hcall hnum hnp hfree =>
      have hij := ne_of_free hp hlive hnp (by rw [hfree]; decide)
      have hbelow := hI.below (Used.live hp hlive)
      have htake : Inv { m.put j (forkChild p np m.nextpid) with nextpid := m.nextpid + 1 }
          (.forked p.pid m.nextpid :: h) := by
        refine hI.take rfl (fun pid hpid => ?_) (fun _ => ⟨rfl, ?_⟩)
        · rw [maskOf, if_neg (Nat.ne_of_lt hpid)]
        · rw [maskOf, if_pos rfl]
          exact hI.mask (Used.live hp hlive)
      exact htake.put (used_of_ne (Used.live hp hlive) hij) (fun _ => ⟨rfl, rfl⟩)
  | @forkFails i j p np num hp hlive hcall hnum hnp hfree =>
      have hij := ne_of_free hp hlive hnp (by rw [hfree]; decide)
      have htake : Inv { m.put j (freeproc { np with pid := m.nextpid }) with
          nextpid := m.nextpid + 1 } h :=
        hI.take rfl (fun _ _ => rfl) (fun hused => absurd rfl hused)
      refine Inv.event ?_ rfl rfl
      exact htake.put (used_of_ne (Used.live hp hlive) hij) (fun _ => ⟨rfl, rfl⟩)
  | trace hp hlive hcall hnum =>
      refine hI.traced (Used.live hp hlive) ?_ ?_
      · rfl
      · rfl
  | exit hp hlive =>
      refine Inv.event ?_ rfl rfl
      exact hI.put (Used.live hp hlive) (fun _ => ⟨rfl, rfl⟩)
  | @wait i j p pp num hp hlive hcall hnum hpp hzombie =>
      have hij := ne_of_free hp hlive hpp (by rw [hzombie]; decide)
      have hreap : Inv (m.put j (freeproc pp)) h :=
        hI.put ⟨hpp, by rw [hzombie]; decide⟩ (fun hused => absurd rfl hused)
      refine Inv.event ?_ rfl rfl
      exact hreap.put (used_of_ne (Used.live hp hlive) hij) (fun _ => ⟨rfl, rfl⟩)
  | other v name hp hlive hcall hnum hs hname =>
      refine Inv.event ?_ rfl rfl
      exact hI.put (Used.live hp hlive) (fun _ => ⟨rfl, rfl⟩)
  | @finish i p num s v hp hlive hcall hnum =>
      have hput : Inv (m.put i { p with a0 := v, call := .user }) h :=
        hI.put (Used.live hp hlive) (fun _ => ⟨rfl, rfl⟩)
      have hmask : Proc.masked { p with a0 := v, call := .user } num =
          (maskOf h p.pid).getLsbD s.number := by
        rw [masked_iff hnum, ← hI.mask (Used.live hp hlive)]
      have hname : names.getD (num.toNat - 1) "" = s.name := by
        rw [number_of_syscalls hnum, names_number]
      simp only [Machine.finish, hmask, hname]
      by_cases hbit : (maskOf h p.pid).getLsbD s.number = true
      · rw [if_pos hbit]
        refine hput.print rfl ?_
        rw [lines, if_pos hbit]
      · rw [if_neg hbit]
        refine hput.event rfl ?_
        rw [lines, if_neg hbit]

theorem Booted.inv (hm : Booted m) : Inv m [] where
  unique := by
    intro i j p q hp hq _
    rw [hm.alone i p hp.1 hp.2, hm.alone j q hq.1 hq.2]
  below := by
    intro i p hp
    obtain rfl := hm.alone i p hp.1 hp.2
    rw [(hm.first p hp.1).1, hm.nextpid]
    decide
  mask := by
    intro i p hp
    obtain rfl := hm.alone i p hp.1 hp.2
    exact (hm.first p hp.1).2
  out := hm.out

/-- **The trace is what the user expects.** After any run from boot the console holds a
line for exactly the returns whose call is in the mask of the caller: the mask of its own
last `trace`, a negative one being 0, else what its parent had when it was forked, and
nothing for the first process. The line names the stub that was called. -/
theorem trace_prints_exactly {es : List Event} (hm : Booted m) (hr : Run Step m es m') :
    m'.out = lines es.reverse := by
  have hinv : Inv m' (es.foldl (fun h e => e :: h) []) :=
    hr.simulation (fun _ _ _ _ hI hs => hI.step hs) hm.inv
  rw [hinv.out]
  congr 1
  rw [List.foldl_flip_cons_eq_append', List.append_nil]

def twoSlots : Machine where
  proc := [⟨.live, 1, 0, [105, 110, 105, 116], 0, 0, .user⟩, ⟨.UNUSED, 0, 0, [0], 0, 0, .user⟩]
  nextpid := 2
  out := []

theorem twoSlots_booted : Booted twoSlots where
  alone i p hp hused := by
    match i with
    | 0 => rfl
    | 1 => exact absurd (by cases hp; rfl) hused
    | i + 2 => cases hp
  first p hp := by
    cases hp
    exact ⟨rfl, rfl⟩
  nextpid := rfl
  out := rfl

/-- `trace(1 << SYS_getpid)`, `fork()`, and `getpid()` in the child. -/
theorem trace_prints_exactly_child : ∃ es m, Run Step twoSlots es m ∧
    m.out = lines es.reverse ∧ lines es.reverse = [.traced 2 "getpid" 2] := by
  have hr : ∃ es m, Run Step twoSlots es m ∧ lines es.reverse = [.traced 2 "getpid" 2] := by
    have h₁ := Step.enter (m := twoSlots) (i := 0) 22 2048 rfl rfl rfl rfl
    refine ⟨_, _, .cons h₁ (.cons (.trace (i := 0) rfl rfl rfl rfl) (.cons (.finish (i := 0)
      rfl rfl rfl rfl) (.cons (.enter (i := 0) 1 0 rfl rfl rfl rfl) (.cons (.fork (i := 0)
      (j := 1) rfl rfl rfl rfl rfl rfl) (.cons (.enter (i := 1) 11 0 rfl rfl rfl rfl) (.cons
      (.other (i := 1) (s := .SYS_getpid) 2 _ rfl rfl rfl rfl (by decide) (fun _ => rfl)) (.cons
      (.finish (i := 1) rfl rfl rfl rfl) (.nil _)))))))), rfl⟩
  obtain ⟨es, m, hr, hlines⟩ := hr
  exact ⟨es, m, hr, trace_prints_exactly twoSlots_booted hr, hlines⟩

end Xv6Labs.Trace
