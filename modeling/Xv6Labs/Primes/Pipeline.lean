import Mathlib.Logic.Function.Basic

/-!
# The prime pipeline: the program

`primes.c` of the utilities lab. `main` and the recursive `handle` run as a chain
of processes, each with a pipe to the next one. A state holds the processes, the
pipes and what was printed; `step` lets one process make its next system call,
and has no result while that call blocks. Pipes are first-in first-out and hold
`cap` numbers. `fork` and `pipe` succeed.

A process has at most one descriptor for each end of a pipe, so its descriptors
are the ends it holds, and closing an end it no longer holds does nothing.
-/

namespace Xv6Labs.Primes

inductive End where
  | read
  | write
deriving DecidableEq, Repr

/-- The next system call of a process, with the variables it still needs. `nums`,
`p1` and `p2` are pipes. -/
inductive Pc where
  /-- `main`: `pipe(p1)` -/
  | mainPipe
  /-- `main`: `fork()` -/
  | mainFork (p1 : Nat)
  /-- `main`, `default`: `close(p1[0])` -/
  | mainCloseRead (p1 : Nat)
  /-- `main`: the `for` loop, at `i` -/
  | mainLoop (p1 i : Nat)
  /-- `handle`, `case 0`: `close(nums)` -/
  | childCloseNums (nums p2 : Nat)
  /-- `case 0` of either `switch`: `close(p1[1])`, `close(p2[1])` -/
  | childCloseWrite (p2 : Nat)
  /-- `handle`: `read(nums, &prime, sizeof(int))` -/
  | readPrime (nums : Nat)
  /-- `handle`, `ok <= 0`: `close(nums)` -/
  | closeEmpty (nums : Nat)
  /-- after `handle` has returned: `close(p1[0])`, `close(p2[0])` -/
  | closeAgain (nums : Nat)
  /-- `handle`: `printf("prime %d\n", prime)` -/
  | printPrime (nums prime : Nat)
  /-- `handle`: `pipe(p2)` -/
  | pipe (nums prime : Nat)
  /-- `handle`: `fork()` -/
  | fork (nums prime p2 : Nat)
  /-- `handle`, `default`: `close(p2[0])` -/
  | closeRead (nums prime p2 : Nat)
  /-- the `while` loop: `read(nums, &num, sizeof(int))` -/
  | readNum (nums prime p2 : Nat)
  /-- the `while` loop: `write(p2[1], &num, sizeof(int))` -/
  | writeNum (nums prime p2 num : Nat)
  /-- the `while` loop, `ok <= 0`: `close(nums)` -/
  | closeNums (nums p2 : Nat)
  /-- `close(p1[1])` after the `for` loop, `close(p2[1])` after the `while` loop -/
  | closeWrite (p2 : Nat)
  /-- `wait(0)` -/
  | wait
  /-- `exit(0)` -/
  | exit
  /-- exited, not waited for yet -/
  | zombie
  /-- exited and waited for -/
  | gone
deriving DecidableEq, Repr

structure Proc where
  pc : Pc
  /-- the pipe ends it holds -/
  fds : List (Nat × End)
  parent : Option Nat
deriving DecidableEq, Repr

/-- Processes and pipes are numbered in the order of their creation. -/
structure Sys where
  nproc : Nat
  proc : Nat → Proc
  npipe : Nat
  /-- the numbers in a pipe, the next one to be read first -/
  pipe : Nat → List Nat
  /-- the primes printed so far -/
  out : List Nat

namespace Sys

def init : Sys where
  nproc := 1
  proc := fun _ => ⟨.mainPipe, [], none⟩
  npipe := 0
  pipe := fun _ => []
  out := []

def goto (s : Sys) (pid : Nat) (pc : Pc) : Sys :=
  { s with proc := Function.update s.proc pid { s.proc pid with pc := pc } }

def held (s : Sys) (e : Nat × End) : Bool :=
  (List.range s.nproc).any (fun q => decide (e ∈ (s.proc q).fds))

def close (s : Sys) (pid : Nat) (e : Nat × End) (pc : Pc) : Sys :=
  { s with
    proc := Function.update s.proc pid
      { s.proc pid with pc := pc, fds := (s.proc pid).fds.erase e } }

def newPipe (s : Sys) (pid : Nat) (pc : Pc) : Sys :=
  { s with
    npipe := s.npipe + 1
    pipe := Function.update s.pipe s.npipe []
    proc := Function.update s.proc pid
      { s.proc pid with
        pc := pc
        fds := (s.proc pid).fds ++ [(s.npipe, .read), (s.npipe, .write)] } }

/-- The child inherits the descriptors. -/
def fork (s : Sys) (pid : Nat) (pc child : Pc) : Sys :=
  { s with
    nproc := s.nproc + 1
    proc := Function.update
      (Function.update s.proc s.nproc ⟨child, (s.proc pid).fds, some pid⟩)
      pid { s.proc pid with pc := pc } }

/-- `read` of one number. `some none` is a result `<= 0`: the end of the file, or a
descriptor that is not open. It blocks on an empty pipe that may still be written. -/
def read (s : Sys) (pid j : Nat) : Option (Sys × Option Nat) :=
  if (j, .read) ∈ (s.proc pid).fds then
    match s.pipe j with
    | v :: rest => some ({ s with pipe := Function.update s.pipe j rest }, some v)
    | [] => if s.held (j, .write) then none else some (s, none)
  else some (s, none)

/-- `write` of one number. It blocks on a full pipe; without a reader the number
is lost. -/
def write (cap : Nat) (s : Sys) (pid j v : Nat) : Option Sys :=
  if (j, .write) ∈ (s.proc pid).fds ∧ s.held (j, .read) then
    if (s.pipe j).length < cap then
      some { s with pipe := Function.update s.pipe j (s.pipe j ++ [v]) }
    else none
  else some s

/-- A child of `pid` that was not waited for. -/
def child (s : Sys) (pid q : Nat) : Bool :=
  decide ((s.proc q).parent = some pid ∧ (s.proc q).pc ≠ .gone)

/-- `wait(0)` blocks while there are children and none has exited. -/
def wait (s : Sys) (pid : Nat) : Option Sys :=
  match (List.range s.nproc).find?
      (fun q => s.child pid q && decide ((s.proc q).pc = .zombie)) with
  | some q => some (s.goto q .gone)
  | none => if (List.range s.nproc).any (s.child pid) then none else some s

/-- `exit(0)` closes all descriptors and leaves the children to `init`. -/
def exit (s : Sys) (pid : Nat) : Sys :=
  { s with proc := fun q =>
      if q = pid then ⟨.zombie, [], (s.proc pid).parent⟩
      else if (s.proc q).parent = some pid then { s.proc q with parent := none }
      else s.proc q }

/-- Process `pid` makes its next system call; the upper bound of the `for` loop is
`N`. -/
def step (cap N : Nat) (s : Sys) (pid : Nat) : Option Sys :=
  if s.nproc ≤ pid then none
  else
    match (s.proc pid).pc with
    | .mainPipe => some (s.newPipe pid (.mainFork s.npipe))
    | .mainFork p1 => some (s.fork pid (.mainCloseRead p1) (.childCloseWrite p1))
    | .mainCloseRead p1 => some (s.close pid (p1, .read) (.mainLoop p1 2))
    | .mainLoop p1 i =>
        if i ≤ N then (s.write cap pid p1 i).map (fun s => s.goto pid (.mainLoop p1 (i + 1)))
        else some (s.goto pid (.closeWrite p1))
    | .childCloseNums nums p2 => some (s.close pid (nums, .read) (.childCloseWrite p2))
    | .childCloseWrite p2 => some (s.close pid (p2, .write) (.readPrime p2))
    | .readPrime nums => (s.read pid nums).map (fun r => r.1.goto pid (match r.2 with
        | none => .closeEmpty nums
        | some prime => .printPrime nums prime))
    | .closeEmpty nums => some (s.close pid (nums, .read) (.closeAgain nums))
    | .closeAgain nums => some (s.close pid (nums, .read) .exit)
    | .printPrime nums prime =>
        some ({ s with out := s.out ++ [prime] }.goto pid (.pipe nums prime))
    | .pipe nums prime => some (s.newPipe pid (.fork nums prime s.npipe))
    | .fork nums prime p2 =>
        some (s.fork pid (.closeRead nums prime p2) (.childCloseNums nums p2))
    | .closeRead nums prime p2 => some (s.close pid (p2, .read) (.readNum nums prime p2))
    | .readNum nums prime p2 => (s.read pid nums).map (fun r => r.1.goto pid (match r.2 with
        | none => .closeNums nums p2
        | some num =>
            if num % prime ≠ 0 then .writeNum nums prime p2 num
            else .readNum nums prime p2))
    | .writeNum nums prime p2 num =>
        (s.write cap pid p2 num).map (fun s => s.goto pid (.readNum nums prime p2))
    | .closeNums nums p2 => some (s.close pid (nums, .read) (.closeWrite p2))
    | .closeWrite p2 => some (s.close pid (p2, .write) .wait)
    | .wait => (s.wait pid).map (fun s => s.goto pid .exit)
    | .exit => some (s.exit pid)
    | .zombie => none
    | .gone => none

def AllExited (s : Sys) : Prop :=
  ∀ q, q < s.nproc → (s.proc q).pc = .zombie ∨ (s.proc q).pc = .gone

end Sys

/-- One step of one process, labelled with its number: a run is a schedule. -/
def Step (cap N : Nat) (s : Sys) (pid : Nat) (t : Sys) : Prop :=
  s.step cap N pid = some t

end Xv6Labs.Primes
