import Xv6Labs.Lib.Run
import Mathlib.Data.Int.Basic

/-!
# The alarm kernel: user traps, `sigalarm`, `sigreturn`

One process as the traps lab's `usertrap` sees it. Between two traps the user
program does whatever it likes with its registers, so a `Trap` carries the
register file and the program counter `uservec` finds on entry; what the
kernel itself keeps across traps is the `Proc`.

`kill` from another process can set `p->killed` at any moment. The two
`killed(p)` reads of `usertrap` are therefore inputs of the trap. A trap that
ends in `exit(-1)` has no successor state.
-/

namespace Xv6Labs.Alarm

open Xv6Labs.Lib

/-! ## Trapframes -/

/-- The user registers `uservec` saves. -/
inductive Reg
  | ra | sp | gp | tp | t0 | t1 | t2 | s0 | s1
  | a0 | a1 | a2 | a3 | a4 | a5 | a6 | a7
  | s2 | s3 | s4 | s5 | s6 | s7 | s8 | s9 | s10 | s11
  | t3 | t4 | t5 | t6
deriving DecidableEq, Repr

/-- The `kernel_*` fields, which `usertrapret` rewrites on every return. -/
structure KernelRegs where
  satp : UInt64
  sp : UInt64
  trap : UInt64
  hartid : UInt64

structure Trapframe where
  kernel : KernelRegs
  epc : UInt64
  reg : Reg → UInt64

def Trapframe.setReg (tf : Trapframe) (r : Reg) (v : UInt64) : Trapframe :=
  { tf with reg := Function.update tf.reg r v }

/-! ## The process and its traps -/

/-- The fields of `struct proc` the alarm code reads and writes. `ticks`,
`tickcount` and `run` are C `int`s. -/
structure Proc where
  trapframe : Trapframe
  originaltrapframe : Trapframe
  ticks : Int
  tickcount : Int
  handler : UInt64
  run : Int

/-- `allocproc`: the three alarm counters are cleared, the two trapframe pages
hold whatever `kalloc` left in them. -/
def allocproc (trapframe originaltrapframe : Trapframe) (handler : UInt64) :
    Proc where
  trapframe := trapframe
  originaltrapframe := originaltrapframe
  ticks := 0
  tickcount := 0
  handler := handler
  run := 0

/-- What `usertrap` finds in `scause`. `ecall` carries the behaviour of a
system call this lab does not define: its effect on the trapframe (`exec`
replaces `epc`, `sp` and `a1`) with its return value, or `none` when it does
not return (`exit`). -/
inductive Cause
  | ecall (other : Trapframe → Option (Trapframe × UInt64))
  | timer
  | device
  | unexpected

structure Trap where
  /-- the user registers on entry -/
  reg : Reg → UInt64
  sepc : UInt64
  cause : Cause
  /-- `killed(p)` before `syscall()` -/
  killedEntry : Bool
  /-- `killed(p)` before returning -/
  killedExit : Bool
  /-- what `usertrapret` stores in the `kernel_*` fields -/
  kernel : KernelRegs

/-- A C `int` holding the low 32 bits of `x`, in two's complement. -/
def toInt (x : Int) : Int := x.bmod 4294967296

def argint (tf : Trapframe) (r : Reg) : Int := toInt (tf.reg r).toNat

def argaddr (tf : Trapframe) (r : Reg) : UInt64 := tf.reg r

/-! ## System calls -/

/-- `SYS_sigalarm` and `SYS_sigreturn` of `syscall.h`. -/
def SYS_sigalarm : Int := 22
def SYS_sigreturn : Int := 23

def num (reg : Reg → UInt64) : Int := toInt (reg .a7).toNat

/-- `sys_sigalarm`: the interval and the handler are stored; nothing else is
touched. `fnaddr < 0` never holds for an unsigned address. -/
def sys_sigalarm (p : Proc) : Proc × UInt64 :=
  let ticks := argint p.trapframe .a0
  let fnaddr := argaddr p.trapframe .a1
  if ticks < 0 then (p, -1)
  else ({ p with ticks := ticks, handler := fnaddr }, 0)

/-- `sys_sigreturn` restores the saved trapframe and returns its `a0`, so that
`syscall` storing the return value leaves `a0` as saved. -/
def sys_sigreturn (p : Proc) : Proc × UInt64 :=
  let p := { p with trapframe := p.originaltrapframe, run := 0 }
  (p, p.trapframe.reg .a0)

/-- `syscall`: dispatch on `num`, then `p->trapframe->a0 = ret`. A number without a
handler returns -1; it is among the calls of `other`. -/
def syscall (other : Trapframe → Option (Trapframe × UInt64)) (p : Proc) :
    Option Proc :=
  let ret : Option (Proc × UInt64) :=
    if num p.trapframe.reg = SYS_sigalarm then some (sys_sigalarm p)
    else if num p.trapframe.reg = SYS_sigreturn then some (sys_sigreturn p)
    else (other p.trapframe).map fun r => ({ p with trapframe := r.1 }, r.2)
  ret.map fun r => { r.1 with trapframe := r.1.trapframe.setReg .a0 r.2 }

/-! ## `usertrap` -/

/-- The test of the timer branch: this interrupt completes an interval. -/
def fires (p : Proc) : Bool :=
  decide (p.ticks > 0) && decide (p.run = 0) &&
    decide (toInt (p.tickcount + 1) = p.ticks)

def timerTick (p : Proc) : Proc :=
  if p.ticks > 0 ∧ p.run = 0 then
    let p := { p with tickcount := toInt (p.tickcount + 1) }
    if p.tickcount = p.ticks then
      { p with
        run := 1
        tickcount := 0
        originaltrapframe := p.trapframe
        trapframe := { p.trapframe with epc := p.handler } }
    else p
  else p

def usertrapret (kernel : KernelRegs) (p : Proc) : Proc :=
  { p with trapframe := { p.trapframe with kernel := kernel } }

/-- `uservec` and the first lines of `usertrap`: the user registers and the
program counter go to the trapframe. -/
def saveUser (p : Proc) (t : Trap) : Proc :=
  { p with trapframe := { p.trapframe with reg := t.reg, epc := t.sepc } }

/-- `p->trapframe->epc += 4`: sepc points to the ecall instruction. -/
def skipEcall (p : Proc) : Proc :=
  { p with trapframe := { p.trapframe with epc := p.trapframe.epc + 4 } }

/-- `usertrap` up to the return to user mode; `none` when the process exits. -/
def usertrap (p : Proc) (t : Trap) : Option Proc :=
  let p := saveUser p t
  match t.cause with
  | .ecall other =>
      if t.killedEntry then none
      else
        match syscall other (skipEcall p) with
        | none => none
        | some p => if t.killedExit then none else some (usertrapret t.kernel p)
  | .timer =>
      if t.killedExit then none
      else some (usertrapret t.kernel (timerTick p))
  | .device => if t.killedExit then none else some (usertrapret t.kernel p)
  -- setkilled(p), and then exit(-1)
  | .unexpected => none

def timerTrap (reg : Reg → UInt64) (sepc : UInt64) : Trap where
  reg := reg
  sepc := sepc
  cause := .timer
  killedEntry := false
  killedExit := false
  kernel := ⟨0, 0, 0, 0⟩

/-- A system call with `a7`, `arg0` and `arg1` in its registers, issued at `sepc`. -/
def ecallTrap (a7 arg0 arg1 sepc : UInt64) : Trap where
  reg := fun
    | .a7 => a7
    | .a0 => arg0
    | .a1 => arg1
    | _ => 0
  sepc := sepc
  cause := .ecall fun tf => some (tf, 0)
  killedEntry := false
  killedExit := false
  kernel := ⟨0, 0, 0, 0⟩

theorem num_ecallTrap (a7 arg0 arg1 sepc : UInt64) :
    num (ecallTrap a7 arg0 arg1 sepc).reg = toInt a7.toNat := rfl

def Step (p : Proc) (t : Trap) (p' : Proc) : Prop := usertrap p t = some p'

def Enters (p : Proc) (t : Trap) : Prop :=
  t.cause = .timer ∧ fires p = true

/-- The trap is the system call of number `n`; what `a7` has above its low 32 bits does
not matter. -/
def IsSyscall (n : Int) (t : Trap) : Prop :=
  (∃ other, t.cause = .ecall other) ∧ num t.reg = n

theorem Step.ecall {p q : Proc} {t : Trap}
    {other : Trapframe → Option (Trapframe × UInt64)} (hc : t.cause = .ecall other)
    (hentry : t.killedEntry = false) (hexit : t.killedExit = false)
    (hq : syscall other (skipEcall (saveUser p t)) = some q) :
    Step p t (usertrapret t.kernel q) := by
  simp only [Step, usertrap, hc, hentry, hexit, hq, Bool.false_eq_true, if_false]

def Trap.isTimer (t : Trap) : Bool :=
  match t.cause with
  | .timer => true
  | _ => false

theorem isTimer_iff (t : Trap) : t.isTimer = true ↔ t.cause = .timer := by
  cases h : t.cause <;> simp [Trap.isTimer, h]

/-! ## What one trap does -/

theorem fires_iff (p : Proc) :
    fires p = true ↔ p.ticks > 0 ∧ p.run = 0 ∧
      toInt (p.tickcount + 1) = p.ticks := by
  simp [fires, and_assoc]

theorem timerTick_of_fires {p : Proc} (h : fires p = true) :
    timerTick p =
      { p with
        run := 1
        tickcount := 0
        originaltrapframe := p.trapframe
        trapframe := { p.trapframe with epc := p.handler } } := by
  obtain ⟨ht, hr, hc⟩ := (fires_iff p).mp h
  simp [timerTick, ht, hr, hc]

theorem timerTick_of_counting {p : Proc} (ht : p.ticks > 0) (hr : p.run = 0)
    (h : fires p = false) :
    timerTick p = { p with tickcount := toInt (p.tickcount + 1) } := by
  have hc : toInt (p.tickcount + 1) ≠ p.ticks := by
    intro hc
    have := (fires_iff p).mpr ⟨ht, hr, hc⟩
    simp [this] at h
  simp [timerTick, ht, hr, hc]

theorem timerTick_of_running {p : Proc} (hr : p.run ≠ 0) :
    timerTick p = p := by
  simp [timerTick, hr]

theorem syscall_sigalarm {other : Trapframe → Option (Trapframe × UInt64)}
    {p q : Proc} {reg : Reg → UInt64} (h : syscall other p = some q)
    (hreg : p.trapframe.reg = reg) (hnum : num reg = SYS_sigalarm) :
    ∃ tf : Trapframe,
      (argint p.trapframe .a0 < 0 ∧ q = { p with trapframe := tf }) ∨
      (0 ≤ argint p.trapframe .a0 ∧
        q = { p with
          ticks := argint p.trapframe .a0
          handler := p.trapframe.reg .a1
          trapframe := tf }) := by
  simp only [syscall, hreg, hnum, if_true, Option.map_some, Option.some.injEq] at h
  subst h
  by_cases hneg : argint p.trapframe .a0 < 0
  · refine ⟨p.trapframe.setReg .a0 (-1), .inl ⟨hneg, ?_⟩⟩
    simp only [sys_sigalarm, if_pos hneg]
  · refine ⟨p.trapframe.setReg .a0 0, .inr ⟨by omega, ?_⟩⟩
    simp only [sys_sigalarm, if_neg hneg, argaddr]

theorem syscall_sigreturn {other : Trapframe → Option (Trapframe × UInt64)}
    {p q : Proc} {reg : Reg → UInt64} (h : syscall other p = some q)
    (hreg : p.trapframe.reg = reg) (hnum : num reg = SYS_sigreturn) :
    q = { p with trapframe := p.originaltrapframe, run := 0 } := by
  have hne : SYS_sigreturn ≠ SYS_sigalarm := by decide
  simp only [syscall, hreg, hnum, if_neg hne, if_true, Option.map_some,
    Option.some.injEq] at h
  subst h
  -- a0 is overwritten with itself
  simp only [sys_sigreturn, Trapframe.setReg, Function.update_eq_self]

theorem syscall_other {other : Trapframe → Option (Trapframe × UInt64)}
    {p q : Proc} {reg : Reg → UInt64} (h : syscall other p = some q)
    (hreg : p.trapframe.reg = reg) (h22 : num reg ≠ SYS_sigalarm)
    (h23 : num reg ≠ SYS_sigreturn) :
    ∃ tf : Trapframe, q = { p with trapframe := tf } := by
  simp only [syscall, hreg, if_neg h22, if_neg h23, Option.map_map,
    Option.map_eq_some_iff] at h
  obtain ⟨r, -, rfl⟩ := h
  exact ⟨_, rfl⟩

/-- **Inversion of a trap.** A trap that returns to user mode is a system call
this lab does not define, a `sigalarm`, a `sigreturn`, a timer interrupt or
another device's interrupt; each case names the state returned with. -/
theorem step_cases {p p' : Proc} {t : Trap} (h : Step p t p') :
    (∃ tf : Trapframe, num t.reg ≠ SYS_sigalarm ∧ num t.reg ≠ SYS_sigreturn ∧
      t.cause ≠ .timer ∧ p' = { p with trapframe := tf }) ∨
    (∃ tf : Trapframe, IsSyscall SYS_sigalarm t ∧
      ((argint (saveUser p t).trapframe .a0 < 0 ∧
          p' = { p with trapframe := tf }) ∨
        (0 ≤ argint (saveUser p t).trapframe .a0 ∧
          p' = { p with
            ticks := argint (saveUser p t).trapframe .a0
            handler := t.reg .a1
            trapframe := tf }))) ∨
    (IsSyscall SYS_sigreturn t ∧
      p' = { p with
        trapframe := { p.originaltrapframe with kernel := t.kernel }
        run := 0 }) ∨
    (t.cause = .timer ∧
      p' = usertrapret t.kernel (timerTick (saveUser p t))) ∨
    (t.cause = .device ∧ p' = usertrapret t.kernel (saveUser p t)) := by
  unfold Step usertrap at h
  cases hc : t.cause with
  | timer =>
      simp only [hc] at h
      split at h
      · cases h
      · exact .inr (.inr (.inr (.inl ⟨rfl, (Option.some.inj h).symm⟩)))
  | device =>
      simp only [hc] at h
      split at h
      · cases h
      · exact .inr (.inr (.inr (.inr ⟨rfl, (Option.some.inj h).symm⟩)))
  | unexpected => simp [hc] at h
  | ecall other =>
      simp only [hc] at h
      split at h
      · cases h
      cases hq : syscall other (skipEcall (saveUser p t)) with
      | none => simp only [hq, reduceCtorEq] at h
      | some q =>
          simp only [hq] at h
          split at h
          · cases h
          have hp' : p' = usertrapret t.kernel q := (Option.some.inj h).symm
          subst hp'
          by_cases h22 : num t.reg = SYS_sigalarm
          · obtain ⟨tf, hcase⟩ := syscall_sigalarm hq rfl h22
            -- the `epc` bump does not show in the argument registers
            simp only [argint, skipEcall, saveUser] at hcase ⊢
            refine .inr (.inl ⟨{ tf with kernel := t.kernel }, ⟨⟨other, hc⟩, h22⟩, ?_⟩)
            rcases hcase with ⟨hneg, rfl⟩ | ⟨hnn, rfl⟩
            · left
              exact ⟨hneg, by simp only [usertrapret]⟩
            · right
              exact ⟨hnn, by simp only [usertrapret]⟩
          · by_cases h23 : num t.reg = SYS_sigreturn
            · have hret := syscall_sigreturn hq rfl h23
              subst hret
              exact .inr (.inr (.inl ⟨⟨⟨other, hc⟩, h23⟩, rfl⟩))
            · obtain ⟨tf, rfl⟩ := syscall_other hq rfl h22 h23
              exact .inl ⟨{ tf with kernel := t.kernel }, h22, h23, by simp, rfl⟩

theorem isSyscall_sigalarm (n h sepc : UInt64) :
    IsSyscall SYS_sigalarm (ecallTrap 22 n h sepc) :=
  ⟨⟨_, rfl⟩, (num_ecallTrap 22 n h sepc).trans (by decide)⟩

theorem sigalarm_returns {p : Proc} {n h sepc : UInt64} {k : Int}
    (hk : toInt n.toNat = k) (hpos : 0 ≤ k) :
    ∃ tf, Step p (ecallTrap 22 n h sepc)
      { p with ticks := k, handler := h, trapframe := tf } := by
  have hnum := (isSyscall_sigalarm n h sepc).2
  have hneg : ¬ k < 0 := by omega
  have hreg : (skipEcall (saveUser p (ecallTrap 22 n h sepc))).trapframe.reg =
      (ecallTrap 22 n h sepc).reg := rfl
  have ha0 : (ecallTrap 22 n h sepc).reg .a0 = n := rfl
  have ha1 : (ecallTrap 22 n h sepc).reg .a1 = h := rfl
  have hsys : syscall (fun tf => some (tf, 0))
      (skipEcall (saveUser p (ecallTrap 22 n h sepc))) =
        some { p with
          ticks := k
          handler := h
          trapframe := (skipEcall (saveUser p (ecallTrap 22 n h sepc))).trapframe.setReg .a0 0 } := by
    simp only [syscall, hreg, hnum, if_true, sys_sigalarm, argint, argaddr, ha0, ha1, hk,
      if_neg hneg, Option.map_some]
    rfl
  exact ⟨_, Step.ecall rfl rfl rfl hsys⟩

theorem isSyscall_sigreturn (x y sepc : UInt64) :
    IsSyscall SYS_sigreturn (ecallTrap 23 x y sepc) :=
  ⟨⟨_, rfl⟩, (num_ecallTrap 23 x y sepc).trans (by decide)⟩

theorem sigreturn_returns {p : Proc} {x y sepc : UInt64} :
    Step p (ecallTrap 23 x y sepc)
      { p with
        trapframe := { p.originaltrapframe with kernel := ⟨0, 0, 0, 0⟩ }
        run := 0 } := by
  have hnum := (isSyscall_sigreturn x y sepc).2
  have hne : SYS_sigreturn ≠ SYS_sigalarm := by decide
  have hreg : (skipEcall (saveUser p (ecallTrap 23 x y sepc))).trapframe.reg =
      (ecallTrap 23 x y sepc).reg := rfl
  have hsys : syscall (fun tf => some (tf, 0))
      (skipEcall (saveUser p (ecallTrap 23 x y sepc))) =
        some { p with trapframe := p.originaltrapframe, run := 0 } := by
    simp only [syscall, hreg, hnum, if_neg hne, if_true, sys_sigreturn, Trapframe.setReg,
      Option.map_some, Function.update_eq_self]
    rfl
  exact Step.ecall rfl rfl rfl hsys

end Xv6Labs.Alarm
