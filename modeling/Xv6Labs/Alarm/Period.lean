import Xv6Labs.Alarm.Trap

/-!
# The alarm period

`sys_sigalarm` stores a new interval but keeps `tickcount`. A call therefore
inherits whatever the previous interval had counted, and the equality test of
the timer branch then fires early or is stepped over. The period is honoured
after a call exactly when the call finds `tickcount = 0`
(`period_honoured_iff`).
-/

namespace Xv6Labs.Alarm

open Xv6Labs.Lib

def Reachable (p : Proc) : Prop :=
  ∃ tf otf h ts, Run Step (allocproc tf otf h) ts p

/-- This trap is one of the interrupts the period is counted in. -/
def counted (p : Proc) (t : Trap) : Bool := t.isTimer && decide (p.run = 0)

/-- The counter after trap `t`, when `c` interrupts have been counted since the
`sigalarm` call or the last handler entry. -/
def nextCount (n : Int) (c : Nat) (p : Proc) (t : Trap) : Nat :=
  if counted p t then (if (c : Int) + 1 = n then 0 else c + 1) else c

/-- The period `n` with handler `h` is honoured along `ts`: a trap enters the
handler exactly when it is the `n`-th counted interrupt since the call or the
last entry, an entry goes to `h`, and between traps `0 ≤ tickcount < n`. -/
def Honoured (n : Int) (h : UInt64) : Nat → Proc → List Trap → Prop
  | _, p, [] => 0 ≤ p.tickcount ∧ p.tickcount < n
  | c, p, t :: ts =>
      (0 ≤ p.tickcount ∧ p.tickcount < n) ∧
      (Enters p t ↔ counted p t = true ∧ (c : Int) + 1 = n) ∧
      ∀ p', Step p t p' →
        (Enters p t → p'.trapframe.epc = h) ∧
        Honoured n h (nextCount n c p t) p' ts

theorem toInt_of_lt {x : Int} (h₀ : 0 ≤ x) (h₁ : x < 2147483648) :
    toInt x = x := by
  unfold toInt
  rw [Int.bmod_def]
  omega

theorem toInt_lt (x : Int) : toInt x < 2147483648 := by
  unfold toInt
  have := Int.bmod_lt (x := x) (m := 4294967296) (by omega)
  omega

theorem counted_iff (p : Proc) (t : Trap) :
    counted p t = true ↔ t.cause = .timer ∧ p.run = 0 := by
  simp [counted, isTimer_iff]

/-- The interval is set to `n` with handler `h`, and `c` interrupts are on the
counter. -/
structure Counting (n : Int) (h : UInt64) (c : Nat) (p : Proc) : Prop where
  ticks : p.ticks = n
  handler : p.handler = h
  count : p.tickcount = c
  lt : (c : Int) < n
  small : n < 2147483648

theorem Counting.enters_iff {n : Int} {h : UInt64} {c : Nat} {p : Proc}
    (hp : Counting n h c p) (t : Trap) :
    Enters p t ↔ counted p t = true ∧ (c : Int) + 1 = n := by
  have hlt := hp.lt
  have hs := hp.small
  have hnext : toInt (p.tickcount + 1) = c + 1 := by
    rw [hp.count]
    exact toInt_of_lt (by omega) (by omega)
  unfold Enters
  rw [fires_iff, counted_iff, hnext, hp.ticks]
  constructor
  · rintro ⟨hc, -, hr, hn⟩
    exact ⟨⟨hc, hr⟩, hn⟩
  · rintro ⟨⟨hc, hr⟩, hn⟩
    exact ⟨hc, by omega, hr, hn⟩

theorem Counting.step {n : Int} {h : UInt64} {c : Nat} {p p' : Proc} {t : Trap}
    (hp : Counting n h c p) (ht : ¬ IsSyscall SYS_sigalarm t)
    (hs : Step p t p') :
    Counting n h (nextCount n c p t) p' ∧
      (Enters p t → p'.trapframe.epc = h) := by
  have hlt := hp.lt
  have hsm := hp.small
  -- traps that leave all four counters alone
  have hsame : ∀ q : Proc, q.ticks = p.ticks → q.handler = p.handler →
      q.tickcount = p.tickcount → Counting n h c q := fun q h1 h2 h3 =>
    ⟨h1.trans hp.ticks, h2.trans hp.handler, h3.trans hp.count, hlt, hsm⟩
  have hnot : t.cause ≠ .timer →
      nextCount n c p t = c ∧ ¬ Enters p t := fun hne => by
    have hc : counted p t = false := by
      rw [Bool.eq_false_iff, Ne, counted_iff]
      exact fun hh => hne hh.1
    exact ⟨by simp [nextCount, hc], fun he => hne he.1⟩
  rcases step_cases hs with ⟨tf, -, -, hne, rfl⟩ | ⟨_, hcall, -⟩ | ⟨hret, rfl⟩ |
    ⟨hc, rfl⟩ | ⟨hc, rfl⟩
  · rw [(hnot hne).1]
    exact ⟨hsame _ rfl rfl rfl, fun he => absurd he (hnot hne).2⟩
  · exact absurd hcall ht
  · obtain ⟨⟨other, ho⟩, -⟩ := hret
    have hne : t.cause ≠ .timer := by rw [ho]; simp
    rw [(hnot hne).1]
    exact ⟨hsame _ rfl rfl rfl, fun he => absurd he (hnot hne).2⟩
  · by_cases hr : p.run = 0
    · have hcnt : counted p t = true := (counted_iff p t).mpr ⟨hc, hr⟩
      have hpos : (saveUser p t).ticks > 0 := by
        show p.ticks > 0
        rw [hp.ticks]
        omega
      by_cases hn : (c : Int) + 1 = n
      · -- the n-th interrupt: the handler is entered and the count restarts
        have hf : fires (saveUser p t) = true :=
          ((hp.enters_iff t).mpr ⟨hcnt, hn⟩).2
        rw [timerTick_of_fires hf]
        refine ⟨⟨hp.ticks, hp.handler, ?_, ?_, hsm⟩, fun _ => hp.handler⟩
        · simp [nextCount, hcnt, hn, usertrapret]
        · simp [nextCount, hcnt, hn]
          omega
      · have hf : fires (saveUser p t) = false := by
          rw [Bool.eq_false_iff]
          exact fun hf => hn ((hp.enters_iff t).mp ⟨hc, hf⟩).2
        rw [timerTick_of_counting hpos hr hf]
        refine ⟨⟨hp.ticks, hp.handler, ?_, ?_, hsm⟩, fun he => ?_⟩
        · show toInt (p.tickcount + 1) = _
          rw [hp.count, toInt_of_lt (by omega) (by omega)]
          simp [nextCount, hcnt, hn]
        · simp only [nextCount, hcnt, hn, if_true, if_false]
          push_cast
          omega
        · exact absurd ((hp.enters_iff t).mp he).2 hn
    · have hcnt : counted p t = false := by
        rw [Bool.eq_false_iff, Ne, counted_iff]
        exact fun hh => hr hh.2
      have hr' : (saveUser p t).run ≠ 0 := hr
      rw [timerTick_of_running hr']
      have hnc : nextCount n c p t = c := by simp [nextCount, hcnt]
      rw [hnc]
      refine ⟨hsame _ rfl rfl rfl, fun he => ?_⟩
      exact absurd ((hp.enters_iff t).mp he).1 (by simp [hcnt])
  · have hne : t.cause ≠ .timer := by rw [hc]; simp
    rw [(hnot hne).1]
    exact ⟨hsame _ rfl rfl rfl, fun he => absurd he (hnot hne).2⟩

theorem Counting.honoured {n : Int} {h : UInt64} :
    ∀ {ts : List Trap} {c : Nat} {p : Proc}, Counting n h c p →
      (∀ t ∈ ts, ¬ IsSyscall SYS_sigalarm t) → Honoured n h c p ts
  | [], c, p, hp, _ => by
      have hlt := hp.lt
      have hcount := hp.count
      exact ⟨by omega, by omega⟩
  | t :: ts, c, p, hp, hts => by
      have hlt := hp.lt
      have hcount := hp.count
      refine ⟨⟨by omega, by omega⟩, hp.enters_iff t, fun p' hs => ?_⟩
      obtain ⟨hp', hepc⟩ := hp.step (hts t List.mem_cons_self) hs
      exact ⟨hepc, hp'.honoured (fun u hu => hts u (List.mem_cons_of_mem _ hu))⟩

/-- A timer interrupt that does not complete the interval returns to user mode
with the count raised by one. -/
theorem timerTrap_counts {p : Proc} (ht : p.ticks > 0) (hr : p.run = 0)
    (hf : fires p = false) (reg : Reg → UInt64) (sepc : UInt64) :
    ∃ q, Step p (timerTrap reg sepc) q ∧ q.ticks = p.ticks ∧ q.run = 0 ∧
      q.tickcount = toInt (p.tickcount + 1) := by
  have hstep : Step p (timerTrap reg sepc) (usertrapret ⟨0, 0, 0, 0⟩
      (timerTick (saveUser p (timerTrap reg sepc)))) := rfl
  rw [timerTick_of_counting (p := saveUser p (timerTrap reg sepc)) ht hr hf]
    at hstep
  exact ⟨_, hstep, by simp only [usertrapret, saveUser],
    by simp only [usertrapret, saveUser]; exact hr,
    by simp only [usertrapret, saveUser]⟩

/-- Interrupts alone tell the count: if the period is honoured for `c` along
enough timer interrupts, then `c` is what `tickcount` holds. -/
theorem honoured_count_eq {n : Int} {h : UInt64} (hn : n < 2147483648) :
    ∀ (k c : Nat) (p : Proc), p.ticks = n → p.run = 0 → 0 ≤ p.tickcount →
      p.tickcount + (k + 1) = n →
      Honoured n h c p (List.replicate (k + 1) (timerTrap (fun _ => 0) 0)) →
      p.tickcount = c
  | 0, c, p, ht, hr, h0, hk, hh => by
      obtain ⟨-, hiff, -⟩ := hh
      have hf : fires p = true := by
        rw [fires_iff, ht]
        refine ⟨by omega, hr, ?_⟩
        rw [toInt_of_lt (by omega) (by omega)]
        omega
      have := (hiff.mp ⟨rfl, hf⟩).2
      omega
  | k + 1, c, p, ht, hr, h0, hk, hh => by
      obtain ⟨-, hiff, hnext⟩ := hh
      have hnt : toInt (p.tickcount + 1) = p.tickcount + 1 :=
        toInt_of_lt (by omega) (by omega)
      have hf : fires p = false := by
        rw [Bool.eq_false_iff, Ne, fires_iff, hnt, ht]
        rintro ⟨-, -, hc⟩
        omega
      have hcnt : counted p (timerTrap (fun _ => 0) 0) = true :=
        (counted_iff _ _).mpr ⟨rfl, hr⟩
      have hc : (c : Int) + 1 ≠ n := fun hc => by
        have := (hiff.mpr ⟨hcnt, hc⟩).2
        simp [hf] at this
      obtain ⟨q, hq, hqt, hqr, hqc⟩ :=
        timerTrap_counts (by omega) hr hf (fun _ => 0) 0
      obtain ⟨-, hrest⟩ := hnext q hq
      have hcc : nextCount n c p (timerTrap (fun _ => 0) 0) = c + 1 := by
        simp [nextCount, hcnt, hc]
      rw [hcc] at hrest
      rw [hnt] at hqc
      push_cast at hk
      have ih := honoured_count_eq hn k (c + 1) q (hqt.trans ht) hqr (by omega)
        (by omega) hrest
      push_cast at ih
      omega

theorem sigalarm_sets {p p' : Proc} {t : Trap} (ht : IsSyscall SYS_sigalarm t)
    (hpos : 0 < argint (saveUser p t).trapframe .a0) (h : Step p t p') :
    p'.ticks = argint (saveUser p t).trapframe .a0 ∧ p'.handler = t.reg .a1 ∧
      p'.tickcount = p.tickcount ∧ p'.run = p.run := by
  have hne : SYS_sigreturn ≠ SYS_sigalarm := by decide
  obtain ⟨⟨other, ho⟩, hnum⟩ := ht
  rcases step_cases h with ⟨_, h22, -, -, -⟩ | ⟨_, -, hcase⟩ | ⟨hs, -⟩ | ⟨hc, -⟩ |
    ⟨hc, -⟩
  · exact absurd hnum h22
  · rcases hcase with ⟨hneg, -⟩ | ⟨-, rfl⟩
    · omega
    · simp only [and_self]
  · exact absurd (hs.2.symm.trans hnum) hne
  · rw [ho] at hc
    cases hc
  · rw [ho] at hc
    cases hc

/-- **When the period is honoured.** After a call `sigalarm(n, h)` with
`n > 0` and no handler running, the handler is entered at exactly the `n`-th
counted interrupt after the call and every `n`-th one from then on, in every
later run without another `sigalarm`, exactly when the call found
`tickcount = 0`. -/
theorem period_honoured_iff {p p' : Proc} {t : Trap} (hrun : p.run = 0)
    (ht : IsSyscall SYS_sigalarm t)
    (hpos : 0 < argint (saveUser p t).trapframe .a0) (h : Step p t p') :
    (∀ ts : List Trap, (∀ u ∈ ts, ¬ IsSyscall SYS_sigalarm u) →
      Honoured (argint (saveUser p t).trapframe .a0) (t.reg .a1) 0 p' ts) ↔
    p.tickcount = 0 := by
  obtain ⟨hticks, hhandler, hcount, hrun'⟩ := sigalarm_sets ht hpos h
  have hsmall : argint (saveUser p t).trapframe .a0 < 2147483648 := toInt_lt _
  constructor
  · intro hall
    -- the empty run already puts the inherited count inside the interval
    obtain ⟨h0, hlt⟩ := hall [] (by simp)
    obtain ⟨k, hk⟩ := Int.le.dest (show p'.tickcount + 1 ≤ _ from hlt)
    have hnoalarm : ∀ u ∈ List.replicate (k + 1) (timerTrap (fun _ => 0) 0),
        ¬ IsSyscall SYS_sigalarm u := by
      intro u hu
      rw [List.eq_of_mem_replicate hu]
      rintro ⟨⟨other, ho⟩, -⟩
      cases ho
    have heq := honoured_count_eq hsmall k 0 p' hticks (hrun'.trans hrun) h0
      (by omega) (hall _ hnoalarm)
    rw [hcount] at heq
    exact_mod_cast heq
  · intro h0 ts hts
    have hc : Counting (argint (saveUser p t).trapframe .a0) (t.reg .a1) 0 p' :=
      ⟨hticks, hhandler, by rw [hcount, h0]; rfl, by exact_mod_cast hpos, hsmall⟩
    exact hc.honoured hts

/-- A process that never called `sigalarm` before gets the period it asks
for. -/
theorem period_honoured_first_call :
    let tf : Trapframe := ⟨⟨0, 0, 0, 0⟩, 0, fun _ => 0⟩
    ∃ p', Step (allocproc tf tf 0) (ecallTrap 22 2 64 0) p' ∧
      ∀ ts : List Trap, (∀ u ∈ ts, ¬ IsSyscall SYS_sigalarm u) →
        Honoured 2 64 0 p' ts := by
  intro tf
  have hrun : (allocproc tf tf 0).run = 0 := rfl
  obtain ⟨tf', hstep⟩ := sigalarm_returns (p := allocproc tf tf 0) (n := 2) (h := 64)
    (k := 2) (by decide) (by decide)
  have harg : argint (saveUser (allocproc tf tf 0)
      (ecallTrap 22 2 64 0)).trapframe .a0 = 2 := by decide
  have hall := (period_honoured_iff hrun (isSyscall_sigalarm 2 64 0) (by rw [harg]; decide) hstep).mpr rfl
  rw [harg] at hall
  exact ⟨_, hstep, hall⟩

/-- `sigalarm(n, h)` issued by a process nobody kills, followed by a timer
interrupt that does not complete the interval. -/
theorem sigalarm_then_tick {p : Proc} {n h : UInt64} {k c : Int}
    (hr : p.run = 0) (hk : toInt n.toNat = k) (hpos : 0 < k)
    (hc : toInt (p.tickcount + 1) = c) (hne : c ≠ k) :
    let tf : Trapframe := ⟨⟨0, 0, 0, 0⟩, 0, fun _ => 0⟩
    ∃ q, Step p (ecallTrap 22 n h 0) q ∧
      Step q (timerTrap (fun _ => 0) 0) ⟨tf, p.originaltrapframe, k, c, h, 0⟩ := by
  intro tf
  obtain ⟨tf', hstep⟩ := sigalarm_returns (p := p) (h := h) hk (by omega)
  refine ⟨_, hstep, ?_⟩
  simp only [Step, usertrap, timerTrap, saveUser, usertrapret, timerTick, hr, gt_iff_lt,
    hpos, hc, hne, and_self, if_true, if_false]
  rfl

/-- Five interrupts into an interval of ten, `sigalarm(3, 64)` inherits the
count: the third interrupt after the call does not enter the handler. -/
theorem period_not_honoured_after_partial_interval :
    ¬ ∀ (p p' : Proc) (t : Trap), Reachable p → p.run = 0 →
      IsSyscall SYS_sigalarm t → 0 < argint (saveUser p t).trapframe .a0 →
      Step p t p' →
      ∀ ts : List Trap, (∀ u ∈ ts, ¬ IsSyscall SYS_sigalarm u) →
        Honoured (argint (saveUser p t).trapframe .a0) (t.reg .a1) 0 p' ts := by
  intro hall
  let tf : Trapframe := ⟨⟨0, 0, 0, 0⟩, 0, fun _ => 0⟩
  let tick : Trap := timerTrap (fun _ => 0) 0
  let p : Int → Proc := fun c => ⟨tf, tf, 10, c, 64, 0⟩
  obtain ⟨p₀, hcall, htick⟩ := sigalarm_then_tick (p := allocproc tf tf 0)
    (n := 10) (h := 64) (k := 10) (c := 1) rfl (by decide) (by decide)
    (by decide) (by decide)
  have hrun : Run Step (allocproc tf tf 0)
      [ecallTrap 22 10 64 0, tick, tick, tick, tick, tick] (p 5) :=
    .cons hcall (.cons (t := p 1) htick (.cons (t := p 2) rfl
      (.cons (t := p 3) rfl (.cons (t := p 4) rfl (.cons rfl (.nil _))))))
  have hticks : ∀ u ∈ [tick, tick, tick], ¬ IsSyscall SYS_sigalarm u := by
    intro u hu
    simp only [List.mem_cons, List.not_mem_nil, or_false, or_self] at hu
    subst hu
    rintro ⟨⟨other, ho⟩, -⟩
    cases ho
  obtain ⟨q₀, hcall', htick'⟩ := sigalarm_then_tick (p := p 5)
    (n := 3) (h := 64) (k := 3) (c := 6) rfl (by decide) (by decide)
    (by decide) (by decide)
  let q : Int → Proc := fun c => ⟨tf, tf, 3, c, 64, 0⟩
  have hbad := hall (p 5) q₀ (ecallTrap 22 3 64 0)
    ⟨tf, tf, 0, _, hrun⟩ rfl (isSyscall_sigalarm 3 64 0) (by decide) hcall'
    [tick, tick, tick] hticks
  have harg : argint (saveUser (p 5) (ecallTrap 22 3 64 0)).trapframe
      .a0 = 3 := by decide
  have hrun₀ : q₀.run = 0 :=
    (sigalarm_sets (isSyscall_sigalarm 3 64 0) (by decide) hcall').2.2.2
  have hone : nextCount 3 0 q₀ tick = 1 := by
    simp [nextCount, (counted_iff q₀ tick).mpr ⟨rfl, hrun₀⟩]
  rw [harg] at hbad
  obtain ⟨-, -, h₁⟩ := hbad
  obtain ⟨-, -, h₂⟩ := (h₁ (q 6) htick').2
  rw [hone] at h₂
  obtain ⟨-, hiff, -⟩ := (h₂ (q 7) rfl).2
  have henters := (hiff.mpr ⟨rfl, by decide⟩).2
  exact absurd henters (by decide)

end Xv6Labs.Alarm
