import Xv6Labs.Alarm.Trap

/-!
# The alarm handler is transparent and does not re-enter

While the handler runs, `run` is set and `originaltrapframe` holds the user
state the timer interrupt found. Every trap but `sigreturn` keeps both
(`step_inHandler`): `run` gates the only other write to the saved copy.
`sigreturn` then puts the copy back, and `syscall` storing its return value
in `a0` stores the saved `a0`.
-/

namespace Xv6Labs.Alarm

open Xv6Labs.Lib

/-- The handler runs, and `T` is the user state it interrupted. -/
structure InHandler (T : Trapframe) (p : Proc) : Prop where
  running : p.run ≠ 0
  saved : p.originaltrapframe = T

theorem InHandler.not_enters {T : Trapframe} {p : Proc} (h : InHandler T p)
    (t : Trap) : ¬ Enters p t := by
  rintro ⟨-, hf⟩
  exact h.running ((fires_iff p).mp hf).2.1

theorem enters_inHandler {p p' : Proc} {t : Trap} (he : Enters p t)
    (h : Step p t p') : InHandler (saveUser p t).trapframe p' := by
  have hf : fires (saveUser p t) = true := he.2
  have hp' : p' = usertrapret t.kernel (timerTick (saveUser p t)) := by
    rcases step_cases h with ⟨_, -, -, hne, -⟩ | ⟨_, hs, -⟩ | ⟨hs, -⟩ | ⟨-, h'⟩ |
      ⟨hd, -⟩
    · exact absurd he.1 hne
    · obtain ⟨other, ho⟩ := hs.1
      rw [he.1] at ho
      cases ho
    · obtain ⟨other, ho⟩ := hs.1
      rw [he.1] at ho
      cases ho
    · exact h'
    · rw [he.1] at hd
      cases hd
  rw [timerTick_of_fires hf] at hp'
  subst hp'
  exact ⟨by simp [usertrapret], by simp [usertrapret]⟩

/-- Every trap but `sigreturn` keeps the handler running over the same saved
state. -/
theorem step_inHandler {T : Trapframe} {p p' : Proc} {t : Trap}
    (hp : InHandler T p) (ht : ¬ IsSyscall SYS_sigreturn t)
    (h : Step p t p') : InHandler T p' := by
  rcases step_cases h with ⟨tf, -, -, -, rfl⟩ | ⟨tf, -, hcase⟩ | ⟨hs, -⟩ |
    ⟨-, rfl⟩ | ⟨-, rfl⟩
  · exact ⟨hp.running, hp.saved⟩
  · rcases hcase with ⟨-, rfl⟩ | ⟨-, rfl⟩
    · exact ⟨hp.running, hp.saved⟩
    · exact ⟨hp.running, hp.saved⟩
  · exact absurd hs ht
  · have hr : (saveUser p t).run ≠ 0 := hp.running
    rw [timerTick_of_running hr]
    exact ⟨hp.running, hp.saved⟩
  · exact ⟨hp.running, hp.saved⟩

theorem sigreturn_restores {T : Trapframe} {p p' : Proc} {t : Trap}
    (hp : InHandler T p) (ht : IsSyscall SYS_sigreturn t) (h : Step p t p') :
    p'.trapframe.reg = T.reg ∧ p'.trapframe.epc = T.epc := by
  have hne : SYS_sigreturn ≠ SYS_sigalarm := by decide
  obtain ⟨⟨other, ho⟩, hnum⟩ := ht
  rcases step_cases h with ⟨_, -, h23, -, -⟩ | ⟨_, hs, -⟩ | ⟨-, rfl⟩ | ⟨hc, -⟩ |
    ⟨hc, -⟩
  · exact absurd hnum h23
  · exact absurd (hnum.symm.trans hs.2) hne
  · exact ⟨by rw [hp.saved], by rw [hp.saved]⟩
  · rw [ho] at hc
    cases hc
  · rw [ho] at hc
    cases hc

/-- **Transparency.** Let a timer interrupt enter the handler over the user
state `T`. Whatever traps follow, none of them enters the handler before the
first `sigreturn`, and the return to user mode after that `sigreturn` has
every register and the program counter of `T`. -/
theorem alarm_transparent {p p₁ p₂ : Proc} {t : Trap} {ls : List Trap}
    (henter : Enters p t) (h₁ : Step p t p₁) (hrun : Run Step p₁ ls p₂)
    (hls : ∀ l ∈ ls, ¬ IsSyscall SYS_sigreturn l) :
    Each Step (fun q l => ¬ Enters q l) p₁ ls ∧
    ∀ (r : Trap) (p₃ : Proc), IsSyscall SYS_sigreturn r → Step p₂ r p₃ →
      ¬ Enters p₂ r ∧
      (∀ x, p₃.trapframe.reg x = (saveUser p t).trapframe.reg x) ∧
      p₃.trapframe.epc = (saveUser p t).trapframe.epc := by
  have hin := enters_inHandler henter h₁
  have hkeep : ∀ s l u, InHandler (saveUser p t).trapframe s →
      ¬ IsSyscall SYS_sigreturn l → Step s l u →
      InHandler (saveUser p t).trapframe u :=
    fun _ _ _ hs hl hu => step_inHandler hs hl hu
  have heach : Each Step (fun _ l => ¬ IsSyscall SYS_sigreturn l) p₁ ls :=
    each_of_forall hls
  have hin₂ := (always_of_each hkeep hin heach).last hrun
  refine ⟨each_of_each hkeep (fun s l hs _ => hs.not_enters l) hin heach, ?_⟩
  intro r p₃ hr h₃
  obtain ⟨hreg, hepc⟩ := sigreturn_restores hin₂ hr h₃
  exact ⟨hin₂.not_enters r, fun x => congrFun hreg x, hepc⟩

/-- A process with interval 1 is interrupted at `0x1000`, takes a timer
interrupt and issues a `sigalarm(5, 0)` inside the handler, and returns. -/
theorem alarm_transparent_nested_traps :
    let tf : Trapframe := ⟨⟨0, 0, 0, 0⟩, 0, fun _ => 7⟩
    let p : Proc := ⟨tf, tf, 1, 0, 64, 0⟩
    let user : Reg → UInt64 := fun r => if r = .a0 then 42 else 9
    ∃ p₁ p₂ p₃, Step p (timerTrap user 0x1000) p₁ ∧
      Run Step p₁ [timerTrap (fun _ => 1) 64, ecallTrap 22 5 0 72] p₂ ∧
      Step p₂ (ecallTrap 23 0 0 80) p₃ ∧
      (∀ x, p₃.trapframe.reg x = user x) ∧ p₃.trapframe.epc = 0x1000 := by
  intro tf p user
  have henter : Enters p (timerTrap user 0x1000) := ⟨rfl, by decide⟩
  have hls : ∀ l ∈ [timerTrap (fun _ => 1) 64, ecallTrap 22 5 0 72],
      ¬ IsSyscall SYS_sigreturn l := by
    intro l hl
    rcases List.mem_cons.mp hl with rfl | hl
    · rintro ⟨⟨other, ho⟩, -⟩
      cases ho
    · rw [List.mem_singleton] at hl
      subst hl
      intro hret
      exact absurd ((isSyscall_sigalarm 5 0 72).2.symm.trans hret.2) (by decide)
  let p₁ : Proc :=
    usertrapret ⟨0, 0, 0, 0⟩ (timerTick (saveUser p (timerTrap user 0x1000)))
  let q : Proc := usertrapret ⟨0, 0, 0, 0⟩ (timerTick (saveUser p₁ (timerTrap (fun _ => 1) 64)))
  obtain ⟨tf', hcall⟩ : ∃ tf, Step q (ecallTrap 22 5 0 72)
      { q with ticks := 5, handler := 0, trapframe := tf } :=
    sigalarm_returns (by decide) (by decide)
  have hrun : Run Step p₁ [timerTrap (fun _ => 1) 64, ecallTrap 22 5 0 72] _ :=
    .cons (t := q) rfl (.cons hcall (.nil _))
  obtain ⟨-, hreg, hepc⟩ := (alarm_transparent henter rfl hrun hls).2
    (ecallTrap 23 0 0 80) _ (isSyscall_sigreturn 0 0 80) sigreturn_returns
  exact ⟨_, _, _, rfl, hrun, sigreturn_returns, hreg, hepc⟩

end Xv6Labs.Alarm
