import Xv6Labs.Super.Alone
import Xv6Labs.Super.Returns

/-!
# Programs

What `exec` does in the midst of the other processes: it succeeds as a whole or changes
nothing, and a program it has started keeps the pages its size covers for as long as its
calls of `growproc` are safe ones, whatever runs in between.
-/

namespace Xv6Labs.Super

open Xv6Labs.Lib

variable {kend trampoline forkret : Nat} {L : Loader} {m m' m₀ : Machine} {a : Act}
  {as as₀ : List Act} {p p' : Slot} {pt pt' : PageTable} {k' : Kernel} {i : Nat}
  {path : List UInt8} {elf : Option Elf} {argv : List Bytes} {ret : Int}

/-- **`exec` succeeds or changes nothing.** It returns when the pages of the process are those
its size covers, unless there are just `MAXARG` arguments. When it fails the process is what it
was, the free lists hold the same pages and no byte outside them has changed. When it succeeds
the process has exactly the pages of the new image, with a guard page below the stack and the
registers set for `main`; every page of the old image is free; and nothing is lost. -/
theorem exec_succeeds_or_changes_nothing (hB : Boot kend m₀) (hI : L.Inside)
    (hr : Run (Machine.Step kend trampoline forkret L) m₀ as m)
    (hp : m.sys.proc[i]? = some p) (hst : p.state ≠ .UNUSED)
    (helf : ∀ e, elf = some e → e.Low) :
    (L.Returns → argv.length ≠ MAXARG →
      (∀ pt, p.pagetable = some pt → Layout pt (pages p.sz)) →
      ∃ r, exec kend L trampoline m.sys.k p path elf argv = .ok r) ∧
    ∀ k' p' ret, exec kend L trampoline m.sys.k p path elf argv = .ok (k', p', ret) →
      (ret < 0 → p' = p ∧ k'.freelist.Perm m.sys.k.freelist ∧
        k'.superfreelist.Perm m.sys.k.superfreelist ∧
        ∀ x, ¬ m.sys.k.spare x → k'.mem x = m.sys.k.mem x) ∧
      (0 ≤ ret → ret = argv.length ∧ ∃ e, elf = some e ∧ Replaced k' p p' e.entry) ∧
      (∀ f, k'.freelist.count f + p'.small f = m.sys.k.freelist.count f + p.small f) ∧
      ∀ f, k'.superfreelist.count f + p'.super f =
        m.sys.k.superfreelist.count f + p.super f := by
  have h := hB.run hI hr
  obtain ⟨pt, t, u, hL⟩ := Super.Ledger.process h hp hst
  constructor
  · intro hR hargs hlay
    exact Super.Ledger.exec_returns h hB.stock hp hL hI hR helf hargs (hlay pt hL.pagetable) path
  · intro k' p' ret hok
    obtain ⟨-, -, hE, -⟩ := Super.Ledger.exec h hB.stock hp hL hI helf m.sys.nextpid hok
    refine ⟨fun hneg => ?_, hE.replaced, hE.small, hE.super⟩
    obtain ⟨hsame, hN⟩ := hE.failed hneg
    exact ⟨hsame, List.perm_iff_count.mpr hN.small, List.perm_iff_count.mpr hN.super, hN.mem⟩

/-- The first program of the first process, and one more after it. -/
theorem exec_succeeds_or_changes_nothing_bss : ∃ (m : Machine) (p : Slot) (k : Kernel) (p' : Slot),
    exec 0x80010000 stackLoader 0x80007000 m.sys.k p [97] (some bss) [] = .ok (k, p', 0) ∧
      Replaced k p p' 0 ∧ (∀ f, k.freelist.count f + p'.small f =
        m.sys.k.freelist.count f + p.small f) ∧
      ∃ r, exec 0x80010000 stackLoader 0x80007000 k p' [98] (some bss) [[45, 108]] = .ok r := by
  obtain ⟨m, p, k, p', -, hrun, -, hp, hst, hexec, hst', -⟩ := first_program
  obtain ⟨-, hsucceeds, hsmall, -⟩ := (exec_succeeds_or_changes_nothing twoProcs_boot
    stackLoader_inside hrun hp (by rw [hst]; decide) bss_low).2 _ _ _ hexec
  obtain ⟨-, elf, helf, hR⟩ := hsucceeds (by decide)
  obtain rfl := Option.some.inj helf
  have hlt := (List.getElem?_eq_some_iff.mp hp).1
  have hrun₁ := hrun.append (.cons (.exec hp hst bss_low hexec) (.nil _))
  refine ⟨m, p, k, p', hexec, hR, hsmall, (exec_succeeds_or_changes_nothing twoProcs_boot
    stackLoader_inside hrun₁ (List.getElem?_set_self hlt) (by rw [hst']; decide) bss_low).1
    stackLoader_returns (by decide) ?_⟩
  intro pt hpt
  obtain ⟨new, hnew, himage⟩ := hR.image
  obtain rfl := Option.some.inj (hnew.symm.trans hpt)
  exact himage.layout

/-! ## After `exec` -/

/-- What the process in slot `i` is asked to do: it stays with its image, and its calls of
`growproc` are safe ones. -/
def Machine.SafeAct (i : Nat) (m : Machine) (a : Act) : Prop :=
  ¬ a.replaces i ∧ ∀ n p pt, a.call i = some n → m.sys.proc[i]? = some p →
    p.pagetable = some pt → (m.task i p pt).SafeCall n

/-- A process whose pages are those its size covers. -/
def Machine.Tidy (kend i : Nat) (m : Machine) : Prop :=
  ∃ p pt, Alone m i p pt ∧ Covered kend (m.task i p pt)

theorem Machine.Tidy.step (hB : Boot kend m₀) (hI : L.Inside) (h : m₀.Ledger trampoline m)
    (ht : m.Tidy kend i) (hsafe : m.SafeAct i a)
    (hs : Machine.Step kend trampoline forkret L m a m') : m'.Tidy kend i := by
  obtain ⟨p, pt, hA, hC⟩ := ht
  obtain ⟨hkeep, hcalls⟩ := hsafe
  obtain ⟨p', pt', e, hA', hstep, hcall⟩ := hA.step hB hI h hkeep hs
  refine ⟨p', pt', hA', hC.safe_step ?_ hstep⟩
  cases e with
  | growproc n => exact hcalls n p pt hcall.symm hA.slot hA.pagetable
  | others k => trivial

theorem Replaced.tidy (hB : Boot kend m₀) (h : m₀.Ledger trampoline m)
    (hp : m.sys.proc[i]? = some p') (hst : p'.state ≠ .UNUSED) {k : Kernel} {entry : Nat}
    (hR : Replaced k p p' entry) : m.Tidy kend i := by
  obtain ⟨new, hnew, himage⟩ := hR.image
  obtain ⟨pt, t, u, hL⟩ := Super.Ledger.process h hp hst
  obtain rfl := Option.some.inj (hL.pagetable.symm.trans hnew)
  have hpos : 0 < p'.sz := by
    have := himage.two
    simp only [PGSIZE] at this
    omega
  have hA : Alone m i p' pt := ⟨hp, hst, hnew, hL.image hpos⟩
  exact ⟨p', pt, hA, hA.space hB h, himage.layout⟩

/-- **A program keeps its address space.** From its `exec` on, for as long as it stays with
its image and its own calls of `growproc` are safe, the user pages of a process are those
its size covers, it can be torn down, and the next safe call returns; whatever the other
processes and the rest of the kernel do in between. -/
theorem program_keeps_its_pages (hB : Boot kend m₀) (hI : L.Inside)
    (hr₀ : Run (Machine.Step kend trampoline forkret L) m₀ as₀ m)
    (hp : m.sys.proc[i]? = some p) (hrun : p.state = .RUNNING)
    (helf : ∀ e, elf = some e → e.Low)
    (hok : exec kend L trampoline m.sys.k p path elf argv = .ok (k', p', ret)) (hret : 0 ≤ ret)
    (hr : Run (Machine.Step kend trampoline forkret L)
      { m with sys := ⟨k', m.sys.proc.set i p', m.sys.nextpid⟩ } as m')
    (hsafe : Each (Machine.Step kend trampoline forkret L) (fun s a => s.SafeAct i a)
      { m with sys := ⟨k', m.sys.proc.set i p', m.sys.nextpid⟩ } as) :
    ∃ q qt, m'.sys.proc[i]? = some q ∧ q.pagetable = some qt ∧ Sound kend (m'.task i q qt) ∧
      ∀ n, (m'.task i q qt).SafeCall n →
        ∃ r, growproc kend m'.sys.k (m'.proc i q qt) n = .ok r := by
  have h := hB.run hI hr₀
  have hexec : Machine.Step kend trampoline forkret L m (.exec i path elf argv) _ :=
    .exec hp hrun helf hok
  have h₁ := (h.step hB hI hexec).1
  obtain ⟨pt, t, u, hL⟩ := Super.Ledger.process h hp (by rw [hrun]; decide)
  obtain ⟨-, -, hE, hstate, -⟩ := Super.Ledger.exec h hB.stock hp hL hI helf m.sys.nextpid hok
  obtain ⟨-, e, -, hR⟩ := hE.replaced hret
  have hlt := (List.getElem?_eq_some_iff.mp hp).1
  have ht₁ := hR.tidy hB h₁ (List.getElem?_set_self hlt) (by
    rw [hstate, hrun]
    decide)
  have hstep : ∀ s a s', m₀.Ledger trampoline s ∧ s.Tidy kend i → s.SafeAct i a →
      Machine.Step kend trampoline forkret L s a s' →
      m₀.Ledger trampoline s' ∧ s'.Tidy kend i := fun s a s' hs ha hstep =>
    ⟨(hs.1.step hB hI hstep).1, hs.2.step hB hI hs.1 ha hstep⟩
  obtain ⟨-, q, qt, hA, hC⟩ := (always_of_each hstep ⟨h₁, ht₁⟩ hsafe).last hr
  refine ⟨q, qt, hA.slot, hA.pagetable, hC.sound, fun n hn => ?_⟩
  exact Covered.growproc_ok hC (fun hpos => ⟨hn.clear hpos, hn.room hpos⟩)
    (fun hneg => ⟨hn.inside hneg, hn.uncut hneg⟩)

/-- While a second process is made. -/
theorem program_keeps_its_pages_bss : ∃ m m' q qt,
    Run (Machine.Step 0x80010000 0x80007000 0x80001000 stackLoader) m [.allocproc] m' ∧
      m'.sys.proc[0]? = some q ∧ q.pagetable = some qt ∧
      Sound 0x80010000 (m'.task 0 q qt) := by
  obtain ⟨m, p, k, p', -, hrun, -, hp, hst, hexec, -, -, -, -, y, hok⟩ := first_program
  have hstep : Run (Machine.Step 0x80010000 0x80007000 0x80001000 stackLoader)
      { m with sys := ⟨k, m.sys.proc.set 0 p', m.sys.nextpid⟩ } [.allocproc] _ :=
    .cons (.allocproc hok) (.nil _)
  have hsafe : Each (Machine.Step 0x80010000 0x80007000 0x80001000 stackLoader)
      (fun s a => s.SafeAct 0 a) { m with sys := ⟨k, m.sys.proc.set 0 p', m.sys.nextpid⟩ }
      [.allocproc] := ⟨⟨fun h => h, fun n p pt hcall => (by cases hcall)⟩, fun _ _ => trivial⟩
  obtain ⟨q, qt, hq, hqt, hsound, -⟩ := program_keeps_its_pages twoProcs_boot
    stackLoader_inside hrun hp hst bss_low hexec (by decide) hstep hsafe
  exact ⟨_, _, q, qt, hstep, hq, hqt, hsound⟩

end Xv6Labs.Super
