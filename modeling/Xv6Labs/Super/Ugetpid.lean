import Xv6Labs.Super.Isolation

/-!
# `ugetpid`

The page of `usyscall` is there so that `ugetpid` needs no system call. It is mapped for
reading only, and it holds the id of the process however often other processes have come
and gone in between. The ids are those `allocpid` counts, in an `int`, so no two processes
share one before the counter has come round.
-/

namespace Xv6Labs.Super

open Xv6Labs.Lib

variable {kend trampoline forkret : Nat} {L : Loader} {m m' m₀ : Machine} {a : Act}
  {as : List Act} {c₀ s₀ : Nat → Nat} {held : List Nat} {y y' : Sys} {p p' q q' : Slot}
  {pt : PageTable} {k' : Kernel} {t u i j : Nat}

/-! ## Process ids -/

/-- `made` processes were made so far, the first one with the id `first`. A process has the
id of its serial number, cut down to an `int`. -/
structure Numbered (first : BitVec 32) (made : Nat) (serial : Nat → Nat) (y : Sys) : Prop where
  next : y.nextpid = first + BitVec.ofNat 32 made
  below : ∀ (i : Nat) (p : Slot), y.proc[i]? = some p → p.state ≠ .UNUSED → serial i < made
  pid : ∀ (i : Nat) (p : Slot), y.proc[i]? = some p → p.state ≠ .UNUSED →
    p.pid = first + BitVec.ofNat 32 (serial i)
  inj : ∀ (i j : Nat) (p q : Slot), y.proc[i]? = some p → y.proc[j]? = some q →
    p.state ≠ .UNUSED → q.state ≠ .UNUSED → serial i = serial j → i = j

variable {first : BitVec 32} {made : Nat} {serial : Nat → Nat}

/-- Ids differ until the counter has come round. -/
theorem Numbered.pid_inj (h : Numbered first made serial y) (hmade : made ≤ 2 ^ 32)
    (hp : y.proc[i]? = some p) (hq : y.proc[j]? = some q) (hst : p.state ≠ .UNUSED)
    (hst' : q.state ≠ .UNUSED) (heq : p.pid = q.pid) : i = j := by
  refine h.inj i j p q hp hq hst hst' ?_
  rw [h.pid i p hp hst, h.pid j q hq hst', BitVec.add_right_inj] at heq
  have hi := h.below i p hp hst
  have hj := h.below j q hq hst'
  have hnat := congrArg BitVec.toNat heq
  rw [BitVec.toNat_ofNat, BitVec.toNat_ofNat, Nat.mod_eq_of_lt (by omega),
    Nat.mod_eq_of_lt (by omega)] at hnat
  exact hnat

theorem Numbered.keep (h : Numbered first made serial y) (hp : y.proc[i]? = some p)
    (hpid : p'.state ≠ .UNUSED → p.state ≠ .UNUSED ∧ p'.pid = p.pid) :
    Numbered first made serial ⟨k', y.proc.set i p', y.nextpid⟩ := by
  have hlt := (List.getElem?_eq_some_iff.mp hp).1
  -- a process that is there now was there before, with the same id
  have hold : ∀ (j : Nat) (q : Slot), (y.proc.set i p')[j]? = some q → q.state ≠ .UNUSED →
      ∃ q₀, y.proc[j]? = some q₀ ∧ q₀.state ≠ .UNUSED ∧ q.pid = q₀.pid := by
    intro j q hq hst
    by_cases hj : j = i
    · subst hj
      obtain rfl := Option.some.inj ((List.getElem?_set_self hlt).symm.trans hq)
      exact ⟨p, hp, hpid hst⟩
    · exact ⟨q, (List.getElem?_set_ne (Ne.symm hj)).symm.trans hq, hst, rfl⟩
  refine ⟨h.next, fun j q hq hst => ?_, fun j q hq hst => ?_, fun j l q r hq hr hst hst' heq => ?_⟩
  · obtain ⟨q₀, hq₀, hst₀, -⟩ := hold j q hq hst
    exact h.below j q₀ hq₀ hst₀
  · obtain ⟨q₀, hq₀, hst₀, hsame⟩ := hold j q hq hst
    exact hsame.trans (h.pid j q₀ hq₀ hst₀)
  · obtain ⟨q₀, hq₀, hst₀, -⟩ := hold j q hq hst
    obtain ⟨r₀, hr₀, hst₀', -⟩ := hold l r hr hst'
    exact h.inj j l q₀ r₀ hq₀ hr₀ hst₀ hst₀' heq

theorem Numbered.spawn (h : Numbered first made serial y) (hp : y.proc[i]? = some p)
    (hpid : p'.state ≠ .UNUSED → p'.pid = y.nextpid) :
    Numbered first (made + 1) (Function.update serial i made)
      ⟨k', y.proc.set i p', y.nextpid + 1⟩ := by
  have hlt := (List.getElem?_eq_some_iff.mp hp).1
  have hother : ∀ (j : Nat) (q : Slot), j ≠ i → (y.proc.set i p')[j]? = some q →
      y.proc[j]? = some q := fun j q hj hq =>
    (List.getElem?_set_ne (Ne.symm hj)).symm.trans hq
  have hself : ∀ q : Slot, (y.proc.set i p')[i]? = some q → q = p' := fun q hq =>
    (Option.some.inj ((List.getElem?_set_self hlt).symm.trans hq)).symm
  refine ⟨?_, fun j q hq hst => ?_, fun j q hq hst => ?_, fun j l q r hq hr hst hst' heq => ?_⟩
  · show y.nextpid + 1 = _
    rw [h.next, BitVec.ofNat_add, ← BitVec.add_assoc]
    rfl
  · by_cases hj : j = i
    · rw [hj, Function.update_self]
      exact Nat.lt_succ_self made
    · rw [Function.update_of_ne hj]
      exact Nat.lt_succ_of_lt (h.below j q (hother j q hj hq) hst)
  · by_cases hj : j = i
    · subst hj
      obtain rfl := hself q hq
      rw [Function.update_self, hpid hst, h.next]
    · rw [Function.update_of_ne hj]
      exact h.pid j q (hother j q hj hq) hst
  · by_cases hj : j = i
    · by_cases hl : l = i
      · rw [hj, hl]
      · rw [hj, Function.update_self, Function.update_of_ne hl] at heq
        have := h.below l r (hother l r hl hr) hst'
        omega
    · by_cases hl : l = i
      · rw [hl, Function.update_self, Function.update_of_ne hj] at heq
        have := h.below j q (hother j q hj hq) hst
        omega
      · rw [Function.update_of_ne hj, Function.update_of_ne hl] at heq
        exact h.inj j l q r (hother j q hj hq) (hother l r hl hr) hst hst' heq

theorem Slot.Cleared.unused (h : p.Cleared) {P : Prop} (hst : p.state ≠ .UNUSED) : P :=
  absurd h.state hst

/-- The steps that take an id. -/
def Act.makes : Act → Bool
  | .allocproc => true
  | .fork _ => true
  | _ => false

/-- **One step** makes no process, or one with the next id. -/
theorem Numbered.step (hB : Boot kend m₀) (hI : L.Inside)
    (hn : ∃ serial, Numbered first made serial m.sys) (h : m₀.Ledger trampoline m)
    (hs : Machine.Step kend trampoline forkret L m a m') :
    (∃ serial, Numbered first made serial m'.sys) ∨
      a.makes = true ∧ ∃ serial, Numbered first (made + 1) serial m'.sys := by
  have hS := hB.stock
  obtain ⟨serial, hn⟩ := hn
  have hspawn : ∀ {y : Sys} {j : Nat} {q q' : Slot}, m.sys.proc[j]? = some q →
      y.proc = m.sys.proc.set j q' → y.nextpid = m.sys.nextpid + 1 →
      (q'.Cleared ∨ q'.pid = m.sys.nextpid) →
      ∃ serial, Numbered first (made + 1) serial y := by
    rintro ⟨k, proc, nextpid⟩ j q q' hq rfl rfl hpid
    refine ⟨_, hn.spawn hq (fun hst => ?_)⟩
    rcases hpid with hc | hpid
    · exact hc.unused hst
    · exact hpid
  cases hs with
  | allocproc hok =>
      obtain ⟨-, rfl⟩ | ⟨i, p, p', hp, -, hproc, hnext, -, -, ⟨-, hc⟩ | ⟨-, hpid, -⟩⟩ :=
        Super.Ledger.allocproc h hS hok
      · exact .inl ⟨serial, hn⟩
      · exact .inr ⟨rfl, hspawn hp hproc hnext (.inl hc)⟩
      · exact .inr ⟨rfl, hspawn hp hproc hnext (.inr hpid)⟩
  | growproc hp hrun hpt hint hpos hmem hmax hok =>
      refine .inl ⟨serial, hn.keep hp (fun _ => ⟨?_, rfl⟩)⟩
      rw [hrun]
      decide
  | fork hp hrun hok =>
      obtain ⟨-, rfl | ⟨j, q, q', hsp⟩⟩ := Super.Ledger.fork h hS hp hrun hok
      · exact .inl ⟨serial, hn⟩
      · exact .inr ⟨rfl, hspawn hsp.slot hsp.proc hsp.nextpid hsp.pid⟩
  | @exec i path elf argv p p' k ret hp hrun helf hok =>
      have hst : p.state ≠ .UNUSED := by
        rw [hrun]
        decide
      obtain ⟨pt, t, u, hL⟩ := Super.Ledger.process h hp hst
      obtain ⟨-, -, -, -, hpid⟩ := Super.Ledger.exec h hS hp hL hI helf m.sys.nextpid hok
      exact .inl ⟨serial, hn.keep hp (fun _ => ⟨hst, hpid⟩)⟩
  | freeproc hp hzombie hok =>
      obtain ⟨pt, t, u, hL⟩ := Super.Ledger.process h hp (by rw [hzombie]; decide)
      obtain ⟨hc, -⟩ := Super.Ledger.freeproc h hS hp hL m.sys.nextpid hok
      exact .inl ⟨serial, hn.keep hp (fun hst => hc.unused hst)⟩
  | state hp hold hnew => exact .inl ⟨serial, hn.keep hp (fun _ => ⟨hold, rfl⟩)⟩
  | store => exact .inl ⟨serial, hn.next, hn.below, hn.pid, hn.inj⟩
  | trapframe => exact .inl ⟨serial, hn.next, hn.below, hn.pid, hn.inj⟩
  | kalloc => exact .inl ⟨serial, hn.next, hn.below, hn.pid, hn.inj⟩
  | kfree => exact .inl ⟨serial, hn.next, hn.below, hn.pid, hn.inj⟩
  | kstore => exact .inl ⟨serial, hn.next, hn.below, hn.pid, hn.inj⟩

theorem Boot.numbered (hB : Boot kend m₀) :
    Numbered m₀.sys.nextpid 0 (fun _ => 0) m₀.sys :=
  ⟨by simp, fun _ p hp hst => (hB.cleared p (List.mem_of_getElem? hp)).unused hst,
    fun _ p hp hst => (hB.cleared p (List.mem_of_getElem? hp)).unused hst,
    fun _ _ p _ hp _ hst _ _ => (hB.cleared p (List.mem_of_getElem? hp)).unused hst⟩

/-! ## The page -/

theorem Process.usyscall_page {mem : Mem} (hL : Process trampoline mem p pt t u) :
    sv39 pt USYSCALL = some (0, UPAGES) ∧
      pt.ent 0 UPAGES = PA2PTE u { v := true, r := true, u := true } := by
  have hpage : vpn 0 USYSCALL = UPAGES := rfl
  have he := hL.fixed.usyscall
  have hv : (pt.ent 0 UPAGES).v = true := by
    rw [he]
    rfl
  have hnot : superAt pt (UPAGES / 512) = false := not_super_of_table (hL.tree.bot UPAGES hv).1
  refine ⟨?_, he⟩
  rw [hL.tree.sv39, hpage]
  unfold seen
  rw [hnot, hv]
  rfl

/-- **`ugetpid` finds the id of its process**, in every state that is reached. The program can
read the page and cannot write to it. No other process finds the same id, unless more than
`2 ^ 32` processes were made and `nextpid` has come round. -/
theorem ugetpid_finds_pid (hB : Boot kend m₀) (hI : L.Inside)
    (hr : Run (Machine.Step kend trampoline forkret L) m₀ as m)
    (hp : m.sys.proc[i]? = some p) (hst : p.state ≠ .UNUSED) :
    ∃ pt, p.pagetable = some pt ∧
      (∃ e, sv39 pt USYSCALL = some (0, UPAGES) ∧ pt.ent 0 UPAGES = e ∧
        e.toFlags = { v := true, r := true, u := true }) ∧
      (∀ l < 4, read m.sys.k.mem pt (USYSCALL + l) = some ((le32 p.pid).getD l 0)) ∧
      (as.countP Act.makes ≤ 2 ^ 32 →
        ∀ j q, m.sys.proc[j]? = some q → q.state ≠ .UNUSED → q.pid = p.pid → j = i) := by
  obtain ⟨made, hmade, h, serial, hn⟩ := hr.countP (c := Act.makes)
    (I := fun n s => m₀.Ledger trampoline s ∧
      ∃ serial, Numbered m₀.sys.nextpid n serial s.sys)
    (fun n s a s' hs hstep => (Numbered.step hB hI hs.2 hs.1 hstep).imp
      (fun hn => ⟨(hs.1.step hB hI hstep).1, hn⟩)
      (fun hn => ⟨hn.1, (hs.1.step hB hI hstep).1, hn.2⟩))
    ⟨hB.ledger trampoline, _, hB.numbered⟩
  obtain ⟨pt, t, u, hL⟩ := Super.Ledger.process h hp hst
  obtain ⟨hleaf, he⟩ := hL.usyscall_page
  refine ⟨pt, hL.pagetable, ⟨_, hleaf, rfl, by rw [he]; rfl⟩, fun l hl => ?_,
    fun hle j q hq hst' heq => hn.pid_inj (by omega) hq hp hst' hst heq⟩
  obtain ⟨-, hu, -⟩ := Super.Ledger.aligned h hB.stock hp hL
  have hsame : vpn 0 (USYSCALL + l) = vpn 0 USYSCALL := by
    simp only [vpn_zero, USYSCALL_eq]
    omega
  have hoff : (USYSCALL + l) % 2 ^ PXSHIFT 0 = l := by
    simp only [PXSHIFT, USYSCALL_eq]
    omega
  have hsv : sv39 pt (USYSCALL + l) = some (0, UPAGES) := by
    have hseen := hL.tree.sv39 USYSCALL
    rw [hleaf] at hseen
    obtain ⟨e, hs, heq⟩ := Option.map_eq_some_iff.mp hseen.symm
    simp only [Prod.mk.injEq] at heq
    rw [hL.tree.sv39, hsame, hs, Option.map_some, heq.1, hsame]
    rfl
  unfold read
  rw [hsv]
  simp only [he, hoff, PTE2PA_PA2PTE hu.aligned]
  rw [hL.pid l hl]

/-- The first process has the id 1. -/
theorem ugetpid_finds_pid_twoProcs : ∃ m p pt,
    Run (Machine.Step 0x80010000 0x80007000 0x80001000 stackLoader) twoProcs [.allocproc] m ∧
      m.sys.proc[0]? = some p ∧ p.pid = 1 ∧ p.pagetable = some pt ∧
      read m.sys.k.mem pt USYSCALL = some 1 := by
  have hcomp : (allocproc 0x80010000 0x80007000 0x80001000 twoProcs.sys).toOption.bind
      (fun o => o.1.proc[0]?.map (fun p => (p.state, p.pid))) = some (.USED, 1) := by
    decide +kernel
  obtain ⟨⟨y, r⟩, hok, hslot⟩ := ok_of_bind hcomp
  obtain ⟨p, hp, hfields⟩ := Option.map_eq_some_iff.mp hslot
  obtain ⟨hst, hpid⟩ := Prod.mk.inj hfields
  have hrun : Run (Machine.Step 0x80010000 0x80007000 0x80001000 stackLoader) twoProcs
      [.allocproc] { twoProcs with sys := y } := .cons (.allocproc hok) (.nil _)
  obtain ⟨pt, hpt, -, hread, -⟩ := ugetpid_finds_pid twoProcs_boot stackLoader_inside hrun hp
    (by rw [hst]; decide)
  refine ⟨_, p, pt, hrun, hp, hpid, hpt, ?_⟩
  rw [← Nat.add_zero USYSCALL, hread 0 (by decide), hpid]
  rfl

end Xv6Labs.Super
