import Xv6Labs.Lib.Count
import Xv6Labs.Lib.Run
import Mathlib.Algebra.Order.BigOperators.Group.Finset
import Mathlib.Data.Fintype.Basic

/-!
# The allocator on several CPUs

`kfree` takes `memrefc.lock` for the decrement, reads the count without a
lock, and takes `kmem.lock` for the push; `kalloc` takes `kmem.lock` for the
pop and `memrefc.lock` for the increment. Each critical section and the bare
read is one atomic step, and the CPUs interleave in any order.

Frames are page numbers. `refs` is the pool of live references: a call of
`kfree` takes one out of it, a finished `kalloc` and a `refcadd` by a holder
put one in. `pushed` is a ghost: how often the frame was pushed since its
count last dropped to 0.

Two CPUs that free a frame of count 2 can both decrement before either reads,
and then both push it. `NoRacingDrop` excludes exactly that, and with it every
interleaving is safe (`no_double_free_iff_no_racing_drop`).
-/

namespace Xv6Labs.Cow

open Xv6Labs.Lib

/-- Where a CPU stands inside `kfree` and `kalloc`. -/
inductive Pc where
  | idle
  /-- `kfree`, before `refcremove` -/
  | removing (f : Nat)
  /-- `kfree`, between `refcremove` and `refcget` -/
  | reading (f : Nat)
  /-- `kfree`, the count read was not positive, before the push -/
  | pushing (f : Nat)
  /-- `kalloc`, page popped, before `refcadd` -/
  | counting (f : Nat)
deriving DecidableEq

structure Smp (m : Nat) where
  freelist : List Nat
  count : Nat → Int
  refs : Nat → Nat
  pc : Fin m → Pc
  pushed : Nat → Nat

/-- After `kinit`: the frames `free`, nobody holds anything. -/
def Smp.boot (m : Nat) (free : List Nat) : Smp m :=
  ⟨free, fun _ => 0, fun _ => 0, fun _ => .idle, fun _ => 0⟩

inductive SmpAct where
  /-- a holder of `f` calls `kfree` -/
  | kfree (f : Nat)
  | refcremove
  | refcget
  | push
  /-- `kalloc` pops the free list -/
  | kalloc
  /-- `kalloc`'s own `refcadd`; the caller holds the page now -/
  | count
  /-- a holder of `f` calls `refcadd` -/
  | refcadd (f : Nat)
deriving DecidableEq

variable {m : Nat}

/-- One atomic step of CPU `c`; `none` when it is not at that point. -/
def Smp.exec (s : Smp m) (c : Fin m) : SmpAct → Option (Smp m)
  | .kfree f =>
      if s.pc c = .idle ∧ 0 < s.refs f then
        some { s with
          refs := Function.update s.refs f (s.refs f - 1)
          pc := Function.update s.pc c (.removing f) }
      else none
  | .refcremove =>
      match s.pc c with
      | .removing f =>
          some { s with
            count := Function.update s.count f (s.count f - 1)
            pc := Function.update s.pc c (.reading f)
            pushed := if s.count f - 1 = 0 then Function.update s.pushed f 0
              else s.pushed }
      | _ => none
  | .refcget =>
      match s.pc c with
      | .reading f =>
          some { s with
            pc := Function.update s.pc c
              (if s.count f > 0 then .idle else .pushing f) }
      | _ => none
  | .push =>
      match s.pc c with
      | .pushing f =>
          some { s with
            freelist := f :: s.freelist
            pc := Function.update s.pc c .idle
            pushed := Function.update s.pushed f (s.pushed f + 1) }
      | _ => none
  | .kalloc =>
      match s.pc c, s.freelist with
      | .idle, f :: rest =>
          some { s with
            freelist := rest
            pc := Function.update s.pc c (.counting f) }
      | _, _ => none
  | .count =>
      match s.pc c with
      | .counting f =>
          some { s with
            count := Function.update s.count f (s.count f + 1)
            refs := Function.update s.refs f (s.refs f + 1)
            pc := Function.update s.pc c .idle }
      | _ => none
  | .refcadd f =>
      if s.pc c = .idle ∧ 0 < s.refs f then
        some { s with
          count := Function.update s.count f (s.count f + 1)
          refs := Function.update s.refs f (s.refs f + 1) }
      else none

def SmpStep (s : Smp m) (l : Fin m × SmpAct) (t : Smp m) : Prop :=
  s.exec l.1 l.2 = some t

/-- What the allocator promises: a frame is pushed at most once for each time
its count drops to 0, is listed at most once, and is not free while a live
reference to it exists. -/
structure Smp.Safe (s : Smp m) : Prop where
  once : ∀ f, s.pushed f ≤ 1
  nodup : s.freelist.Nodup
  dead : ∀ f ∈ s.freelist, s.refs f = 0

/-- No `refcremove` takes the last count while another CPU is between its own
`refcremove` and `refcget` on the same frame. -/
def NoRacingDrop (s : Smp m) (l : Fin m × SmpAct) : Prop :=
  l.2 = .refcremove → ∀ f, s.pc l.1 = .removing f → s.count f = 1 →
    ∀ d, s.pc d ≠ .reading f

theorem noRacingDrop_of {s : Smp m} {c : Fin m} {f : Nat} (hpc : s.pc c = .removing f)
    (h : s.count f = 1 → ∀ d, s.pc d ≠ .reading f) : NoRacingDrop s (c, .refcremove) := by
  intro _ g hg
  rw [hpc] at hg
  cases hg
  exact h

/-! ## Counting CPUs -/

def cpus (pc : Fin m → Pc) (x : Pc) : Nat := ∑ c, if pc c = x then 1 else 0

theorem cpus_update (pc : Fin m → Pc) (c : Fin m) (q x : Pc) :
    cpus (Function.update pc c q) x + (if pc c = x then 1 else 0) =
      cpus pc x + if q = x then 1 else 0 :=
  sum_update_add (fun q => if q = x then 1 else 0) pc c q

theorem cpus_eq_zero {pc : Fin m → Pc} {x : Pc} (h : ∀ c, pc c ≠ x) :
    cpus pc x = 0 := by
  unfold cpus
  exact Finset.sum_eq_zero (fun c _ => if_neg (h c))

/-! ## The invariant of one frame -/

/-- All that is ever said about one frame, in numbers. -/
structure FrameInv (refs removing reading pushing counting free pushed : Nat)
    (count : Int) : Prop where
  exact : count = refs + removing
  busy : 0 < count → pushing = 0 ∧ counting = 0 ∧ free = 0
  /-- a frame of count 0 is in one place -/
  token : count = 0 → reading + pushing + counting + free ≤ 1
  once : pushed ≤ 1
  fresh : 0 < pushing → pushed = 0
  dropped : count = 0 → 0 < reading → pushed = 0

def Smp.FrameInv (s : Smp m) (f : Nat) : Prop :=
  Cow.FrameInv (s.refs f) (cpus s.pc (.removing f)) (cpus s.pc (.reading f))
    (cpus s.pc (.pushing f)) (cpus s.pc (.counting f)) (s.freelist.count f)
    (s.pushed f) (s.count f)

def SmpInv (s : Smp m) : Prop := ∀ f, s.FrameInv f

theorem SmpInv.boot {free : List Nat} (h : free.Nodup) :
    SmpInv (Smp.boot m free) := by
  intro f
  have hz : ∀ x, x ≠ .idle → cpus (Smp.boot m free).pc x = 0 := fun x hx =>
    cpus_eq_zero (fun _ hh => hx hh.symm)
  have hle := List.nodup_iff_count_le_one.mp h f
  unfold Smp.FrameInv
  rw [hz _ (by simp), hz _ (by simp), hz _ (by simp), hz _ (by simp)]
  refine ⟨rfl, ?_, ?_, Nat.zero_le _, fun _ => rfl, fun _ _ => rfl⟩
  · intro hpos
    exact absurd hpos (by simp [Smp.boot])
  · intro _
    simpa [Smp.boot] using hle

theorem SmpInv.safe {s : Smp m} (h : SmpInv s) : s.Safe := by
  have hcount : ∀ f ∈ s.freelist, s.count f = 0 := by
    intro f hf
    have hpos := List.count_pos_iff.mpr hf
    have hex := (h f).exact
    by_contra hne
    have := ((h f).busy (by omega)).2.2
    omega
  refine ⟨fun f => (h f).once, List.nodup_iff_count_le_one.mpr (fun f => ?_),
    fun f hf => ?_⟩
  · by_cases hf : f ∈ s.freelist
    · have := (h f).token (hcount f hf)
      omega
    · rw [List.count_eq_zero_of_not_mem hf]
      omega
  · have := (h f).exact
    rw [hcount f hf] at this
    omega

/-! ## One step -/

variable {s t : Smp m} {c : Fin m}

theorem cpus_move {x : Pc} (hx : s.pc c = x) (q y : Pc) :
    cpus (Function.update s.pc c q) y + (if x = y then 1 else 0) =
      cpus s.pc y + if q = y then 1 else 0 := by
  rw [← hx]
  exact cpus_update s.pc c q y

def Pc.frame : Pc → Option Nat
  | .idle => none
  | .removing f | .reading f | .pushing f | .counting f => some f

theorem Smp.FrameInv.other {x q : Pc} {f : Nat} (h : s.FrameInv f)
    (hx : s.pc c = x) (hq : t.pc = Function.update s.pc c q)
    (hxf : x.frame ≠ some f) (hqf : q.frame ≠ some f)
    (hrefs : t.refs f = s.refs f) (hcount : t.count f = s.count f)
    (hfree : t.freelist.count f = s.freelist.count f)
    (hpushed : t.pushed f = s.pushed f) : t.FrameInv f := by
  have hsame : ∀ y, y.frame = some f → cpus t.pc y = cpus s.pc y := by
    intro y hy
    have := cpus_move hx q y
    rw [if_neg (by rintro rfl; exact hxf hy), if_neg (by rintro rfl; exact hqf hy)]
      at this
    rw [hq]
    omega
  unfold Smp.FrameInv
  rw [hsame _ rfl, hsame _ rfl, hsame _ rfl, hsame _ rfl, hrefs, hcount, hfree,
    hpushed]
  exact h

theorem SmpInv.kfree {g : Nat} (h : SmpInv s)
    (hs : s.exec c (.kfree g) = some t) : SmpInv t := by
  simp only [Smp.exec] at hs
  split at hs
  swap
  · cases hs
  rename_i hgate
  obtain rfl := Option.some.inj hs
  intro f
  by_cases hfg : f = g
  · subst hfg
    obtain ⟨hex, hbusy, htok, honce, hfresh, hdrop⟩ := h f
    have h₁ := cpus_move hgate.1 (.removing f) (.removing f)
    have h₂ := cpus_move hgate.1 (.removing f) (.reading f)
    have h₃ := cpus_move hgate.1 (.removing f) (.pushing f)
    have h₄ := cpus_move hgate.1 (.removing f) (.counting f)
    simp only [reduceCtorEq, if_false, if_true, Nat.add_zero] at h₁ h₂ h₃ h₄
    unfold Smp.FrameInv
    simp only [h₁, h₂, h₃, h₄, Function.update_self]
    refine ⟨?_, hbusy, htok, honce, hfresh, hdrop⟩
    have := hgate.2
    omega
  · refine (h f).other hgate.1 rfl (by simp [Pc.frame]) ?_ ?_ rfl rfl rfl
    · simpa [Pc.frame] using fun hh => hfg hh.symm
    · exact Function.update_of_ne hfg ..

/-- The only step that can lose the token: it must not be a racing drop. -/
theorem SmpInv.refcremove (h : SmpInv s) (hq : NoRacingDrop s (c, .refcremove))
    (hs : s.exec c .refcremove = some t) : SmpInv t := by
  simp only [Smp.exec] at hs
  split at hs
  swap
  · cases hs
  rename_i g hpc
  obtain rfl := Option.some.inj hs
  intro f
  by_cases hfg : f = g
  · subst hfg
    obtain ⟨hex, hbusy, htok, honce, hfresh, hdrop⟩ := h f
    have h₁ := cpus_move hpc (.reading f) (.removing f)
    have h₂ := cpus_move hpc (.reading f) (.reading f)
    have h₃ := cpus_move hpc (.reading f) (.pushing f)
    have h₄ := cpus_move hpc (.reading f) (.counting f)
    simp only [reduceCtorEq, if_false, if_true, Nat.add_zero] at h₁ h₂ h₃ h₄
    -- the count was positive, so the frame was in nobody's hands
    have hpos : 0 < s.count f := by omega
    obtain ⟨hp, hc, hf⟩ := hbusy hpos
    have hlast : s.count f - 1 = 0 → cpus s.pc (.reading f) = 0 := fun hz =>
      cpus_eq_zero (hq rfl f hpc (by omega))
    have hpushed : (if s.count f - 1 = 0 then Function.update s.pushed f 0
        else s.pushed) f = if s.count f - 1 = 0 then 0 else s.pushed f := by
      split <;> simp
    unfold Smp.FrameInv
    simp only [h₂, h₃, h₄, hp, hc, hf, hpushed, Function.update_self]
    refine ⟨by omega, fun _ => ⟨rfl, rfl, rfl⟩, fun hz => ?_, ?_,
      fun hh => absurd hh (Nat.lt_irrefl 0), fun hz _ => if_pos hz⟩
    · rw [hlast hz]
    · split
      · omega
      · exact honce
  · refine (h f).other hpc rfl ?_ ?_ rfl ?_ rfl ?_
    · simpa [Pc.frame] using fun hh => hfg hh.symm
    · simpa [Pc.frame] using fun hh => hfg hh.symm
    · exact Function.update_of_ne hfg ..
    · simp only
      split
      · exact Function.update_of_ne hfg ..
      · rfl

theorem SmpInv.refcget (h : SmpInv s) (hs : s.exec c .refcget = some t) :
    SmpInv t := by
  simp only [Smp.exec] at hs
  split at hs
  swap
  · cases hs
  rename_i g hpc
  obtain rfl := Option.some.inj hs
  intro f
  by_cases hfg : f = g
  · subst hfg
    obtain ⟨hex, hbusy, htok, honce, hfresh, hdrop⟩ := h f
    by_cases hpos : s.count f > 0
    · have h₁ := cpus_move hpc .idle (.removing f)
      have h₂ := cpus_move hpc .idle (.reading f)
      have h₃ := cpus_move hpc .idle (.pushing f)
      have h₄ := cpus_move hpc .idle (.counting f)
      simp only [reduceCtorEq, if_false, if_true, Nat.add_zero] at h₁ h₂ h₃ h₄
      unfold Smp.FrameInv
      simp only [if_pos hpos, h₁, h₃, h₄]
      exact ⟨hex, hbusy, by omega, honce, hfresh, by omega⟩
    · have h₁ := cpus_move hpc (.pushing f) (.removing f)
      have h₂ := cpus_move hpc (.pushing f) (.reading f)
      have h₃ := cpus_move hpc (.pushing f) (.pushing f)
      have h₄ := cpus_move hpc (.pushing f) (.counting f)
      simp only [reduceCtorEq, if_false, if_true, Nat.add_zero] at h₁ h₂ h₃ h₄
      -- this reader holds the token of a frame of count 0
      have hz : s.count f = 0 := by omega
      have hp := hdrop hz (by omega)
      have ht := htok hz
      unfold Smp.FrameInv
      simp only [if_neg hpos, h₁, h₃, h₄]
      exact ⟨hex, by omega, by omega, honce, fun _ => hp, fun _ _ => hp⟩
  · refine (h f).other hpc rfl ?_ ?_ rfl rfl rfl rfl
    · simpa [Pc.frame] using fun hh => hfg hh.symm
    · split
      · simp [Pc.frame]
      · simpa [Pc.frame] using fun hh => hfg hh.symm

theorem SmpInv.push (h : SmpInv s) (hs : s.exec c .push = some t) :
    SmpInv t := by
  simp only [Smp.exec] at hs
  split at hs
  swap
  · cases hs
  rename_i g hpc
  obtain rfl := Option.some.inj hs
  intro f
  by_cases hfg : f = g
  · subst hfg
    obtain ⟨hex, hbusy, htok, honce, hfresh, hdrop⟩ := h f
    have h₁ := cpus_move hpc .idle (.removing f)
    have h₂ := cpus_move hpc .idle (.reading f)
    have h₃ := cpus_move hpc .idle (.pushing f)
    have h₄ := cpus_move hpc .idle (.counting f)
    simp only [reduceCtorEq, if_false, if_true, Nat.add_zero] at h₁ h₂ h₃ h₄
    have hp := hfresh (by omega)
    -- a pusher's frame has count 0 and is nowhere else
    have hz : s.count f = 0 := by
      by_contra hne
      have := (hbusy (by omega)).1
      omega
    have ht := htok hz
    unfold Smp.FrameInv
    simp only [h₁, h₂, h₄, List.count_cons_self, Function.update_self, hp]
    exact ⟨hex, by omega, by omega, by omega, by omega, by omega⟩
  · refine (h f).other hpc rfl ?_ (by simp [Pc.frame]) rfl rfl ?_ ?_
    · simpa [Pc.frame] using fun hh => hfg hh.symm
    · exact List.count_cons_of_ne (fun hh => hfg hh.symm)
    · exact Function.update_of_ne hfg ..

theorem SmpInv.kalloc (h : SmpInv s) (hs : s.exec c .kalloc = some t) :
    SmpInv t := by
  simp only [Smp.exec] at hs
  split at hs
  swap
  · cases hs
  rename_i g rest hpc hlist
  obtain rfl := Option.some.inj hs
  intro f
  by_cases hfg : f = g
  · subst hfg
    obtain ⟨hex, hbusy, htok, honce, hfresh, hdrop⟩ := h f
    have h₁ := cpus_move hpc (.counting f) (.removing f)
    have h₂ := cpus_move hpc (.counting f) (.reading f)
    have h₃ := cpus_move hpc (.counting f) (.pushing f)
    have h₄ := cpus_move hpc (.counting f) (.counting f)
    simp only [reduceCtorEq, if_false, if_true, Nat.add_zero] at h₁ h₂ h₃ h₄
    rw [hlist, List.count_cons_self] at hbusy htok
    unfold Smp.FrameInv
    simp only [h₁, h₂, h₃, h₄]
    exact ⟨hex, by omega, by omega, honce, hfresh, hdrop⟩
  · refine (h f).other hpc rfl (by simp [Pc.frame]) ?_ rfl rfl ?_ rfl
    · simpa [Pc.frame] using fun hh => hfg hh.symm
    · rw [hlist]
      exact (List.count_cons_of_ne (fun hh => hfg hh.symm)).symm

theorem SmpInv.count (h : SmpInv s) (hs : s.exec c .count = some t) :
    SmpInv t := by
  simp only [Smp.exec] at hs
  split at hs
  swap
  · cases hs
  rename_i g hpc
  obtain rfl := Option.some.inj hs
  intro f
  by_cases hfg : f = g
  · subst hfg
    obtain ⟨hex, hbusy, htok, honce, hfresh, hdrop⟩ := h f
    have h₁ := cpus_move hpc .idle (.removing f)
    have h₂ := cpus_move hpc .idle (.reading f)
    have h₃ := cpus_move hpc .idle (.pushing f)
    have h₄ := cpus_move hpc .idle (.counting f)
    simp only [reduceCtorEq, if_false, if_true, Nat.add_zero] at h₁ h₂ h₃ h₄
    have hz : s.count f = 0 := by
      by_contra hne
      have := (hbusy (by omega)).2.1
      omega
    have ht := htok hz
    unfold Smp.FrameInv
    simp only [h₁, h₂, h₃, Function.update_self]
    exact ⟨by omega, by omega, by omega, honce, hfresh, by omega⟩
  · refine (h f).other hpc rfl ?_ (by simp [Pc.frame]) ?_ ?_ rfl rfl
    · simpa [Pc.frame] using fun hh => hfg hh.symm
    · exact Function.update_of_ne hfg ..
    · exact Function.update_of_ne hfg ..

theorem SmpInv.refcadd {g : Nat} (h : SmpInv s)
    (hs : s.exec c (.refcadd g) = some t) : SmpInv t := by
  simp only [Smp.exec] at hs
  split at hs
  swap
  · cases hs
  rename_i hgate
  obtain rfl := Option.some.inj hs
  intro f
  obtain ⟨hex, hbusy, htok, honce, hfresh, hdrop⟩ := h f
  by_cases hfg : f = g
  · subst hfg
    have := hgate.2
    unfold Smp.FrameInv
    simp only [Function.update_self]
    exact ⟨by omega, fun _ => hbusy (by omega), by omega, honce, hfresh, by omega⟩
  · unfold Smp.FrameInv
    simp only [Function.update_of_ne hfg]
    exact ⟨hex, hbusy, htok, honce, hfresh, hdrop⟩

/-- **Every step that is no racing drop keeps the invariant.** -/
theorem SmpInv.step {l : Fin m × SmpAct} (h : SmpInv s) (hq : NoRacingDrop s l)
    (hs : SmpStep s l t) : SmpInv t := by
  obtain ⟨c, a⟩ := l
  cases a with
  | kfree f => exact h.kfree hs
  | refcremove => exact h.refcremove hq hs
  | refcget => exact h.refcget hs
  | push => exact h.push hs
  | kalloc => exact h.kalloc hs
  | count => exact h.count hs
  | refcadd f => exact h.refcadd hs

/-! ## Whole runs -/

/-- **A racing drop can always be driven to a double free**: both CPUs read the
count 0 and both push the frame. -/
theorem racing_drop_double_frees {l : Fin m × SmpAct} (hs : SmpStep s l t)
    (hrace : ¬ NoRacingDrop s l) : ∃ ls u, Run SmpStep t ls u ∧ ¬ u.Safe := by
  obtain ⟨c, a⟩ := l
  simp only [NoRacingDrop, not_forall, not_not] at hrace
  obtain ⟨rfl, f, hc, hone, d, hd⟩ := hrace
  have hdc : d ≠ c := by
    rintro rfl
    rw [hc] at hd
    cases hd
  have ht : t = { s with
      count := Function.update s.count f 0
      pc := Function.update s.pc c (.reading f)
      pushed := Function.update s.pushed f 0 } := by
    simp only [SmpStep, Smp.exec, hc, hone] at hs
    simpa using hs.symm
  subst ht
  refine ⟨[(c, .refcget), (d, .refcget), (c, .push), (d, .push)],
    { s with
      freelist := f :: f :: s.freelist
      count := Function.update s.count f 0
      pc := Function.update (Function.update s.pc c .idle) d .idle
      pushed := Function.update s.pushed f 2 }, ?_, ?_⟩
  · refine .cons (t := { s with
      count := Function.update s.count f 0
      pc := Function.update s.pc c (.pushing f)
      pushed := Function.update s.pushed f 0 }) ?_ (.cons (t := { s with
      count := Function.update s.count f 0
      pc := Function.update (Function.update s.pc c (.pushing f)) d (.pushing f)
      pushed := Function.update s.pushed f 0 }) ?_ (.cons (t := { s with
      freelist := f :: s.freelist
      count := Function.update s.count f 0
      pc := Function.update (Function.update s.pc c .idle) d (.pushing f)
      pushed := Function.update s.pushed f 1 }) ?_ (.cons ?_ (.nil _))))
    · simp [SmpStep, Smp.exec]
    · simp [SmpStep, Smp.exec, hdc, hd]
    · simp [SmpStep, Smp.exec, hdc.symm, Function.update_comm hdc]
    · simp [SmpStep, Smp.exec]
  · intro hsafe
    exact absurd hsafe.nodup (by simp)

/-- **No double free without a racing drop, and only then.** From `kinit` on,
in every interleaving of any number of CPUs in which no `refcremove` is a
racing drop, every state is safe; and from the state after a racing drop a
double free is always reachable. -/
theorem no_double_free_iff_no_racing_drop {free : List Nat} (hfree : free.Nodup) :
    (∀ ls : List (Fin m × SmpAct), Each SmpStep NoRacingDrop (Smp.boot m free) ls →
      Always SmpStep Smp.Safe (Smp.boot m free) ls) ∧
    (∀ (s : Smp m) l t, SmpStep s l t → ¬ NoRacingDrop s l →
      ∃ ls u, Run SmpStep t ls u ∧ ¬ u.Safe) := by
  refine ⟨fun ls hls => ?_, fun s l t hs hrace => racing_drop_double_frees hs hrace⟩
  have hinv : Always SmpStep SmpInv (Smp.boot m free) ls :=
    always_of_each (fun s l t h hq hs => h.step hq hs) (SmpInv.boot hfree) hls
  exact hinv.imp (fun s h => h.safe)

/-- Two CPUs are inside `kfree` of a frame of count 2 at once. The first one reads 1 and
is done before the second drops the count to 0, reads 0 and pushes the frame. -/
theorem no_double_free_two_kfrees :
    let ls : List (Fin 2 × SmpAct) :=
      [(0, .kalloc), (0, .count), (0, .refcadd 5), (0, .kfree 5), (1, .kfree 5),
        (0, .refcremove), (0, .refcget), (1, .refcremove), (1, .refcget), (1, .push)]
    [5].Nodup ∧ Always SmpStep Smp.Safe (Smp.boot 2 [5]) ls ∧
      ∃ u, Run SmpStep (Smp.boot 2 [5]) ls u ∧ u.freelist = [5] ∧ u.pushed 5 = 1 ∧
        u.count 5 = 0 ∧ u.refs 5 = 0 ∧ ∀ c, u.pc c = .idle := by
  refine ⟨by decide, (no_double_free_iff_no_racing_drop (by decide)).1 _ ?_, ?_⟩
  · refine ⟨by simp [NoRacingDrop], fun t h => ?_⟩
    obtain rfl := Option.some.inj h
    refine ⟨by simp [NoRacingDrop], fun t h => ?_⟩
    obtain rfl := Option.some.inj h
    refine ⟨by simp [NoRacingDrop], fun t h => ?_⟩
    obtain rfl := Option.some.inj h
    refine ⟨by simp [NoRacingDrop], fun t h => ?_⟩
    obtain rfl := Option.some.inj h
    refine ⟨by simp [NoRacingDrop], fun t h => ?_⟩
    obtain rfl := Option.some.inj h
    -- the count goes from 2 to 1
    refine ⟨noRacingDrop_of rfl (by decide), fun t h => ?_⟩
    obtain rfl := Option.some.inj h
    refine ⟨by simp [NoRacingDrop], fun t h => ?_⟩
    obtain rfl := Option.some.inj h
    -- the last count, when CPU 0 has read
    refine ⟨noRacingDrop_of rfl (by decide), fun t h => ?_⟩
    obtain rfl := Option.some.inj h
    refine ⟨by simp [NoRacingDrop], fun t h => ?_⟩
    obtain rfl := Option.some.inj h
    exact ⟨by simp [NoRacingDrop], fun _ _ => trivial⟩
  · exact ⟨_, .cons rfl (.cons rfl (.cons rfl (.cons rfl (.cons rfl (.cons rfl (.cons rfl
      (.cons rfl (.cons rfl (.cons rfl (.nil _)))))))))), rfl, rfl, rfl, rfl, by decide⟩

/-- Two CPUs give up the two references to frame 5: both decrement, both read
0, both push. -/
theorem double_free_of_count_two :
    ¬ Always SmpStep Smp.Safe (Smp.boot 2 [5])
      [(0, .kalloc), (0, .count), (0, .refcadd 5), (0, .kfree 5), (1, .kfree 5),
        (0, .refcremove), (1, .refcremove), (0, .refcget), (1, .refcget),
        (0, .push), (1, .push)] := by
  intro h
  have hsafe := h.last (.cons rfl (.cons rfl (.cons rfl (.cons rfl (.cons rfl
    (.cons rfl (.cons rfl (.cons rfl (.cons rfl (.cons rfl (.cons rfl
      (.nil _))))))))))))
  exact absurd hsafe.nodup (by decide)

end Xv6Labs.Cow
