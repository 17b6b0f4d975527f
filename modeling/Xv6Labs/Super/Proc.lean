import Xv6Labs.Super.Release

/-!
# Process slots

`allocproc` and `freeproc` of the superpage lab over `proc_pagetable`. Memory may run
out at any of the five pages a process takes: trapframe, usyscall page, root, level-1
and level-0 table. The last two calls of `mappages` in `proc_pagetable` reach the
level-0 table that the first one made, so their error branches never run.
-/

namespace Xv6Labs.Super

open Xv6Labs.Lib

/-! ## The code -/

inductive ProcState where
  | UNUSED
  | USED
  | SLEEPING
  | RUNNABLE
  | RUNNING
  | ZOMBIE
deriving DecidableEq, Repr

/-- `struct context`; `saved` holds `s0` to `s11`. -/
structure Context where
  ra : Nat := 0
  sp : Nat := 0
  saved : Nat → Nat := fun _ => 0

/-- The fields of `struct proc` that `allocproc` and `freeproc` use, `none` for the
null pointer. -/
structure Slot where
  state : ProcState
  chan : Nat
  killed : Int
  xstate : Int
  pid : BitVec 32
  parent : Nat
  kstack : Nat
  sz : Nat
  pagetable : Option PageTable
  trapframe : Option Nat
  context : Context
  name : List UInt8
  usyscall : Option Nat
  next : Int

/-- The process table and what it shares with the rest of the kernel. -/
structure Sys where
  k : Kernel
  proc : List Slot
  nextpid : BitVec 32

def freeproc (kend : Nat) (k : Kernel) (p : Slot) : Except String (Kernel × Slot) :=
  match match p.trapframe with
    | some pa => kfree kend k pa
    | none => .ok k with
  | .error e => .error e
  | .ok k =>
      match match p.usyscall with
        | some pa => kfree kend k pa
        | none => .ok k with
      | .error e => .error e
      | .ok k =>
          match match p.pagetable with
            | some pt => proc_freepagetable kend k pt p.sz
            | none => .ok k with
          | .error e => .error e
          | .ok k => .ok (k, { p with
              trapframe := none
              usyscall := none
              pagetable := none
              sz := 0
              pid := 0
              parent := 0
              name := p.name.set 0 0
              chan := 0
              killed := 0
              xstate := 0
              state := .UNUSED
              next := 0 })

/-- The four bytes of an `int`, the lowest first. -/
def le32 (x : BitVec 32) : List UInt8 :=
  (List.range 4).map (fun i => UInt8.ofNat (x.toNat / 256 ^ i % 256))

/-- `allocproc` from the label `found` on, for the slot `p`; the last component says
whether it succeeded. -/
def allocprocFound (kend trampoline forkret : Nat) (k : Kernel) (p : Slot) (pid : BitVec 32) :
    Except String (Kernel × Slot × Bool) :=
  let p := { p with pid := pid, state := .USED }
  match kalloc k with
  | (none, k) =>
      match freeproc kend k { p with trapframe := none } with
      | .error e => .error e
      | .ok (k, p) => .ok (k, p, false)
  | (some trapframe, k) =>
      let p := { p with trapframe := some trapframe }
      match kalloc k with
      | (none, k) =>
          match freeproc kend k { p with usyscall := none } with
          | .error e => .error e
          | .ok (k, p) => .ok (k, p, false)
      | (some usyscall, k) =>
          let p := { p with usyscall := some usyscall }
          let k := { k with mem := k.mem.store usyscall (le32 p.pid) }
          match proc_pagetable kend k trampoline trapframe usyscall with
          | .error e => .error e
          | .ok (k, none) =>
              match freeproc kend k { p with pagetable := none } with
              | .error e => .error e
              | .ok (k, p) => .ok (k, p, false)
          | .ok (k, some pt) => .ok (k, { p with
              pagetable := some pt
              context := { ra := forkret, sp := p.kstack + PGSIZE } }, true)

/-- `allocproc` takes the first `UNUSED` slot; stock `allocpid` counts up, and a pid is an
`int`. -/
def allocproc (kend trampoline forkret : Nat) (s : Sys) :
    Except String (Sys × Option Nat) :=
  match s.proc.findIdx? (fun p => p.state = .UNUSED) with
  | none => .ok (s, none)
  | some i =>
      match s.proc[i]? with
      | none => .ok (s, none)
      | some p =>
          match allocprocFound kend trampoline forkret s.k p s.nextpid with
          | .error e => .error e
          | .ok (k, p, ok) =>
              .ok (⟨k, s.proc.set i p, s.nextpid + 1⟩, if ok then some i else none)

/-! ## Giving pages back -/

/-- `k'` has the pages `fs` on top of the small free list of `k`, and the same large
one. -/
structure Gives (k k' : Kernel) (fs : List Nat) : Prop where
  freelist : k'.freelist = fs ++ k.freelist
  superfreelist : k'.superfreelist = k.superfreelist

variable {kend : Nat} {k k' k₁ : Kernel} {pt : PageTable} {fs fs' : List Nat}

theorem Gives.refl (k : Kernel) : Gives k k [] := ⟨rfl, rfl⟩

theorem Gives.trans (h : Gives k k₁ fs) (h' : Gives k₁ k' fs') : Gives k k' (fs' ++ fs) := by
  constructor
  · rw [h'.freelist, h.freelist, List.append_assoc]
  · rw [h'.superfreelist, h.superfreelist]

theorem KallocFrame.gives {f : Nat} (h : KallocFrame kend f) (k : Kernel) :
    ∃ k', Super.kfree kend k f = .ok k' ∧ Gives k k' [f] :=
  ⟨_, h.kfree k, rfl, rfl⟩

theorem foldlM_skip {f : Kernel → Nat → Except String Kernel} {l : List Nat}
    (h : ∀ k, ∀ i ∈ l, f k i = .ok k) (k : Kernel) : l.foldlM f k = .ok k := by
  induction l with
  | nil => rfl
  | cons i l ih =>
      rw [List.foldlM_cons, h k i (List.mem_cons_self ..)]
      exact ih (fun k j hj => h k j (List.mem_cons_of_mem _ hj))

theorem foldlM_only {f : Kernel → Nat → Except String Kernel} {l : List Nat} {a : Nat}
    (hnd : l.Nodup) (ha : a ∈ l) (h : ∀ k, ∀ i ∈ l, i ≠ a → f k i = .ok k) (k : Kernel) :
    l.foldlM f k = f k a := by
  induction l with
  | nil => cases ha
  | cons i l ih =>
      rw [List.nodup_cons] at hnd
      obtain ⟨hi, hl⟩ := hnd
      rw [List.foldlM_cons]
      by_cases hia : i = a
      · subst hia
        have hrest : ∀ k, l.foldlM f k = .ok k := foldlM_skip (fun k j hj =>
          h k j (List.mem_cons_of_mem _ hj) (fun hji => hi (hji ▸ hj)))
        rw [funext hrest]
        rcases f k i with e | k₁ <;> rfl
      · rw [h k i (List.mem_cons_self ..) hia]
        exact ih hl ((List.mem_cons.mp ha).resolve_left (Ne.symm hia))
          (fun k j hj => h k j (List.mem_cons_of_mem _ hj))

/-- **`freewalk` of a table without valid entries** frees its page. -/
theorem freewalk_clear {level path page : Nat} (hpage : KallocFrame kend page)
    (hclear : ∀ i, i < 512 → (pt.ent level (path * 512 + i)).v = false) (k : Kernel) :
    ∃ k', freewalk kend pt level path page k = .ok k' ∧ Gives k k' [page] := by
  obtain ⟨k', hfree, hgives⟩ := hpage.gives k
  refine ⟨k', ?_, hgives⟩
  cases level with
  | zero =>
      unfold freewalk forEntries
      rw [foldlM_skip (fun k i hi => by
        rw [hclear i (List.mem_range.mp hi), if_neg Bool.false_ne_true])]
      exact hfree
  | succ level =>
      unfold freewalk forEntries
      rw [foldlM_skip (fun k i hi => by
        simp only [hclear i (List.mem_range.mp hi), Bool.false_and, Bool.false_eq_true,
          if_false])]
      exact hfree

/-- **`freewalk` of a table with one valid entry**, a pointer: the table below, then
the page. -/
theorem freewalk_only {level path page a : Nat} (hpage : KallocFrame kend page)
    (ha : a < 512) (hv : (pt.ent (level + 1) (path * 512 + a)).v = true)
    (htable : (pt.ent (level + 1) (path * 512 + a)).leaf = false)
    (hother : ∀ i, i < 512 → i ≠ a → (pt.ent (level + 1) (path * 512 + i)).v = false)
    (hbelow : ∃ k₁, freewalk kend pt level (path * 512 + a)
      (PTE2PA (pt.ent (level + 1) (path * 512 + a))) k = .ok k₁ ∧ Gives k k₁ fs) :
    ∃ k', freewalk kend pt (level + 1) path page k = .ok k' ∧
      Gives k k' (page :: fs) := by
  obtain ⟨k₁, hwalk, hgives⟩ := hbelow
  obtain ⟨k', hfree, hgives'⟩ := hpage.gives k₁
  refine ⟨k', ?_, hgives.trans hgives'⟩
  unfold freewalk forEntries
  rw [foldlM_only List.nodup_range (List.mem_range.mpr ha) (fun k i hi hne => by
    simp only [hother i (List.mem_range.mp hi) hne, Bool.false_and, Bool.false_eq_true,
      if_false])]
  simp only [hv, htable, Bool.not_false, Bool.and_self, if_true, hwalk]
  exact hfree

/-! ## The tables of a new process -/

/-- The page table of a process without memory: one level-1 and one level-0 table, on
the way to `TRAMPOLINE`. -/
structure Spine (pt : PageTable) (root l1 l0 : Nat) : Prop where
  tables : pt.tables = [l0, l1, root]
  top : pt.ent 2 255 = PA2PTE l1 { v := true }
  top_only : ∀ i, i ≠ 255 → (pt.ent 2 i).v = false
  mid : pt.ent 1 131071 = PA2PTE l0 { v := true }
  mid_only : ∀ j, j ≠ 131071 → (pt.ent 1 j).v = false

variable {root l1 l0 q : Nat}

theorem Spine.set (h : Spine pt root l1 l0) (q : Nat) (e : Pte) :
    Spine (pt.set 0 q e) root l1 l0 := by
  have h₁ : ∀ j, (pt.set 0 q e).ent 1 j = pt.ent 1 j := fun j => by simp
  have h₂ : ∀ i, (pt.set 0 q e).ent 2 i = pt.ent 2 i := fun i => by simp
  constructor
  · exact h.tables
  · rw [h₂]
    exact h.top
  · intro i hi
    rw [h₂]
    exact h.top_only i hi
  · rw [h₁]
    exact h.mid
  · intro j hj
    rw [h₁]
    exact h.mid_only j hj

theorem Spine.region (h : Spine pt root l1 l0) : Region pt 255 := by
  constructor
  · decide
  · rw [h.top]
    rfl
  · rw [h.top]
    rfl
  · rw [h.top]
    rfl

theorem Spine.smallAt (h : Spine pt root l1 l0) (hq : q / 512 = 131071)
    (hv : (pt.ent 0 q).v = true) (hs : (pt.ent 0 q).s = false)
    (hl : (pt.ent 0 q).leaf = true) : SmallAt pt q := by
  constructor
  · rw [hq]
    exact h.region
  · rw [hq, h.mid]
    rfl
  · rw [hq, h.mid]
    rfl
  · rw [hq, h.mid]
    rfl
  · exact hv
  · exact hs
  · exact hl

/-- **`mappages` once the level-0 table is there** takes no memory. -/
theorem Spine.mappages (h : Spine pt root l1 l0) (hq : q / 512 = 131071)
    (hv : (pt.ent 0 q).v = false) (k : Kernel) (pa : Nat) (perm : Flags) :
    Super.mappages k pt (q * 4096) PGSIZE pa perm =
      .ok (k, pt.set 0 q (PA2PTE pa { perm with v := true }), 0) := by
  have hregion : Region pt (q / 512 / 512) := by
    rw [hq]
    exact h.region
  rw [hregion.mappages, hq, h.mid, hv]
  rfl

theorem SmallAt.uvmunmap (h : SmallAt pt q) (kend : Nat) (k : Kernel) :
    Super.uvmunmap kend k pt (q * 4096) 1 false = .ok (k, pt.set 0 q .zero) := by
  have hal : ¬ q * 4096 % PGSIZE ≠ 0 := not_not.mpr (Nat.mul_mod_left q 4096)
  have hlt : q * 4096 < q * 4096 + 1 * PGSIZE := by
    simp only [PGSIZE]
    omega
  unfold Super.uvmunmap
  rw [if_neg hal, uvmunmapLoop, if_pos hlt, h.region.walk]
  simp only [h.v₁, h.plain, h.table, h.v, flags_ne_of_leaf h.leaf, if_true, if_false,
    Bool.or_self, Bool.false_eq_true, Bool.true_eq_false]
  rfl

/-- **`freewalk` of the tables of a process**, nothing mapped: the three pages. -/
theorem Spine.freewalk (h : Spine pt root l1 l0)
    (hframes : ∀ f ∈ [root, l1, l0], KallocFrame kend f)
    (hbot : ∀ q, q / 512 = 131071 → (pt.ent 0 q).v = false) (k : Kernel) :
    ∃ k', Super.freewalk kend pt 2 0 root k = .ok k' ∧ Gives k k' [root, l1, l0] := by
  have hl1 : KallocFrame kend l1 := hframes l1 (by simp)
  have hl0 : KallocFrame kend l0 := hframes l0 (by simp)
  apply freewalk_only (a := 255) (hframes root (by simp)) (by omega)
  · rw [h.top]
    rfl
  · rw [h.top]
    rfl
  · intro i _ hi
    exact h.top_only _ (by omega)
  rw [h.top, PTE2PA_PA2PTE hl1.aligned]
  apply freewalk_only (a := 511) hl1 (by omega)
  · rw [h.mid]
    rfl
  · rw [h.mid]
    rfl
  · intro i hi hne
    exact h.mid_only _ (by omega)
  rw [h.mid, PTE2PA_PA2PTE hl0.aligned]
  exact freewalk_clear hl0 (fun i hi => hbot _ (by omega)) k

/-! ## The first `mappages` of a new table -/

theorem TRAMPOLINE_page : TRAMPOLINE = 67108863 * 4096 := by decide

theorem TRAPFRAME_page : TRAPFRAME = 67108862 * 4096 := by decide

theorem USYSCALL_page : USYSCALL = 67108861 * 4096 := by decide

/-- On a new root, `walk` first takes the level-1 table. -/
theorem mappages_empty (hq : q * 4096 < MAXVA) (k : Kernel) (pa : Nat) (perm : Flags) :
    Super.mappages k (.empty root) (q * 4096) PGSIZE pa perm =
      match kalloc k with
      | (none, k) => .ok (k, .empty root, -1)
      | (some r, k) => Super.mappages { k with mem := k.mem.fill r PGSIZE 0 }
          ((PageTable.empty root).newTable 2 (q / 512 / 512) r { v := true }) (q * 4096)
          PGSIZE pa perm := by
  obtain ⟨h₀, h₁, h₂⟩ := vpn_page q
  have hone : PGSIZE / PGSIZE = 0 + 1 := rfl
  have hal : ¬ q * 4096 % PGSIZE ≠ 0 := not_not.mpr (Nat.mul_mod_left q 4096)
  have hempty : ((PageTable.empty root).ent 2 (q / 512 / 512)).v = false := rfl
  unfold Super.mappages
  simp only [if_neg hal, hone, mappagesLoop, Super.walk, if_neg (Nat.not_le.mpr hq)]
  rw [walkLevel, h₂]
  simp only [hempty, Bool.false_eq_true, if_false, if_true]
  rcases kalloc k with ⟨_ | r, k₁⟩
  · rfl
  · have hnew := (newTable_two_ent (.empty root) (q / 512 / 512) r { v := true }).1
    have hbelow : ∀ k : Kernel, walkLevel k
        ((PageTable.empty root).newTable 2 (q / 512 / 512) r { v := true }) (q * 4096)
        true 2 = (k, (PageTable.empty root).newTable 2 (q / 512 / 512) r { v := true },
          .below) := by
      intro k
      unfold walkLevel
      rw [h₂, hnew]
      rfl
    simp only [hbelow]

/-- What `mappages` takes before it fails on a new root, `uvmfree` gives back. When it
succeeds, the root has become a spine. -/
theorem mappages_first (hfree : ∀ f ∈ k.freelist, KallocFrame kend f)
    (hroot : KallocFrame kend root) (pa : Nat) (perm : Flags) :
    (∃ k' pt fs, Super.mappages k (.empty root) TRAMPOLINE PGSIZE pa perm =
        .ok (k', pt, -1) ∧ Gives k' k fs ∧
      ∃ k₂, uvmfree kend k' pt 0 = .ok k₂ ∧ Gives k' k₂ (root :: fs)) ∨
    (∃ k' pt l1 l0, Super.mappages k (.empty root) TRAMPOLINE PGSIZE pa perm =
        .ok (k', pt, 0) ∧ Gives k' k [l1, l0] ∧ Spine pt root l1 l0 ∧
      ∀ q, pt.ent 0 q = if q = 67108863 then PA2PTE pa { perm with v := true }
        else .zero) := by
  rw [TRAMPOLINE_page, mappages_empty (by decide)]
  obtain ⟨_ | ⟨l1, rest⟩, sfl, mem⟩ := k
  · -- no level-1 table
    refine .inl ⟨_, _, [], rfl, .refl _, ?_⟩
    exact freewalk_clear hroot (fun i _ => rfl) _
  have hl1 : KallocFrame kend l1 := hfree l1 (by simp)
  obtain ⟨e₂, e₂', -, e₁', e₀⟩ := newTable_two_ent (.empty root) 255 l1 { v := true }
  have e₁ : ∀ j, ((PageTable.empty root).newTable 2 255 l1 { v := true }).ent 1 j =
      .zero := by
    intro j
    by_cases hj : j / 512 = 255
    · exact PageTable.newTable_ent_below _ _ rfl hj
    · exact e₁' j hj
  have htables : ((PageTable.empty root).newTable 2 255 l1 { v := true }).tables =
      [l1, root] := rfl
  have hregion : Region ((PageTable.empty root).newTable 2 255 l1 { v := true }) 255 := by
    constructor
    · decide
    · rw [e₂]
      rfl
    · rw [e₂]
      rfl
    · rw [e₂]
      rfl
  simp only [kalloc, show 67108863 / 512 / 512 = 255 from rfl]
  generalize (PageTable.empty root).newTable 2 255 l1 { v := true } = pt at *
  rw [hregion.mappages (q := 67108863), show 67108863 / 512 = 131071 from rfl, e₁]
  rcases rest with _ | ⟨l0, rest⟩
  · -- no level-0 table
    refine .inl ⟨_, _, [l1], rfl, ⟨rfl, rfl⟩, ?_⟩
    show ∃ k₂, Super.freewalk kend pt 2 0 (pt.tables.getLastD 0) _ = .ok k₂ ∧ _
    rw [htables]
    apply freewalk_only (a := 255) hroot (by omega)
    · rw [e₂]
      rfl
    · rw [e₂]
      rfl
    · intro i _ hi
      rw [e₂' _ (by omega)]
      rfl
    rw [e₂, PTE2PA_PA2PTE hl1.aligned]
    exact freewalk_clear hl1 (fun i _ => by rw [e₁]; rfl) _
  · refine .inr ⟨_, _, l1, l0, rfl, ⟨rfl, rfl⟩, ?_, ?_⟩
    · obtain ⟨n₂, n₁, n₁', -, -⟩ := newTable_one_ent pt 131071 l0 { v := true }
      have hspine : Spine (pt.newTable 1 131071 l0 { v := true }) root l1 l0 := by
        constructor
        · rw [PageTable.newTable_tables, htables]
        · rw [n₂]
          exact e₂
        · intro i hi
          rw [n₂, e₂' i hi]
          rfl
        · exact n₁
        · intro j hj
          rw [n₁' j hj, e₁]
          rfl
      exact hspine.set _ _
    · obtain ⟨-, -, -, n₀, n₀'⟩ := newTable_one_ent pt 131071 l0 { v := true }
      intro q
      by_cases hq : q = 67108863
      · subst hq
        rw [PageTable.set_ent_self, if_pos rfl]
      · rw [PageTable.set_ent_of_ne _ _ (fun hh => hq hh.2), if_neg hq]
        by_cases hslot : q / 512 = 131071
        · exact n₀ q hslot
        · rw [n₀' q hslot, e₀]
          rfl

/-! ## `proc_pagetable` and `proc_freepagetable` -/

/-- The hardware maps the page at `va` to `pa`, 4 KB, with `perm`. -/
def MapsTo (pt : PageTable) (va pa : Nat) (perm : Flags) : Prop :=
  ∃ e, leafAt pt (va / PGSIZE) = some (0, e) ∧ PTE2PA e = pa ∧
    e.toFlags = { perm with v := true }

structure Created (pt : PageTable) (trampoline trapframe usyscall root l1 l0 : Nat) : Prop
    extends Spine pt root l1 l0 where
  bot : ∀ q, pt.ent 0 q =
    if q = 67108861 then PA2PTE usyscall { v := true, r := true, u := true }
    else if q = 67108862 then PA2PTE trapframe { v := true, r := true, w := true }
    else if q = 67108863 then PA2PTE trampoline { v := true, r := true, x := true }
    else .zero

variable {trampoline trapframe usyscall : Nat}

theorem Spine.mapsTo (h : Spine pt root l1 l0) {va pa : Nat} {perm : Flags}
    (hva : va / PGSIZE / 512 = 131071) (hs : perm.s = false)
    (hl : (PA2PTE pa perm).leaf = true) (hpa : pa % 4096 = 0)
    (he : pt.ent 0 (va / PGSIZE) = PA2PTE pa { perm with v := true }) :
    MapsTo pt va pa perm := by
  have hsmall : SmallAt pt (va / PGSIZE) := by
    apply h.smallAt hva
    · rw [he]
      rfl
    · rw [he]
      exact hs
    · rw [he]
      exact hl
  refine ⟨_, hsmall.leafAt_eq, ?_, ?_⟩
  · rw [he]
    exact PTE2PA_PA2PTE hpa _
  · rw [he]
    rfl

/-- **The three pages of a new table.** -/
theorem Created.mapsTo (h : Created pt trampoline trapframe usyscall root l1 l0)
    (htramp : trampoline % PGSIZE = 0) (ht : KallocFrame kend trapframe)
    (hu : KallocFrame kend usyscall) :
    MapsTo pt TRAMPOLINE trampoline { r := true, x := true } ∧
      MapsTo pt TRAPFRAME trapframe { r := true, w := true } ∧
      MapsTo pt USYSCALL usyscall { r := true, u := true } := by
  refine ⟨?_, ?_, ?_⟩
  · apply h.toSpine.mapsTo (by decide) rfl rfl htramp
    rw [h.bot]
    rfl
  · apply h.toSpine.mapsTo (by decide) rfl rfl ht.aligned
    rw [h.bot]
    rfl
  · apply h.toSpine.mapsTo (by decide) rfl rfl hu.aligned
    rw [h.bot]
    rfl

/-- **`proc_freepagetable` of a new table** frees its tables and nothing else. -/
theorem Created.free (h : Created pt trampoline trapframe usyscall root l1 l0)
    (hframes : ∀ f ∈ [root, l1, l0], KallocFrame kend f) (k : Kernel) :
    ∃ k', proc_freepagetable kend k pt 0 = .ok k' ∧ Gives k k' [root, l1, l0] := by
  have h₁ : SmallAt pt 67108863 := by
    apply h.smallAt rfl
    all_goals
      rw [h.bot]
      rfl
  have h₂ : SmallAt (pt.set 0 67108863 .zero) 67108862 := by
    apply (h.set _ _).smallAt rfl
    all_goals
      rw [PageTable.set_ent_of_ne _ _ (by omega), h.bot]
      rfl
  have h₃ : SmallAt ((pt.set 0 67108863 .zero).set 0 67108862 .zero) 67108861 := by
    apply ((h.set _ _).set _ _).smallAt rfl
    all_goals
      rw [PageTable.set_ent_of_ne _ _ (by omega), PageTable.set_ent_of_ne _ _ (by omega),
        h.bot]
      rfl
  have hspine := ((h.set 67108863 .zero).set 67108862 .zero).set 67108861 .zero
  have hclear : ∀ q, q / 512 = 131071 → ((((pt.set 0 67108863 .zero).set 0 67108862
      .zero).set 0 67108861 .zero).ent 0 q).v = false := by
    intro q _
    simp only [PageTable.set, h.bot, true_and]
    split_ifs <;> rfl
  obtain ⟨k', hwalk, hgives⟩ := hspine.freewalk hframes hclear k
  refine ⟨k', ?_, hgives⟩
  unfold proc_freepagetable
  rw [TRAMPOLINE_page, h₁.uvmunmap]
  simp only
  rw [TRAPFRAME_page, h₂.uvmunmap]
  simp only
  rw [USYSCALL_page, h₃.uvmunmap]
  simp only [uvmfree, Nat.lt_irrefl, gt_iff_lt, if_false, hspine.tables]
  exact hwalk

theorem kalloc_gives {r : Nat} (h : kalloc k = (some r, k')) : Gives k' k [r] := by
  obtain ⟨hfree, hsuper, -⟩ := kalloc_some h
  exact ⟨hfree, hsuper.symm⟩

theorem Gives.frames {P : Nat → Prop} (h : Gives k' k fs) (hP : ∀ f ∈ k.freelist, P f) :
    (∀ f ∈ fs, P f) ∧ ∀ f ∈ k'.freelist, P f := by
  rw [h.freelist] at hP
  constructor
  · intro f hf
    exact hP f (List.mem_append_left _ hf)
  · intro f hf
    exact hP f (List.mem_append_right _ hf)

/-- **`proc_pagetable`** fails with the free lists as they were, or takes three pages. Its
second and third `mappages` find the tables of the first. -/
theorem proc_pagetable_cases (hfree : ∀ f ∈ k.freelist, KallocFrame kend f)
    (trampoline trapframe usyscall : Nat) :
    (∃ k', proc_pagetable kend k trampoline trapframe usyscall = .ok (k', none) ∧
      Gives k k' []) ∨
    (∃ k' pt root l1 l0, proc_pagetable kend k trampoline trapframe usyscall =
        .ok (k', some pt) ∧ Gives k' k [root, l1, l0] ∧
      Created pt trampoline trapframe usyscall root l1 l0) := by
  unfold proc_pagetable uvmcreate
  rcases hk : kalloc k with ⟨_ | root, k₁⟩
  · obtain ⟨rfl, -⟩ := kalloc_none hk
    exact .inl ⟨k₁, rfl, .refl _⟩
  have hroot := kalloc_gives hk
  obtain ⟨hr, hfree₁⟩ := hroot.frames hfree
  have hroot₁ : Gives { k₁ with mem := k₁.mem.fill root PGSIZE 0 } k [root] :=
    ⟨hroot.freelist, hroot.superfreelist⟩
  simp only
  rcases mappages_first (k := { k₁ with mem := k₁.mem.fill root PGSIZE 0 }) hfree₁
    (hr root (by simp)) trampoline { r := true, x := true } with
    ⟨k₂, pt, fs, hmap, htaken, k₃, hfree₃, hback⟩ |
    ⟨k₂, pt, l1, l0, hmap, htaken, hspine, hbot⟩
  · -- no memory for the tables
    refine .inl ⟨k₃, ?_, ?_, ?_⟩
    · simp only [hmap, hfree₃]
      rfl
    · rw [hback.freelist, (htaken.trans hroot₁).freelist]
      rfl
    · rw [hback.superfreelist, (htaken.trans hroot₁).superfreelist]
  · have h₁ : (pt.ent 0 67108862).v = false := by
      rw [hbot]
      rfl
    have hspine₁ := hspine.set 67108862 (PA2PTE trapframe { v := true, r := true, w := true })
    have h₂ : ((pt.set 0 67108862 (PA2PTE trapframe { v := true, r := true, w := true })).ent
        0 67108861).v = false := by
      rw [PageTable.set_ent_of_ne _ _ (by omega), hbot]
      rfl
    refine .inr ⟨k₂, _, root, l1, l0, ?_, htaken.trans hroot₁, ⟨hspine₁.set 67108861
      (PA2PTE usyscall { v := true, r := true, u := true }), ?_⟩⟩
    · simp only [hmap, TRAPFRAME_page, USYSCALL_page, hspine.mappages rfl h₁,
        hspine₁.mappages rfl h₂]
      rfl
    · intro q
      simp only [PageTable.set, hbot, true_and]

/-! ## `freeproc` and `allocproc` -/

/-- A slot as `freeproc` leaves it. The process table starts out zeroed, and `UNUSED` is
0, so a slot that was never used is one too. -/
structure Slot.Cleared (p : Slot) : Prop where
  state : p.state = .UNUSED
  trapframe : p.trapframe = none
  usyscall : p.usyscall = none
  pagetable : p.pagetable = none
  sz : p.sz = 0

/-- Every slot that is `UNUSED` holds no page. -/
def Sys.Clean (s : Sys) : Prop := ∀ p ∈ s.proc, p.state = .UNUSED → p.Cleared

theorem free_optional {o : Option Nat} (h : ∀ f ∈ o.toList, KallocFrame kend f)
    (k : Kernel) : ∃ k', (match o with
      | some pa => kfree kend k pa
      | none => .ok k) = .ok k' ∧ Gives k k' o.toList := by
  cases o with
  | none => exact ⟨k, rfl, .refl k⟩
  | some f => exact (h f (by simp)).gives k

/-- **`freeproc`** frees the pages of the slot, then its tables. -/
theorem freeproc_gives {p : Slot} (k : Kernel) (fs : List Nat)
    (hpages : ∀ f ∈ p.usyscall.toList ++ p.trapframe.toList, KallocFrame kend f)
    (htable : ∀ k, ∃ k', (match p.pagetable with
      | some pt => proc_freepagetable kend k pt p.sz
      | none => .ok k) = .ok k' ∧ Gives k k' fs) :
    ∃ k' p', freeproc kend k p = .ok (k', p') ∧
      Gives k k' (fs ++ (p.usyscall.toList ++ p.trapframe.toList)) ∧ p'.Cleared := by
  obtain ⟨k₁, h₁, g₁⟩ := free_optional (o := p.trapframe)
    (fun f hf => hpages f (List.mem_append_right _ hf)) k
  obtain ⟨k₂, h₂, g₂⟩ := free_optional (o := p.usyscall)
    (fun f hf => hpages f (List.mem_append_left _ hf)) k₁
  obtain ⟨k₃, h₃, g₃⟩ := htable k₂
  unfold freeproc
  rw [h₁]
  simp only
  rw [h₂]
  simp only
  rw [h₃]
  exact ⟨k₃, _, rfl, (g₁.trans g₂).trans g₃, rfl, rfl, rfl, rfl, rfl⟩

theorem freeproc_gives_pages (kend : Nat) {p : Slot} (k : Kernel)
    (hpages : ∀ f ∈ p.usyscall.toList ++ p.trapframe.toList, KallocFrame kend f)
    (hnone : p.pagetable = none) :
    ∃ k' p', freeproc kend k p = .ok (k', p') ∧
      Gives k k' (p.usyscall.toList ++ p.trapframe.toList) ∧ p'.Cleared := by
  apply freeproc_gives k [] hpages
  intro k
  rw [hnone]
  exact ⟨k, rfl, .refl k⟩

/-- What a slot is after `allocproc` has filled it. -/
structure Slot.Filled (p : Slot) (pt : PageTable) (t u : Nat) (pid : BitVec 32) : Prop where
  state : p.state = .USED
  pid : p.pid = pid
  trapframe : p.trapframe = some t
  usyscall : p.usyscall = some u
  pagetable : p.pagetable = some pt
  sz : p.sz = 0

theorem Gives.perm {k₂ : Kernel} (h : Gives k₁ k fs) (h' : Gives k₁ k₂ fs')
    (hp : fs'.Perm fs) :
    k₂.freelist.Perm k.freelist ∧ k₂.superfreelist = k.superfreelist := by
  constructor
  · rw [h'.freelist, h.freelist]
    exact hp.append_right _
  · rw [h'.superfreelist, h.superfreelist]

/-- **A slot that is found**: without memory the slot is cleared again and the lists hold
what they held; else five pages have been taken. -/
theorem allocprocFound_cases {p : Slot} (hp : p.Cleared)
    (hfree : ∀ f ∈ k.freelist, KallocFrame kend f) (trampoline forkret : Nat) (pid : BitVec 32) :
    (∃ k' p', allocprocFound kend trampoline forkret k p pid = .ok (k', p', false) ∧
      p'.Cleared ∧ k'.freelist.Perm k.freelist ∧ k'.superfreelist = k.superfreelist) ∨
    (∃ k' p' t u pt root l1 l0,
      allocprocFound kend trampoline forkret k p pid = .ok (k', p', true) ∧
      p'.Filled pt t u pid ∧ Gives k' k [t, u, root, l1, l0] ∧
      Created pt trampoline t u root l1 l0) := by
  obtain ⟨-, htf, hus, hpt, hsz⟩ := hp
  unfold allocprocFound
  rcases hk : kalloc k with ⟨_ | t, k₁⟩
  · -- no trapframe
    obtain ⟨rfl, -⟩ := kalloc_none hk
    obtain ⟨k', p', hf, hgives, hp'⟩ := freeproc_gives_pages kend
      (p := { p with pid := pid, state := .USED, trapframe := none }) k₁ (by simp [hus]) hpt
    refine .inl ⟨k', p', ?_, hp', ?_⟩
    · simp only [hf]
    · exact (Gives.refl k₁).perm hgives (by simp [hus])
  have g₁ := kalloc_gives hk
  obtain ⟨ht, hfree₁⟩ := g₁.frames hfree
  simp only
  rcases hk₁ : kalloc k₁ with ⟨_ | u, k₂⟩
  · -- no usyscall page
    obtain ⟨rfl, -⟩ := kalloc_none hk₁
    obtain ⟨k', p', hf, hgives, hp'⟩ := freeproc_gives_pages kend (p := { p with
      pid := pid, state := .USED, trapframe := some t, usyscall := none }) k₂
      (by simpa using ht) hpt
    refine .inl ⟨k', p', ?_, hp', g₁.perm hgives (by simp)⟩
    simp only [hf]
  have g₂ := kalloc_gives hk₁
  obtain ⟨hu, hfree₂⟩ := g₂.frames hfree₁
  have g₃ : Gives { k₂ with mem := k₂.mem.store u (le32 pid) } k [t, u] :=
    ⟨(g₂.trans g₁).freelist, (g₂.trans g₁).superfreelist⟩
  simp only
  rcases proc_pagetable_cases (k := { k₂ with mem := k₂.mem.store u (le32 pid) }) hfree₂
    trampoline t u with ⟨k₃, htab, g₄⟩ | ⟨k₃, pt, root, l1, l0, htab, g₄, hnew⟩
  · -- no page table
    obtain ⟨k', p', hf, hgives, hp'⟩ := freeproc_gives_pages kend (p := { p with
      pid := pid, state := .USED, trapframe := some t, usyscall := some u,
      pagetable := none }) k₃
      (by
        intro f hf
        rcases List.mem_append.mp hf with hf | hf
        · exact hu f hf
        · exact ht f hf) rfl
    refine .inl ⟨k', p', ?_, hp', ?_⟩
    · simp only [htab, hf]
    · exact g₃.perm (g₄.trans hgives) (List.Perm.swap ..)
  · simp only [htab]
    exact .inr ⟨k₃, _, t, u, pt, root, l1, l0, rfl, ⟨rfl, rfl, rfl, rfl, rfl, hsz⟩,
      g₄.trans g₃, hnew⟩

theorem Sys.Clean.set {s : Sys} (h : s.Clean) (i : Nat) (pid : BitVec 32) {p : Slot} (k : Kernel)
    (hp : p.state = .UNUSED → p.Cleared) : Sys.Clean ⟨k, s.proc.set i p, pid⟩ := by
  intro p' hp' hstate
  rcases List.mem_or_eq_of_mem_set hp' with hmem | rfl
  · exact h p' hmem hstate
  · exact hp hstate

theorem Slot.Filled.freeproc {p : Slot} {t u : Nat} {pid : BitVec 32} (h : p.Filled pt t u pid)
    (hnew : Created pt trampoline t u root l1 l0)
    (hframes : ∀ f ∈ [t, u, root, l1, l0], KallocFrame kend f) (k : Kernel) :
    ∃ k' p', Super.freeproc kend k p = .ok (k', p') ∧
      Gives k k' [root, l1, l0, u, t] ∧ p'.Cleared := by
  have hpages : ∀ f ∈ p.usyscall.toList ++ p.trapframe.toList, KallocFrame kend f := by
    rw [h.usyscall, h.trapframe]
    intro f hf
    apply hframes
    simp only [Option.toList_some, List.cons_append, List.nil_append, List.mem_cons,
      List.not_mem_nil, or_false] at hf ⊢
    rcases hf with rfl | rfl
    · exact .inr (.inl rfl)
    · exact .inl rfl
  obtain ⟨k', p', hf, hgives, hp'⟩ := freeproc_gives k [root, l1, l0] hpages (by
    intro k
    rw [h.pagetable, h.sz]
    exact hnew.free (fun f hf => hframes f (by simp_all)) k)
  rw [h.usyscall, h.trapframe] at hgives
  exact ⟨k', p', hf, hgives, hp'⟩

/-- **Process creation leaks nothing.** Whatever the free lists hold, `allocproc` ends
without a panic. When it returns 0 the small list holds the same pages as before and a
slot that was found is clear again. When it succeeds it has taken the trapframe, the
usyscall page and the tables of the slot, the three fixed pages are mapped, and `freeproc`
gives back those five pages. -/
theorem allocproc_leaks_nothing {s : Sys} (hs : s.Clean)
    (hfree : ∀ f ∈ s.k.freelist, KallocFrame kend f) (htramp : trampoline % PGSIZE = 0)
    (forkret : Nat) :
    ∃ s' r, allocproc kend trampoline forkret s = .ok (s', r) ∧ s'.Clean ∧
      s'.k.superfreelist = s.k.superfreelist ∧
      match r with
      | none => ((∀ p ∈ s.proc, p.state ≠ .UNUSED) ∧ s' = s) ∨
          ∃ i p p', s.proc[i]? = some p ∧ p.state = .UNUSED ∧
            s'.proc = s.proc.set i p' ∧ p'.Cleared ∧ s'.k.freelist.Perm s.k.freelist
      | some i => ∃ p p' t u pt, s.proc[i]? = some p ∧ p.state = .UNUSED ∧
          s'.proc = s.proc.set i p' ∧ p'.Filled pt t u s.nextpid ∧
          s.k.freelist = t :: u :: pt.tables.reverse ++ s'.k.freelist ∧
          MapsTo pt TRAMPOLINE trampoline { r := true, x := true } ∧
          MapsTo pt TRAPFRAME t { r := true, w := true } ∧
          MapsTo pt USYSCALL u { r := true, u := true } ∧
          ∃ k'' p'' given, freeproc kend s'.k p' = .ok (k'', p'') ∧ p''.Cleared ∧
            given.Perm (t :: u :: pt.tables.reverse) ∧
            k''.freelist = given ++ s'.k.freelist ∧
            k''.superfreelist = s'.k.superfreelist := by
  rcases hfound : s.proc.findIdx? (fun p => p.state = .UNUSED) with _ | i
  · have hrun : allocproc kend trampoline forkret s = .ok (s, none) := by
      unfold allocproc
      rw [hfound]
    rw [List.findIdx?_eq_none_iff] at hfound
    exact ⟨s, none, hrun, hs, rfl,
      .inl ⟨fun p hp => of_decide_eq_false (hfound p hp), rfl⟩⟩
  unfold allocproc
  rw [hfound]
  rw [List.findIdx?_eq_some_iff_getElem] at hfound
  obtain ⟨hi, hunused, -⟩ := hfound
  have hget : s.proc[i]? = some s.proc[i] := List.getElem?_eq_getElem hi
  have hstate : s.proc[i].state = .UNUSED := of_decide_eq_true hunused
  have hcleared := hs _ (List.getElem_mem hi) hstate
  simp only [hget]
  generalize s.proc[i] = p at *
  rcases allocprocFound_cases hcleared hfree trampoline forkret s.nextpid with
    ⟨k', p', hrun, hp', hperm, hsuper⟩ |
    ⟨k', p', t, u, pt, root, l1, l0, hrun, hfilled, htaken, hnew⟩
  · rw [hrun]
    exact ⟨_, none, rfl, hs.set i _ k' (fun _ => hp'), hsuper,
      .inr ⟨i, p, p', hget, hstate, rfl, hp', hperm⟩⟩
  · rw [hrun]
    have hframes := (htaken.frames hfree).1
    have hclean := hs.set i (s.nextpid + 1) (p := p') k' (fun hunused => by
      rw [hfilled.state] at hunused
      cases hunused)
    obtain ⟨hm₁, hm₂, hm₃⟩ := hnew.mapsTo htramp (hframes t (by simp)) (hframes u (by simp))
    obtain ⟨k'', p'', hfreed, hgives, hp''⟩ := hfilled.freeproc hnew hframes k'
    refine ⟨_, some i, rfl, hclean, htaken.superfreelist.symm, p, p', t, u, pt, hget, hstate,
      rfl, hfilled, ?_, hm₁, hm₂, hm₃, k'', p'', [root, l1, l0, u, t], hfreed, hp'', ?_,
      hgives.freelist, hgives.superfreelist⟩
    · rw [htaken.freelist, hnew.tables]
      rfl
    · rw [hnew.tables]
      show ([root, l1, l0] ++ [u, t]).Perm ([t, u] ++ [root, l1, l0])
      exact List.perm_append_comm.trans ((List.Perm.swap ..).append_right _)

def oneSlot : Sys where
  k := ⟨[0x80020000, 0x80021000, 0x80022000, 0x80023000, 0x80024000], [], fun _ => 0⟩
  proc := [{ state := .UNUSED, chan := 0, killed := 0, xstate := 0, pid := 0, parent := 0,
             kstack := 0x3FFFFFD000, sz := 0, pagetable := none, trapframe := none,
             context := {}, name := [0], usyscall := none, next := 0 }]
  nextpid := 1

/-- The slot is filled, and `freeproc` fills the list again. -/
theorem allocproc_leaks_nothing_oneSlot :
    ∃ s' p' k'' p'', allocproc 0x80010000 0x80007000 0x80001000 oneSlot =
        .ok (s', some 0) ∧ s'.proc = [p'] ∧ s'.k.freelist = [] ∧
      freeproc 0x80010000 s'.k p' = .ok (k'', p'') ∧
      k''.freelist.Perm oneSlot.k.freelist := by
  have hclean : oneSlot.Clean := by
    intro p hp _
    obtain rfl := List.mem_singleton.mp hp
    constructor <;> rfl
  have hfree : ∀ f ∈ oneSlot.k.freelist, KallocFrame 0x80010000 f := by
    intro f hf
    have hdec : ∀ f ∈ oneSlot.k.freelist,
        f % PGSIZE = 0 ∧ 0x80010000 ≤ f ∧ f < PHYSTOP := by decide
    obtain ⟨h₁, h₂, h₃⟩ := hdec f hf
    exact ⟨h₁, h₂, h₃⟩
  have hcomp : (allocproc 0x80010000 0x80007000 0x80001000 oneSlot).map
      (fun o => (o.2, o.1.k.freelist)) = .ok (some 0, []) := rfl
  obtain ⟨s', r, hrun, -, -, hres⟩ := allocproc_leaks_nothing hclean hfree
    (show 0x80007000 % PGSIZE = 0 from rfl) 0x80001000
  rw [hrun] at hcomp
  obtain ⟨rfl, hnil⟩ := Prod.mk.inj (Except.ok.inj hcomp)
  obtain ⟨p, p', t, u, pt, -, -, hproc, -, htaken, -, -, -, k'', p'', given, hfreed, -,
    hperm, hgiven, -⟩ := hres
  refine ⟨s', p', k'', p'', hrun, hproc, hnil, hfreed, ?_⟩
  rw [hgiven, htaken]
  exact hperm.append_right _

end Xv6Labs.Super
