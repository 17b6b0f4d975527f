import Xv6Labs.Super.Newborn

/-!
# The ledger of the process table

Every page belongs to a free list, to a slot of the process table or to the rest of the
kernel, and `Ledger` counts them. Whatever moves pages between one slot and the free lists
keeps it (`Ledger.turn`), and cannot reach a byte of anyone else (`Turn`): two owners never
share a byte, because every page is counted once and pages of both kinds lie on
boundaries of their own.
-/

namespace Xv6Labs.Super

open Xv6Labs.Lib

/-! ## Owners -/

def Slot.small (p : Slot) (x : Nat) : Nat :=
  (if p.trapframe = some x then 1 else 0) + (if p.usyscall = some x then 1 else 0) +
    match p.pagetable with
    | some pt => tableCount pt x + pageCount pt x
    | none => 0

def Slot.super (p : Slot) (x : Nat) : Nat :=
  match p.pagetable with
  | some pt => superCount pt x
  | none => 0

def Covers (c s : Nat → Nat) (x : Nat) : Prop :=
  (∃ f, 0 < c f ∧ Block.has (f, PGSIZE) x) ∨ ∃ f, 0 < s f ∧ Block.has (f, SUPERPGSIZE) x

/-- The pages there are. -/
structure Stock (kend : Nat) (c₀ s₀ : Nat → Nat) : Prop where
  once : ∀ x, c₀ x ≤ 1
  superonce : ∀ x, s₀ x ≤ 1
  small : ∀ x, 0 < c₀ x → SmallFrame kend x
  super : ∀ x, 0 < s₀ x → SuperFrame kend x

variable {kend trampoline : Nat} {c₀ s₀ c c' s s' : Nat → Nat} {k k' : Kernel}
  {pt pt' : PageTable} {p p' : Slot} {t u x i j : Nat}

theorem Covers.mono (h : Covers c s x) (hc : ∀ f, c f ≤ c' f) (hs : ∀ f, s f ≤ s' f) :
    Covers c' s' x := by
  rcases h with ⟨f, hf, hin⟩ | ⟨f, hf, hin⟩
  · exact .inl ⟨f, hf.trans_le (hc f), hin⟩
  · exact .inr ⟨f, hf.trans_le (hs f), hin⟩

/-- **Two owners share no byte.** -/
theorem Stock.disjoint (h : Stock kend c₀ s₀) (hc : ∀ f, c f + c' f ≤ c₀ f)
    (hs : ∀ f, s f + s' f ≤ s₀ f) (hx : Covers c s x) : ¬ Covers c' s' x := by
  intro hx'
  have hsmall : ∀ f, 0 < c f ∨ 0 < c' f → SmallFrame kend f := fun f hf => by
    refine h.small f (lt_of_lt_of_le ?_ (hc f))
    omega
  have hsuper : ∀ f, 0 < s f ∨ 0 < s' f → SuperFrame kend f := fun f hf => by
    refine h.super f (lt_of_lt_of_le ?_ (hs f))
    omega
  rcases hx with ⟨f, hf, hin⟩ | ⟨f, hf, hin⟩
  · rcases hx' with ⟨g, hg, hin'⟩ | ⟨g, hg, hin'⟩
    · obtain rfl := (hsmall f (.inl hf)).eq_of_has (hsmall g (.inr hg)) hin hin'
      have := hc f
      have := h.once f
      omega
    · exact (hsmall f (.inl hf)).apart (hsuper g (.inr hg)) hin hin'
  · rcases hx' with ⟨g, hg, hin'⟩ | ⟨g, hg, hin'⟩
    · exact (hsmall g (.inr hg)).apart (hsuper f (.inl hf)) hin' hin
    · obtain rfl := (hsuper f (.inl hf)).eq_of_has (hsuper g (.inr hg)) hin hin'
      have := hs f
      have := h.superonce f
      omega

theorem Stock.page_apart (h : Stock kend c₀ s₀) {f : Nat}
    (hc : ∀ g, (if f = g then 1 else 0) + c' g ≤ c₀ g) (hs : ∀ g, s' g ≤ s₀ g)
    (hx : Block.has (f, PGSIZE) x) : ¬ Covers c' s' x := by
  refine h.disjoint (c := fun g => if f = g then 1 else 0) (s := fun _ => 0) hc (fun g => ?_)
    (.inl ⟨f, ?_, hx⟩)
  · rw [Nat.zero_add]
    exact hs g
  · show 0 < if f = f then 1 else 0
    rw [if_pos rfl]
    exact Nat.one_pos

theorem Kernel.spare.covers (h : k.spare x) :
    Covers (fun f => k.freelist.count f) (fun f => k.superfreelist.count f) x := by
  rcases h with ⟨f, hf, hin⟩ | ⟨f, hf, hin⟩
  · exact .inl ⟨f, List.count_pos_iff.mpr hf, hin⟩
  · exact .inr ⟨f, List.count_pos_iff.mpr hf, hin⟩

/-- A process as the kernel keeps it. Nothing here ties the size to the page table. -/
structure Process (trampoline : Nat) (mem : Mem) (p : Slot) (pt : PageTable) (t u : Nat) :
    Prop where
  state : p.state ≠ .UNUSED
  trapframe : p.trapframe = some t
  usyscall : p.usyscall = some u
  pagetable : p.pagetable = some pt
  tree : Tree pt
  rooted : pt.tables ≠ []
  range : ∀ i, (pt.ent 2 i).v = true → i < 512
  first : superAt pt 0 = false
  size : p.sz ≤ 2 ^ 30
  /-- the way to the first page -/
  image : 0 < p.sz → tableAt pt 0 = true
  fixed : Fixed pt trampoline t u
  pid : HoldsPid mem u p.pid

/-- The ledger over the stock `c₀`, `s₀`, with the pages `held` by the rest of the kernel. -/
structure Ledger (trampoline : Nat) (c₀ s₀ : Nat → Nat) (held : List Nat) (y : Sys) : Prop where
  small : ∀ x,
    held.count x + y.k.freelist.count x + (y.proc.map (fun p => p.small x)).sum = c₀ x
  super : ∀ x, y.k.superfreelist.count x + (y.proc.map (fun p => p.super x)).sum = s₀ x
  slots : ∀ (i : Nat) (p : Slot), y.proc[i]? = some p → p.Cleared ∨
    ∃ pt t u, Process trampoline y.k.mem p pt t u

structure Spared (y y' : Sys) (j : Nat) : Prop where
  slot : y'.proc[j]? = y.proc[j]?
  mem : ∀ p, y.proc[j]? = some p → ∀ x, Covers p.small p.super x → y'.k.mem x = y.k.mem x

/-- A step that only concerns slot `i`. -/
structure Turn (held : List Nat) (y y' : Sys) (i : Nat) : Prop where
  others : ∀ j, j ≠ i → Spared y y' j
  held : ∀ f ∈ held, ∀ x, Block.has (f, PGSIZE) x → y'.k.mem x = y.k.mem x

variable {held held' : List Nat} {y y' y'' : Sys}

theorem Spared.refl (y : Sys) (j : Nat) : Spared y y j := ⟨rfl, fun _ _ _ _ => rfl⟩

theorem Spared.trans (h : Spared y y' j) (h' : Spared y' y'' j) : Spared y y'' j := by
  refine ⟨h'.slot.trans h.slot, fun p hp x hx => ?_⟩
  rw [h'.mem p (h.slot.trans hp) x hx, h.mem p hp x hx]

theorem Turn.trans (h : Turn held y y' i) (h' : Turn held y' y'' i) : Turn held y y'' i := by
  refine ⟨fun j hj => (h.others j hj).trans (h'.others j hj), fun f hf x hx => ?_⟩
  rw [h'.held f hf x hx, h.held f hf x hx]

/-! ## What a process owns -/

theorem Slot.Cleared.small (h : p.Cleared) (x : Nat) : p.small x = 0 := by
  unfold Slot.small
  rw [h.trapframe, h.usyscall, h.pagetable]
  rfl

theorem Slot.Cleared.super (h : p.Cleared) (x : Nat) : p.super x = 0 := by
  unfold Slot.super
  rw [h.pagetable]

variable {mem mem' : Mem}

theorem Process.small (h : Process trampoline mem p pt t u) (x : Nat) : p.small x =
    (if t = x then 1 else 0) + (if u = x then 1 else 0) + (tableCount pt x + pageCount pt x) := by
  unfold Slot.small
  rw [h.trapframe, h.usyscall, h.pagetable]
  simp only [Option.some.injEq]

theorem Process.super (h : Process trampoline mem p pt t u) (x : Nat) :
    p.super x = superCount pt x := by
  unfold Slot.super
  rw [h.pagetable]

theorem Process.congr (h : Process trampoline mem p pt t u)
    (heq : ∀ x, Covers p.small p.super x → mem' x = mem x) : Process trampoline mem' p pt t u := by
  refine ⟨h.state, h.trapframe, h.usyscall, h.pagetable, h.tree, h.rooted, h.range, h.first, h.size,
    h.image, h.fixed, h.pid.congr (fun x hx => heq x (.inl ⟨u, ?_, hx⟩))⟩
  rw [h.small, if_pos (rfl : u = u)]
  omega

namespace Ledger

theorem slot_le (h : Ledger trampoline c₀ s₀ held y) (hp : y.proc[i]? = some p) (x : Nat) :
    held.count x + y.k.freelist.count x + p.small x ≤ c₀ x ∧
      y.k.superfreelist.count x + p.super x ≤ s₀ x := by
  have h₁ := le_sum_of_getElem? (fun p => p.small x) hp
  have h₂ := le_sum_of_getElem? (fun p => p.super x) hp
  have h₃ := h.small x
  have h₄ := h.super x
  omega

theorem slots_le (h : Ledger trampoline c₀ s₀ held y) {q : Slot} (hij : i ≠ j)
    (hp : y.proc[i]? = some p) (hq : y.proc[j]? = some q) (x : Nat) :
    y.k.freelist.count x + p.small x + q.small x ≤ c₀ x ∧
      y.k.superfreelist.count x + p.super x + q.super x ≤ s₀ x := by
  have h₁ := add_le_sum_of_getElem? (fun p => p.small x) hij hp hq
  have h₂ := add_le_sum_of_getElem? (fun p => p.super x) hij hp hq
  have h₃ := h.small x
  have h₄ := h.super x
  omega

theorem sorted (h : Ledger trampoline c₀ s₀ held y) (hS : Stock kend c₀ s₀) :
    y.k.Sorted kend ∧ y.k.freelist.Nodup ∧ y.k.superfreelist.Nodup := by
  refine ⟨⟨fun f hf => hS.small f ?_, fun f hf => hS.super f ?_⟩, ?_, ?_⟩
  · have := h.small f
    have := List.count_pos_iff.mpr hf
    omega
  · have := h.super f
    have := List.count_pos_iff.mpr hf
    omega
  · rw [List.nodup_iff_count_le_one]
    intro f
    have := h.small f
    have := hS.once f
    omega
  · rw [List.nodup_iff_count_le_one]
    intro f
    have := h.super f
    have := hS.superonce f
    omega

theorem aligned (h : Ledger trampoline c₀ s₀ held y) (hS : Stock kend c₀ s₀)
    (hp : y.proc[i]? = some p) (hL : Process trampoline y.k.mem p pt t u) :
    SmallFrame kend t ∧ SmallFrame kend u ∧ t ≠ u := by
  have hle := fun x => (h.slot_le hp x).1
  have hsm := hL.small
  refine ⟨hS.small t ?_, hS.small u ?_, ?_⟩
  · have h₁ := hle t
    rw [hsm, if_pos rfl] at h₁
    omega
  · have h₁ := hle u
    rw [hsm, if_pos (rfl : u = u)] at h₁
    omega
  · rintro rfl
    have h₁ := hle t
    have h₂ := hS.once t
    rw [hsm, if_pos rfl] at h₁
    omega

theorem trapframe_bytes (h : Ledger trampoline c₀ s₀ held y) (hS : Stock kend c₀ s₀)
    (hp : y.proc[i]? = some p) (hL : Process trampoline y.k.mem p pt t u)
    (hx : Block.has (t, PGSIZE) x) :
    Covers p.small p.super x ∧ ¬ Block.has (u, PGSIZE) x := by
  obtain ⟨ht, hu, hne⟩ := h.aligned hS hp hL
  refine ⟨.inl ⟨t, ?_, hx⟩, fun hx' => hne (ht.eq_of_has hu hx hx')⟩
  rw [hL.small, if_pos (rfl : t = t)]
  omega

/-- **The books of one process.** -/
theorem kept (h : Ledger trampoline c₀ s₀ held y) (hS : Stock kend c₀ s₀)
    (hp : y.proc[i]? = some p) (hL : Process trampoline y.k.mem p pt t u) :
    Kept kend ⟨y.k, pt, [], []⟩ := by
  refine ⟨hL.tree, hL.rooted, hL.range, hL.first, fun x hx => hS.small x (lt_of_lt_of_le hx ?_),
    fun x hx => hS.super x (lt_of_lt_of_le hx ?_)⟩
  · have := (h.slot_le hp x).1
    rw [hL.small] at this
    simp only [Books.small, List.count_nil]
    omega
  · have := (h.slot_le hp x).2
    rw [hL.super] at this
    simp only [Books.super, List.count_nil]
    omega

/-- **A slot turns into another one**, and pages move between it and the free lists. -/
theorem turn (h : Ledger trampoline c₀ s₀ held y) (hS : Stock kend c₀ s₀)
    (hp : y.proc[i]? = some p) (nextpid : BitVec 32)
    (hsmall : ∀ x, k'.freelist.count x + p'.small x = y.k.freelist.count x + p.small x)
    (hsuper : ∀ x, k'.superfreelist.count x + p'.super x =
      y.k.superfreelist.count x + p.super x)
    (hmem : ∀ x, ¬ Covers (fun f => y.k.freelist.count f + p.small f)
      (fun f => y.k.superfreelist.count f + p.super f) x → k'.mem x = y.k.mem x)
    (hp' : p'.Cleared ∨ ∃ pt t u, Process trampoline k'.mem p' pt t u) :
    Ledger trampoline c₀ s₀ held ⟨k', y.proc.set i p', nextpid⟩ ∧
      Turn held y ⟨k', y.proc.set i p', nextpid⟩ i := by
  have hothers : ∀ j, j ≠ i → Spared y ⟨k', y.proc.set i p', nextpid⟩ j := by
    intro j hj
    refine ⟨List.getElem?_set_ne hj.symm, fun q hq x hx => hmem x ?_⟩
    refine hS.disjoint (fun f => ?_) (fun f => ?_) hx
    · rw [Nat.add_comm]
      exact (h.slots_le hj.symm hp hq f).1
    · rw [Nat.add_comm]
      exact (h.slots_le hj.symm hp hq f).2
  refine ⟨⟨fun x => ?_, fun x => ?_, fun j q hq => ?_⟩, hothers, fun f hf x hx => hmem x ?_⟩
  · have h₁ := sum_set_add (fun p => p.small x) p' hp
    have h₂ := h.small x
    have h₃ := hsmall x
    simp only at h₁ ⊢
    omega
  · have h₁ := sum_set_add (fun p => p.super x) p' hp
    have h₂ := h.super x
    have h₃ := hsuper x
    simp only at h₁ ⊢
    omega
  · by_cases hj : j = i
    · subst hj
      have hlt : j < y.proc.length := (List.getElem?_eq_some_iff.mp hp).1
      rw [List.getElem?_set_self hlt] at hq
      obtain rfl := Option.some.inj hq
      exact hp'
    · have hq' := (hothers j hj).slot.symm.trans hq
      rcases h.slots j q hq' with hc | ⟨pt, t, u, hL⟩
      · exact .inl hc
      · exact .inr ⟨pt, t, u, hL.congr ((hothers j hj).mem q hq')⟩
  · refine hS.disjoint (c := fun g => held.count g) (s := fun _ => 0) (fun g => ?_)
      (fun g => ?_) (.inl ⟨f, List.count_pos_iff.mpr hf, hx⟩)
    · have := (h.slot_le hp g).1
      omega
    · have := (h.slot_le hp g).2
      omega

/-! ## Steps of one process -/

/-- A process goes on with another page table, made of its own pages and free ones. -/
theorem moves (h : Ledger trampoline c₀ s₀ held y) (hS : Stock kend c₀ s₀)
    (hp : y.proc[i]? = some p) (hL : Process trampoline y.k.mem p pt t u) (nextpid : BitVec 32)
    (hM : Moves kend ⟨y.k, pt, [], []⟩ ⟨k', pt', [], []⟩)
    (hsame : p'.trapframe = p.trapframe ∧ p'.usyscall = p.usyscall ∧ p'.pid = p.pid)
    (hstate : p'.state ≠ .UNUSED) (hpt : p'.pagetable = some pt') (hsz : p'.sz ≤ 2 ^ 30)
    (himage : 0 < p'.sz → tableAt pt' 0 = true) :
    Ledger trampoline c₀ s₀ held ⟨k', y.proc.set i p', nextpid⟩ ∧
      Turn held y ⟨k', y.proc.set i p', nextpid⟩ i ∧
      Process trampoline k'.mem p' pt' t u := by
  obtain ⟨htf, hus, hpid⟩ := hsame
  -- the page of `usyscall` is not among those that move
  have hmem : ∀ x, Block.has (u, PGSIZE) x → k'.mem x = y.k.mem x := by
    intro x hx
    refine hM.mem x (hS.page_apart (fun f => ?_) (fun f => ?_) hx)
    · have := (h.slot_le hp f).1
      rw [hL.small] at this
      simp only [Books.small, List.count_nil]
      omega
    · have := (h.slot_le hp f).2
      rw [hL.super] at this
      simp only [Books.super, List.count_nil]
      omega
  have hL' : Process trampoline k'.mem p' pt' t u := by
    refine ⟨hstate, htf.trans hL.trapframe, hus.trans hL.usyscall, hpt, hM.kept.tree,
      hM.kept.rooted, hM.kept.range, hM.kept.first, hsz, himage, hL.fixed.moves hM, ?_⟩
    rw [hpid]
    exact hL.pid.congr hmem
  suffices hturn : Ledger trampoline c₀ s₀ held ⟨k', y.proc.set i p', nextpid⟩ ∧
      Turn held y ⟨k', y.proc.set i p', nextpid⟩ i from ⟨hturn.1, hturn.2, hL'⟩
  refine h.turn hS hp nextpid (fun x => ?_) (fun x => ?_)
    (fun x hx => hM.mem x (fun ho => hx (Covers.mono ho (fun f => ?_) (fun f => ?_))))
    (.inr ⟨pt', t, u, hL'⟩)
  · have := hM.small x
    simp only [Books.small, List.count_nil] at this
    rw [hL.small, hL'.small]
    omega
  · have := hM.super x
    simp only [Books.super, List.count_nil] at this
    rw [hL.super, hL'.super]
    omega
  · rw [hL.small]
    simp only [Books.small, List.count_nil]
    omega
  · rw [hL.super]
    simp only [Books.super, List.count_nil]
    omega

/-- Bytes change in the pages of a process, the page of `usyscall` apart. -/
theorem write (h : Ledger trampoline c₀ s₀ held y) (hS : Stock kend c₀ s₀)
    (hp : y.proc[i]? = some p) (hL : Process trampoline y.k.mem p pt t u) (nextpid : BitVec 32)
    (hmem : ∀ x, mem' x ≠ y.k.mem x → Covers p.small p.super x ∧ ¬ Block.has (u, PGSIZE) x)
    (hsame : p'.trapframe = p.trapframe ∧ p'.usyscall = p.usyscall ∧ p'.pid = p.pid)
    (hstate : p'.state ≠ .UNUSED) (hpt : p'.pagetable = p.pagetable) (hsz : p'.sz ≤ 2 ^ 30)
    (himage : 0 < p'.sz → tableAt pt 0 = true) :
    Ledger trampoline c₀ s₀ held ⟨{ y.k with mem := mem' }, y.proc.set i p', nextpid⟩ ∧
      Turn held y ⟨{ y.k with mem := mem' }, y.proc.set i p', nextpid⟩ i := by
  obtain ⟨htf, hus, hpid⟩ := hsame
  have hL' : Process trampoline mem' p' pt t u := by
    refine ⟨hstate, htf.trans hL.trapframe, hus.trans hL.usyscall, hpt.trans hL.pagetable,
      hL.tree, hL.rooted, hL.range, hL.first, hsz, himage, hL.fixed, ?_⟩
    rw [hpid]
    refine hL.pid.congr (fun x hx => ?_)
    by_contra hne
    exact (hmem x hne).2 hx
  refine h.turn hS hp nextpid (fun x => ?_) (fun x => ?_) (fun x hx => ?_)
    (.inr ⟨pt, t, u, hL'⟩)
  · rw [hL.small, hL'.small]
  · rw [hL.super, hL'.super]
  · by_contra hne
    exact hx ((hmem x hne).1.mono (fun f => Nat.le_add_left _ _)
      (fun f => Nat.le_add_left _ _))

/-- **`freeproc`** of a process. -/
theorem freeproc (h : Ledger trampoline c₀ s₀ held y) (hS : Stock kend c₀ s₀)
    (hp : y.proc[i]? = some p) (hL : Process trampoline y.k.mem p pt t u) (nextpid : BitVec 32)
    (hok : Super.freeproc kend y.k p = .ok (k', p')) :
    p'.Cleared ∧ Ledger trampoline c₀ s₀ held ⟨k', y.proc.set i p', nextpid⟩ ∧
      Turn held y ⟨k', y.proc.set i p', nextpid⟩ i := by
  have hcount : ∀ x, Books.small ⟨y.k, pt, [t, u], []⟩ x = y.k.freelist.count x + p.small x := by
    intro x
    rw [hL.small]
    simp only [Books.small, List.count_cons, List.count_nil, beq_iff_eq]
    omega
  have hsupercount : ∀ x, Books.super ⟨y.k, pt, [t, u], []⟩ x =
      y.k.superfreelist.count x + p.super x := by
    intro x
    rw [hL.super]
    simp only [Books.super, List.count_nil]
    omega
  have hK : Kept kend ⟨y.k, pt, [t, u], []⟩ := by
    refine ⟨hL.tree, hL.rooted, hL.range, hL.first, fun x hx => hS.small x (lt_of_lt_of_le hx ?_),
      fun x hx => hS.super x (lt_of_lt_of_le hx ?_)⟩
    · rw [hcount]
      have := (h.slot_le hp x).1
      omega
    · rw [hsupercount]
      exact (h.slot_le hp x).2
  obtain ⟨hc, hs, hS', hm⟩ := hK.freeproc hL.trapframe hL.usyscall hL.pagetable
    (hL.fixed.top hL.tree) hL.size hok
  refine ⟨hc, h.turn hS hp nextpid (fun x => ?_) (fun x => ?_) (fun x hx => hm x (fun ho =>
    hx (Covers.mono ho (fun f => (hcount f).le) (fun f => (hsupercount f).le)))) (.inl hc)⟩
  · rw [hs, hcount, hc.small, Nat.add_zero]
  · rw [hS', hsupercount, hc.super, Nat.add_zero]

/-- **`allocproc`** finds nothing, or concerns one slot that was free. -/
theorem allocproc {forkret : Nat} {r : Option Nat} (h : Ledger trampoline c₀ s₀ held y)
    (hS : Stock kend c₀ s₀) (hok : Super.allocproc kend trampoline forkret y = .ok (y', r)) :
    (r = none ∧ y' = y) ∨ ∃ i p p', y.proc[i]? = some p ∧ p.Cleared ∧
      y'.proc = y.proc.set i p' ∧ y'.nextpid = y.nextpid + 1 ∧
      Ledger trampoline c₀ s₀ held y' ∧ Turn held y y' i ∧
      (r = none ∧ p'.Cleared ∨ r = some i ∧ p'.pid = y.nextpid ∧ p'.sz = 0 ∧
        ∃ pt t u, Process trampoline y'.k.mem p' pt t u) := by
  unfold Super.allocproc at hok
  split at hok
  · simp only [Except.ok.injEq, Prod.mk.injEq] at hok
    obtain ⟨rfl, rfl⟩ := hok
    exact .inl ⟨rfl, rfl⟩
  rename_i i hfind
  split at hok
  · simp only [Except.ok.injEq, Prod.mk.injEq] at hok
    obtain ⟨rfl, rfl⟩ := hok
    exact .inl ⟨rfl, rfl⟩
  rename_i p hp
  split at hok
  · cases hok
  rename_i k' p' ok hfound
  simp only [Except.ok.injEq, Prod.mk.injEq] at hok
  obtain ⟨rfl, rfl⟩ := hok
  have hunused : p.state = .UNUSED := by
    rw [List.findIdx?_eq_some_iff_getElem] at hfind
    obtain ⟨hi, hst, -⟩ := hfind
    rw [List.getElem?_eq_getElem hi] at hp
    obtain rfl := Option.some.inj hp
    exact of_decide_eq_true hst
  have hc : p.Cleared := by
    rcases h.slots i p hp with hc | ⟨pt, t, u, hL⟩
    · exact hc
    · exact absurd hunused hL.state
  obtain ⟨hsort, hnd, -⟩ := h.sorted hS
  have hspare : ∀ x, y.k.spare x → Covers (fun f => y.k.freelist.count f + p.small f)
      (fun f => y.k.superfreelist.count f + p.super f) x := fun x hx =>
    hx.covers.mono (fun f => Nat.le_add_right _ _) (fun f => Nat.le_add_right _ _)
  refine .inr ⟨i, p, p', hp, hc, rfl, rfl, ?_⟩
  rcases allocprocFound_born hsort hnd hc hfound with ⟨rfl, hc', hN⟩ |
    ⟨rfl, pt, t, u, hF, hB⟩
  · suffices hturn : Ledger trampoline c₀ s₀ held ⟨k', y.proc.set i p', y.nextpid + 1⟩ ∧
        Turn held y ⟨k', y.proc.set i p', y.nextpid + 1⟩ i from
      ⟨hturn.1, hturn.2, .inl ⟨rfl, hc'⟩⟩
    refine h.turn hS hp (y.nextpid + 1) (fun x => ?_) (fun x => ?_)
      (fun x hx => hN.mem x (fun hs => hx (hspare x hs))) (.inl hc')
    · rw [hN.small, hc.small, hc'.small]
    · rw [hN.super, hc.super, hc'.super]
  · have hproc : Process trampoline k'.mem p' pt t u := by
      refine ⟨?_, hF.trapframe, hF.usyscall, hF.pagetable, hB.kept.tree, hB.kept.rooted,
        hB.kept.range, hB.kept.first, ?_, fun hpos => ?_, hB.fixed, ?_⟩
      · rw [hF.state]
        decide
      · rw [hF.sz]
        omega
      · rw [hF.sz] at hpos
        exact absurd hpos (Nat.lt_irrefl 0)
      · rw [hF.pid]
        exact hB.pid
    suffices hturn : Ledger trampoline c₀ s₀ held ⟨k', y.proc.set i p', y.nextpid + 1⟩ ∧
        Turn held y ⟨k', y.proc.set i p', y.nextpid + 1⟩ i from
      ⟨hturn.1, hturn.2, .inr ⟨rfl, hF.pid, hF.sz, pt, t, u, hproc⟩⟩
    refine h.turn hS hp (y.nextpid + 1) (fun x => ?_) (fun x => ?_)
      (fun x hx => hB.mem x (fun hs => hx (hspare x hs))) (.inr ⟨pt, t, u, hproc⟩)
    · have := hB.small x
      simp only [Books.small, List.count_nil] at this
      rw [hproc.small, hc.small]
      omega
    · have := hB.super x
      simp only [Books.super, List.count_nil] at this
      rw [hproc.super, hc.super]
      omega

/-- **The rest of the kernel** takes pages, gives them back and writes to those it has. -/
theorem hold (h : Ledger trampoline c₀ s₀ held y) (hS : Stock kend c₀ s₀)
    (hsmall : ∀ x, held'.count x + k'.freelist.count x = held.count x + y.k.freelist.count x)
    (hsuper : k'.superfreelist = y.k.superfreelist)
    (hmem : ∀ x, ¬ Covers (fun f => held.count f + y.k.freelist.count f) (fun _ => 0) x →
      k'.mem x = y.k.mem x) :
    Ledger trampoline c₀ s₀ held' { y with k := k' } ∧ ∀ j, Spared y { y with k := k' } j := by
  have hspared : ∀ j, Spared y { y with k := k' } j := by
    intro j
    refine ⟨rfl, fun p hp x hx => hmem x (hS.disjoint (fun f => ?_) (fun f => ?_) hx)⟩
    · have := (h.slot_le hp f).1
      omega
    · have := (h.slot_le hp f).2
      omega
  refine ⟨⟨fun x => ?_, fun x => ?_, fun j p hp => ?_⟩, hspared⟩
  · have h₁ := h.small x
    have h₂ := hsmall x
    simp only
    omega
  · simp only [hsuper]
    exact h.super x
  · rcases h.slots j p hp with hc | ⟨pt, t, u, hL⟩
    · exact .inl hc
    · exact .inr ⟨pt, t, u, hL.congr ((hspared j).mem p hp)⟩

end Ledger

end Xv6Labs.Super
