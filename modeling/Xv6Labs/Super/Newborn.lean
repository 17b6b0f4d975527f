import Xv6Labs.Super.Reclaim
import Xv6Labs.Super.Child

/-!
# The pages of a new process

`allocproc` takes the trapframe, the page of `usyscall` and the tables that reach them, or
it takes nothing. The three pages the kernel maps into every process stay where they are
for as long as the process lives (`Fixed.moves`), and the new page of `usyscall` holds the
process id.
-/

namespace Xv6Labs.Super

open Xv6Labs.Lib

variable {kend : Nat} {k k' k₁ : Kernel} {pt pt' : PageTable} {hand superhand : List Nat}
  {trampoline t u : Nat}

/-- The pages the kernel maps at the top of an address space. -/
structure Fixed (pt : PageTable) (trampoline t u : Nat) : Prop where
  trampoline : pt.ent 0 (UPAGES + 2) = PA2PTE trampoline { v := true, r := true, x := true }
  trapframe : pt.ent 0 (UPAGES + 1) = PA2PTE t { v := true, r := true, w := true }
  usyscall : pt.ent 0 UPAGES = PA2PTE u { v := true, r := true, u := true }

theorem Fixed.moves (h : Fixed pt trampoline t u)
    (hM : Moves kend ⟨k, pt, hand, superhand⟩ ⟨k', pt', hand, superhand⟩) :
    Fixed pt' trampoline t u := by
  constructor
  · rw [hM.high _ (by omega) (by simp only [h.trampoline]; rfl)]
    exact h.trampoline
  · rw [hM.high _ (by omega) (by simp only [h.trapframe]; rfl)]
    exact h.trapframe
  · rw [hM.high _ (by omega) (by simp only [h.usyscall]; rfl)]
    exact h.usyscall

theorem Fixed.top (h : Fixed pt trampoline t u) (hT : Tree pt) :
    tableAt pt 131071 = true := by
  have hslot : UPAGES / 512 = 131071 := by decide
  rw [← hslot]
  exact (hT.bot UPAGES (by rw [h.usyscall]; rfl)).1

theorem Kept.mappages_high (h : Kept kend ⟨k, pt, hand, superhand⟩) {q pa : Nat}
    {perm : Flags} {ret : Int} (hq : UPAGES ≤ q) (hs : perm.s = false)
    (hleaf : (PA2PTE pa perm).leaf = true)
    (hok : Super.mappages k pt (q * 4096) PGSIZE pa perm = .ok (k', pt', ret)) :
    Moves kend ⟨k, pt, hand, superhand⟩ ⟨k', pt', hand, superhand⟩ ∧
      (ret = -1 ∨ ret = 0 ∧ pt'.ent 0 q = PA2PTE pa { perm with v := true } ∧
        Shows pt pt' q (PA2PTE pa { perm with v := true })) := by
  obtain ⟨pt₁, hM, hseen, ⟨rfl, rfl⟩ | ⟨rfl, htab, hinv, rfl⟩⟩ := h.mappages_walk hok
  · exact ⟨hM, .inl rfl⟩
  · refine ⟨hM.trans (hM.kept.mapHigh hq htab hinv (fun _ => ⟨hs, hleaf⟩)), .inr ⟨rfl, ?_,
      hM.kept.tree.shows hseen htab hs hleaf⟩⟩
    exact PageTable.set_ent_self ..

/-! ## `proc_pagetable` -/

def Kernel.spare (k : Kernel) (x : Nat) : Prop :=
  (∃ f ∈ k.freelist, Block.has (f, PGSIZE) x) ∨
    ∃ f ∈ k.superfreelist, Block.has (f, SUPERPGSIZE) x

/-- The free pages are the same, and the bytes outside them too. -/
structure Untaken (k k' : Kernel) : Prop where
  small : ∀ x, k'.freelist.count x = k.freelist.count x
  super : ∀ x, k'.superfreelist.count x = k.superfreelist.count x
  mem : ∀ x, ¬ k.spare x → k'.mem x = k.mem x

structure Made (kend : Nat) (k k' : Kernel) (pt : PageTable) : Prop where
  kept : Kept kend ⟨k', pt, [], []⟩
  small : ∀ x, Books.small ⟨k', pt, [], []⟩ x = k.freelist.count x
  super : ∀ x, Books.super ⟨k', pt, [], []⟩ x = k.superfreelist.count x
  mem : ∀ x, ¬ k.spare x → k'.mem x = k.mem x

theorem Made.moves (h : Made kend k k₁ pt)
    (hM : Moves kend ⟨k₁, pt, [], []⟩ ⟨k', pt', [], []⟩) : Made kend k k' pt' := by
  refine ⟨hM.kept, fun x => (hM.small x).trans (h.small x),
    fun x => (hM.super x).trans (h.super x), fun x hx => ?_⟩
  rw [hM.mem x (fun ho => hx ?_), h.mem x hx]
  rcases ho with ⟨f, hf, hin⟩ | ⟨f, hf, hin⟩
  · rw [h.small] at hf
    exact .inl ⟨f, List.count_pos_iff.mp hf, hin⟩
  · rw [h.super] at hf
    exact .inr ⟨f, List.count_pos_iff.mp hf, hin⟩

theorem Made.untaken (h : Made kend k k₁ pt) (hR : Reclaimed ⟨k₁, pt, [], []⟩ k') :
    Untaken k k' := by
  refine ⟨fun x => ?_, fun x => ?_, fun x hx => ?_⟩
  · have := hR.small x
    rw [h.small] at this
    simpa using this
  · have := hR.super x
    rw [h.super] at this
    simpa using this
  · rw [hR.mem x (fun ho => hx ?_), h.mem x hx]
    rcases ho with ⟨f, hf, hin⟩ | ⟨f, hf, hin⟩
    · rw [h.small] at hf
      exact .inl ⟨f, List.count_pos_iff.mp hf, hin⟩
    · rw [h.super] at hf
      exact .inr ⟨f, List.count_pos_iff.mp hf, hin⟩

structure Kernel.Sorted (kend : Nat) (k : Kernel) : Prop where
  small : ∀ f ∈ k.freelist, SmallFrame kend f
  super : ∀ f ∈ k.superfreelist, SuperFrame kend f

theorem made_root (h : k.Sorted kend) {r : Nat} (hk : kalloc k = (some r, k₁)) :
    Made kend k { k₁ with mem := k₁.mem.fill r PGSIZE 0 } (.empty r) := by
  obtain ⟨hl, hsl, hm⟩ := kalloc_some hk
  have hr : SmallFrame kend r := h.small r (by rw [hl]; exact List.mem_cons_self)
  have hs : ∀ x, Books.small ⟨{ k₁ with mem := k₁.mem.fill r PGSIZE 0 }, .empty r, [], []⟩ x =
      k.freelist.count x := by
    intro x
    have htables : tableCount (.empty r) x = if r = x then 1 else 0 := by
      have htop : hits 512 (fun i => ((PageTable.empty r).ent 2 i).frame) x = 0 :=
        hits_none (fun i _ => rfl) x
      have hmid : hits 262144 (tablePage (.empty r)) x = 0 := hits_none (fun j _ => rfl) x
      unfold tableCount
      rw [htop, hmid]
      rfl
    have hpages : pageCount (.empty r) x = 0 := hits_none (fun q _ => rfl) x
    simp only [Books.small, htables, hpages, List.count_nil]
    rw [hl, List.count_cons]
    simp only [beq_iff_eq]
    omega
  have hS : ∀ x, Books.super ⟨{ k₁ with mem := k₁.mem.fill r PGSIZE 0 }, .empty r, [], []⟩ x =
      k.superfreelist.count x := by
    intro x
    have hsupers : superCount (.empty r) x = 0 := hits_none (fun j _ => rfl) x
    simp only [Books.super, hsupers, List.count_nil]
    rw [hsl]
    omega
  refine ⟨⟨(bare_empty hr).toTree, by simp [PageTable.empty], fun i hv => (by cases hv), rfl,
    fun x hx => ?_, fun x hx => ?_⟩, hs, hS, fun x hx => ?_⟩
  · rw [hs] at hx
    exact h.small x (List.count_pos_iff.mp hx)
  · rw [hS] at hx
    exact h.super x (List.count_pos_iff.mp hx)
  · have hout : ¬ Block.has (r, PGSIZE) x := fun hin =>
      hx (.inl ⟨r, by rw [hl]; exact List.mem_cons_self, hin⟩)
    show k₁.mem.fill r PGSIZE 0 x = k.mem x
    rw [Mem.fill_of_notMem hout, hm, Mem.fill_of_notMem hout]

/-- **`proc_pagetable`** makes a table with the three pages of the kernel out of free
pages, or takes nothing. -/
theorem proc_pagetable_made (h : k.Sorted kend) {o : Option PageTable}
    (hok : proc_pagetable kend k trampoline t u = .ok (k', o)) :
    (o = none ∧ Untaken k k') ∨
      ∃ pt, o = some pt ∧ Made kend k k' pt ∧ Fixed pt trampoline t u ∧ Layout pt 0 := by
  have htrampoline : TRAMPOLINE = (UPAGES + 2) * 4096 := by decide
  have htrapframe : TRAPFRAME = (UPAGES + 1) * 4096 := by decide
  unfold proc_pagetable uvmcreate at hok
  rcases hk : kalloc k with ⟨_ | r, k₀⟩
  · obtain ⟨rfl, -⟩ := kalloc_none hk
    simp only [hk, Except.ok.injEq, Prod.mk.injEq] at hok
    obtain ⟨rfl, rfl⟩ := hok
    exact .inl ⟨rfl, fun _ => rfl, fun _ => rfl, fun _ _ => rfl⟩
  have h₀ := made_root h hk
  simp only [hk, htrampoline, htrapframe, USYSCALL_eq] at hok
  split at hok
  · cases hok
  rename_i k₁ pt₁ ret₁ hmap₁
  obtain ⟨hM₁, hret₁⟩ := h₀.kept.mappages_high (by omega) rfl rfl hmap₁
  have h₁ := h₀.moves hM₁
  split at hok
  · split at hok
    · cases hok
    rename_i k₂ hfree
    simp only [Except.ok.injEq, Prod.mk.injEq] at hok
    obtain ⟨rfl, rfl⟩ := hok
    exact .inl ⟨rfl, h₁.untaken (h₁.kept.uvmfree (Nat.zero_le _) hfree)⟩
  rename_i hpos₁
  obtain ⟨-, he₁, hshow₁⟩ := hret₁.resolve_left (fun hh => hpos₁ (by omega))
  have htop₁ : tableAt pt₁ 131071 = true := by
    have hslot : (UPAGES + 2) / 512 = 131071 := by decide
    rw [← hslot]
    exact (h₁.kept.tree.bot (UPAGES + 2) (by simp only [he₁]; rfl)).1
  split at hok
  · cases hok
  rename_i k₂ pt₂ ret₂ hmap₂
  obtain ⟨hM₂, hret₂⟩ := h₁.kept.mappages_high (by omega) rfl rfl hmap₂
  have h₂ := h₁.moves hM₂
  have htop₂ := hM₂.table _ htop₁
  split at hok
  · split at hok
    · cases hok
    rename_i k₃ pt₃ hun
    obtain ⟨rfl, hK, -, hs, hS⟩ := h₂.kept.unmapHigh (by omega) (by omega) htop₂ hun
    split at hok
    · cases hok
    rename_i k₄ hfree
    simp only [Except.ok.injEq, Prod.mk.injEq] at hok
    obtain ⟨rfl, rfl⟩ := hok
    have h₃ : Made kend k k₃ pt₃ := ⟨hK, fun x => (hs x).trans (h₂.small x),
      fun x => (hS x).trans (h₂.super x), h₂.mem⟩
    exact .inl ⟨rfl, h₃.untaken (hK.uvmfree (Nat.zero_le _) hfree)⟩
  rename_i hpos₂
  obtain ⟨-, he₂, hshow₂⟩ := hret₂.resolve_left (fun hh => hpos₂ (by omega))
  split at hok
  · cases hok
  rename_i k₃ pt₃ ret₃ hmap₃
  obtain ⟨hM₃, hret₃⟩ := h₂.kept.mappages_high (by omega) rfl rfl hmap₃
  have h₃ := h₂.moves hM₃
  have htop₃ := hM₃.table _ htop₂
  split at hok
  · split at hok
    · cases hok
    rename_i k₄ pt₄ hun
    obtain ⟨rfl, hK, htop₄, hs, hS⟩ := h₃.kept.unmapHigh (by omega) (by omega) htop₃ hun
    split at hok
    · cases hok
    rename_i k₅ pt₅ hun'
    obtain ⟨rfl, hK', -, hs', hS'⟩ := hK.unmapHigh (by omega) (by omega) htop₄ hun'
    split at hok
    · cases hok
    rename_i k₆ hfree
    simp only [Except.ok.injEq, Prod.mk.injEq] at hok
    obtain ⟨rfl, rfl⟩ := hok
    have h₄ : Made kend k k₅ pt₅ :=
      ⟨hK', fun x => (hs' x).trans ((hs x).trans (h₃.small x)),
        fun x => (hS' x).trans ((hS x).trans (h₃.super x)), h₃.mem⟩
    exact .inl ⟨rfl, h₄.untaken (hK'.uvmfree (Nat.zero_le _) hfree)⟩
  rename_i hpos₃
  obtain ⟨-, he₃, hshow₃⟩ := hret₃.resolve_left (fun hh => hpos₃ (by omega))
  simp only [Except.ok.injEq, Prod.mk.injEq] at hok
  obtain ⟨rfl, rfl⟩ := hok
  refine .inr ⟨pt₃, rfl, h₃, ⟨?_, ?_, he₃⟩, fun q => ?_⟩
  · have h₁₂ : pt₂.ent 0 (UPAGES + 2) = pt₁.ent 0 (UPAGES + 2) :=
      hM₂.high _ (by omega) (by simp only [he₁]; rfl)
    have h₂₃ : pt₃.ent 0 (UPAGES + 2) = pt₂.ent 0 (UPAGES + 2) :=
      hM₃.high _ (by omega) (by simp only [h₁₂, he₁]; rfl)
    rw [h₂₃, h₁₂, he₁]
  · have h₂₃ : pt₃.ent 0 (UPAGES + 1) = pt₂.ent 0 (UPAGES + 1) :=
      hM₃.high _ (by omega) (by simp only [he₂]; rfl)
    rw [h₂₃, he₂]
  · have hnone : seen (.empty r) q = none := rfl
    rw [hshow₃ q, hshow₂ q, hshow₁ q, hnone]
    split_ifs
    · simp only [Option.isSome_some, true_iff]
      omega
    · simp only [Option.isSome_some, true_iff]
      omega
    · simp only [Option.isSome_some, true_iff]
      omega
    · simp only [Option.isSome_none, Bool.false_eq_true, false_iff]
      omega

/-! ## `freeproc` and `allocproc` -/

theorem kfree_optional {o : Option Nat} (hok : (match o with
      | some pa => kfree kend k pa
      | none => .ok k) = .ok k') :
    (∀ x, k'.freelist.count x = k.freelist.count x + if o = some x then 1 else 0) ∧
      k'.superfreelist = k.superfreelist ∧
      ∀ x, (∀ f, o = some f → ¬ Block.has (f, PGSIZE) x) → k'.mem x = k.mem x := by
  cases o with
  | none =>
      obtain rfl := Except.ok.inj hok
      exact ⟨fun x => by simp, rfl, fun _ _ => rfl⟩
  | some f =>
      obtain rfl := kfree_eq hok
      refine ⟨fun x => ?_, rfl, fun x hx => Mem.fill_of_notMem (hx f rfl)⟩
      rw [List.count_cons]
      simp only [beq_iff_eq, Option.some.injEq]

theorem freeproc_bare {p p' : Slot} (hnone : p.pagetable = none)
    (hok : freeproc kend k p = .ok (k', p')) :
    p'.Cleared ∧
      (∀ x, k'.freelist.count x = k.freelist.count x +
        (if p.trapframe = some x then 1 else 0) + if p.usyscall = some x then 1 else 0) ∧
      k'.superfreelist = k.superfreelist ∧
      ∀ x, (∀ f, p.trapframe = some f ∨ p.usyscall = some f → ¬ Block.has (f, PGSIZE) x) →
        k'.mem x = k.mem x := by
  unfold freeproc at hok
  split at hok
  · cases hok
  rename_i k₁ h₁
  obtain ⟨hs₁, hS₁, hm₁⟩ := kfree_optional h₁
  split at hok
  · cases hok
  rename_i k₂ h₂
  obtain ⟨hs₂, hS₂, hm₂⟩ := kfree_optional h₂
  simp only [hnone, Except.ok.injEq, Prod.mk.injEq] at hok
  obtain ⟨rfl, rfl⟩ := hok
  refine ⟨⟨rfl, rfl, rfl, rfl, rfl⟩, fun x => ?_, hS₂.trans hS₁, fun x hx => ?_⟩
  · rw [hs₂, hs₁]
  · rw [hm₂ x (fun f hf => hx f (.inr hf)), hm₁ x (fun f hf => hx f (.inl hf))]

/-- **`freeproc`** of a process: its pages are all on the free lists. -/
theorem Kept.freeproc {p p' : Slot} (h : Kept kend ⟨k, pt, [t, u], []⟩)
    (ht : p.trapframe = some t) (hu : p.usyscall = some u) (hpt : p.pagetable = some pt)
    (htop : tableAt pt 131071 = true) (hmax : p.sz ≤ 2 ^ 30)
    (hok : Super.freeproc kend k p = .ok (k', p')) :
    p'.Cleared ∧ (∀ x, k'.freelist.count x = Books.small ⟨k, pt, [t, u], []⟩ x) ∧
      (∀ x, k'.superfreelist.count x = Books.super ⟨k, pt, [t, u], []⟩ x) ∧
      ∀ x, ¬ Books.owns ⟨k, pt, [t, u], []⟩ x → k'.mem x = k.mem x := by
  unfold Super.freeproc at hok
  simp only [ht, hu, hpt] at hok
  split at hok
  · cases hok
  rename_i k₁ h₁
  have hM₁ := h.kfree h₁
  split at hok
  · cases hok
  rename_i k₂ h₂
  have hM := hM₁.trans (hM₁.kept.kfree h₂)
  split at hok
  · cases hok
  rename_i k₃ h₃
  have hR := hM.kept.proc_freepagetable htop hmax h₃
  simp only [Except.ok.injEq, Prod.mk.injEq] at hok
  obtain ⟨rfl, rfl⟩ := hok
  refine ⟨⟨rfl, rfl, rfl, rfl, rfl⟩, fun x => ?_, fun x => ?_, fun x hx => ?_⟩
  · rw [← hM.small, ← hR.small]
    simp
  · rw [← hM.super, ← hR.super]
    simp
  · rw [hR.mem x (fun ho => hx ((hM.owns x).mp ho)), hM.mem x hx]

def HoldsPid (mem : Mem) (u : Nat) (pid : BitVec 32) : Prop :=
  ∀ i < 4, mem (u + i) = (le32 pid).getD i 0

theorem holdsPid_store (mem : Mem) (u : Nat) (pid : BitVec 32) :
    HoldsPid (mem.store u (le32 pid)) u pid := by
  intro i hi
  have hlen : (le32 pid).length = 4 := by simp [le32]
  rw [Mem.store_of_mem (by omega), Nat.add_sub_cancel_left]

theorem HoldsPid.congr {mem mem' : Mem} {pid : BitVec 32} (h : HoldsPid mem u pid)
    (heq : ∀ x, Block.has (u, PGSIZE) x → mem' x = mem x) : HoldsPid mem' u pid := by
  intro i hi
  have hin : Block.has (u, PGSIZE) (u + i) := by
    simp only [Block.has, PGSIZE]
    omega
  rw [heq _ hin, h i hi]

/-- What `allocproc` has made of free pages. -/
structure Born (kend trampoline : Nat) (k k' : Kernel) (pt : PageTable) (t u : Nat) (pid : BitVec 32) :
    Prop where
  kept : Kept kend ⟨k', pt, [], []⟩
  fixed : Fixed pt trampoline t u
  small : ∀ x, (if t = x then 1 else 0) + (if u = x then 1 else 0) +
    Books.small ⟨k', pt, [], []⟩ x = k.freelist.count x
  super : ∀ x, Books.super ⟨k', pt, [], []⟩ x = k.superfreelist.count x
  mem : ∀ x, ¬ k.spare x → k'.mem x = k.mem x
  pid : HoldsPid k'.mem u pid

theorem SmallFrame.eq_of_has {f g x : Nat} (hf : SmallFrame kend f) (hg : SmallFrame kend g)
    (hx : Block.has (f, PGSIZE) x) (hx' : Block.has (g, PGSIZE) x) : f = g := by
  have h₁ := hf.aligned
  have h₂ := hg.aligned
  simp only [Block.has, PGSIZE] at hx hx'
  omega

theorem SuperFrame.eq_of_has {f g x : Nat} (hf : SuperFrame kend f) (hg : SuperFrame kend g)
    (hx : Block.has (f, SUPERPGSIZE) x) (hx' : Block.has (g, SUPERPGSIZE) x) : f = g := by
  have h₁ := hf.aligned
  have h₂ := hg.aligned
  simp only [Block.has, SUPERPGSIZE] at hx hx'
  omega

theorem SmallFrame.apart {f g x : Nat} (hf : SmallFrame kend f) (hg : SuperFrame kend g)
    (hx : Block.has (f, PGSIZE) x) : ¬ Block.has (g, SUPERPGSIZE) x := by
  have h₁ := hf.hi
  have h₂ := hf.aligned
  have h₃ := hg.ram
  have hsplit : SPLIT % 4096 = 0 := by decide
  simp only [Block.has, PGSIZE, SUPERPGSIZE] at hx ⊢
  omega

theorem Kernel.Sorted.not_spare (h : k.Sorted kend) (hnd : k.freelist.Nodup) {r x : Nat}
    (hk : kalloc k = (some r, k')) (hx : Block.has (r, PGSIZE) x) : ¬ k'.spare x := by
  obtain ⟨hl, hsl, -⟩ := kalloc_some hk
  have hr : SmallFrame kend r := h.small r (by rw [hl]; exact List.mem_cons_self)
  rintro (⟨f, hf, hin⟩ | ⟨f, hf, hin⟩)
  · have hsf : SmallFrame kend f := h.small f (by rw [hl]; exact List.mem_cons_of_mem _ hf)
    obtain rfl := hr.eq_of_has hsf hx hin
    rw [hl, List.nodup_cons] at hnd
    exact hnd.1 hf
  · rw [hsl] at hf
    exact hr.apart (h.super f hf) hx hin

structure Takes (kend : Nat) (k k' : Kernel) (r : Nat) : Prop where
  frame : SmallFrame kend r
  sorted : k'.Sorted kend
  nodup : k'.freelist.Nodup
  small : ∀ x, k.freelist.count x = k'.freelist.count x + if r = x then 1 else 0
  super : k'.superfreelist = k.superfreelist
  mem : ∀ x, ¬ k.spare x → k'.mem x = k.mem x
  spare : ∀ x, k'.spare x → k.spare x
  inside : ∀ x, Block.has (r, PGSIZE) x → k.spare x ∧ ¬ k'.spare x

theorem Kernel.Sorted.takes (h : k.Sorted kend) (hnd : k.freelist.Nodup) {r : Nat}
    (hk : kalloc k = (some r, k')) : Takes kend k k' r := by
  obtain ⟨hl, hsl, hm⟩ := kalloc_some hk
  have hr : r ∈ k.freelist := by
    rw [hl]
    exact List.mem_cons_self
  have hrest : ∀ f ∈ k'.freelist, f ∈ k.freelist := by
    intro f hf
    rw [hl]
    exact List.mem_cons_of_mem _ hf
  refine ⟨h.small r hr, ⟨fun f hf => h.small f (hrest f hf), fun f hf => ?_⟩, ?_,
    fun x => ?_, hsl, fun x hx => ?_, fun x hx => ?_,
    fun x hx => ⟨.inl ⟨r, hr, hx⟩, h.not_spare hnd hk hx⟩⟩
  · rw [hsl] at hf
    exact h.super f hf
  · rw [hl, List.nodup_cons] at hnd
    exact hnd.2
  · rw [hl, List.count_cons]
    simp only [beq_iff_eq]
  · rw [hm]
    exact Mem.fill_of_notMem (fun hin => hx (.inl ⟨r, hr, hin⟩))
  · rcases hx with ⟨f, hf, hin⟩ | ⟨f, hf, hin⟩
    · exact .inl ⟨f, hrest f hf, hin⟩
    · rw [hsl] at hf
      exact .inr ⟨f, hf, hin⟩

/-- **`allocproc`, once it has a slot**, fills it or takes nothing. -/
theorem allocprocFound_born {forkret : Nat} {pid : BitVec 32} {p p' : Slot} {ok : Bool} (h : k.Sorted kend)
    (hnd : k.freelist.Nodup) (hp : p.Cleared)
    (hok : allocprocFound kend trampoline forkret k p pid = .ok (k', p', ok)) :
    (ok = false ∧ p'.Cleared ∧ Untaken k k') ∨
      ok = true ∧ ∃ pt t u, p'.Filled pt t u pid ∧ Born kend trampoline k k' pt t u pid := by
  obtain ⟨-, htf, hus, hpt, hsz⟩ := hp
  unfold allocprocFound at hok
  rcases hk : kalloc k with ⟨_ | t, k₁⟩
  · obtain ⟨rfl, -⟩ := kalloc_none hk
    simp only [hk] at hok
    split at hok
    · cases hok
    rename_i hfree
    obtain ⟨hc, hs, hS, hm⟩ := freeproc_bare (by exact hpt) hfree
    simp only [Except.ok.injEq, Prod.mk.injEq] at hok
    obtain ⟨rfl, rfl, rfl⟩ := hok
    refine .inl ⟨rfl, hc, fun x => ?_, fun x => by rw [hS], fun x hx => hm x ?_⟩
    · rw [hs]
      simp [hus]
    · rintro f (hf | hf)
      · cases hf
      · rw [hus] at hf
        cases hf
  have hT := h.takes hnd hk
  simp only [hk] at hok
  rcases hk₁ : kalloc k₁ with ⟨_ | u, k₂⟩
  · obtain ⟨rfl, -⟩ := kalloc_none hk₁
    simp only [hk₁] at hok
    split at hok
    · cases hok
    rename_i hfree
    obtain ⟨hc, hs, hS, hm⟩ := freeproc_bare (by exact hpt) hfree
    simp only [Except.ok.injEq, Prod.mk.injEq] at hok
    obtain ⟨rfl, rfl, rfl⟩ := hok
    refine .inl ⟨rfl, hc, fun x => ?_, fun x => by rw [hS, hT.super], fun x hx => ?_⟩
    · rw [hs, hT.small]
      simp
    · rw [hm x (fun f hf hin => ?_), hT.mem x hx]
      rcases hf with hf | hf
      · obtain rfl := Option.some.inj hf
        exact hx (hT.inside x hin).1
      · cases hf
  have hU := hT.sorted.takes hT.nodup hk₁
  simp only [hk₁] at hok
  -- the page of `usyscall` is in no free page, so writing it changes none
  have hsorted : Kernel.Sorted kend { k₂ with mem := k₂.mem.store u (le32 pid) } :=
    ⟨hU.sorted.small, hU.sorted.super⟩
  have hlen : (le32 pid).length = 4 := by simp [le32]
  have hstore : ∀ x, ¬ k.spare x → (k₂.mem.store u (le32 pid)) x = k.mem x := by
    intro x hx
    rw [Mem.store_of_notMem (fun hin => hx (hT.spare x (hU.inside x ?_).1)),
      hU.mem x (fun hs => hx (hT.spare x hs)), hT.mem x hx]
    simp only [Block.has, PGSIZE]
    omega
  split at hok
  · cases hok
  · rename_i k₃ htable
    obtain ⟨-, hN⟩ | ⟨pt, hsome, -⟩ := proc_pagetable_made hsorted htable
    swap
    · cases hsome
    split at hok
    · cases hok
    rename_i hfree
    obtain ⟨hc, hs, hS, hm⟩ := freeproc_bare rfl hfree
    simp only [Except.ok.injEq, Prod.mk.injEq] at hok
    obtain ⟨rfl, rfl, rfl⟩ := hok
    refine .inl ⟨rfl, hc, fun x => ?_, fun x => ?_, fun x hx => ?_⟩
    · rw [hs, hN.small, hT.small, hU.small]
      simp only [Option.some.injEq]
      omega
    · rw [hS, hN.super]
      show k₂.superfreelist.count x = _
      rw [hU.super, hT.super]
    · rw [hm x (fun f hf hin => ?_), hN.mem x ?_]
      · exact hstore x hx
      · exact fun hs => hx (hT.spare x (hU.spare x hs))
      · rcases hf with hf | hf
        · obtain rfl := Option.some.inj hf
          exact hx (hT.inside x hin).1
        · obtain rfl := Option.some.inj hf
          exact hx (hT.spare x (hU.inside x hin).1)
  · rename_i k₃ pt htable
    obtain ⟨hnone, -⟩ | ⟨pt', hsome, hM, hF, -⟩ := proc_pagetable_made hsorted htable
    · cases hnone
    obtain rfl := Option.some.inj hsome
    simp only [Except.ok.injEq, Prod.mk.injEq] at hok
    obtain ⟨rfl, rfl, rfl⟩ := hok
    refine .inr ⟨rfl, pt, t, u, ⟨rfl, rfl, rfl, rfl, rfl, hsz⟩, hM.kept, hF, fun x => ?_,
      fun x => ?_, fun x hx => ?_, (holdsPid_store k₂.mem u pid).congr (fun x hx => hM.mem x ?_)⟩
    · have hs := hM.small x
      change _ = k₂.freelist.count x at hs
      rw [hs, hT.small, hU.small]
      omega
    · rw [hM.super]
      show k₂.superfreelist.count x = _
      rw [hU.super, hT.super]
    · rw [hM.mem x (fun hs => hx (hT.spare x (hU.spare x hs)))]
      exact hstore x hx
    · exact (hU.inside x hx).2

end Xv6Labs.Super
