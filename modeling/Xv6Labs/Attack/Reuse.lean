import Xv6Labs.Lib.Holds
import Xv6Labs.Lib.Run
import Xv6Labs.Riscv

/-!
# Pages that are not erased

`kalloc.c` and `uvmalloc` with the `memset`s taken out. The free list is threaded
through the pages, so a page that is given back loses its first eight bytes to the link and
keeps the rest. `Machine` is the allocator with its users: a page is held from `kalloc` to
`kfree`, and only who holds it writes into it.

A page comes back when the pages given back after it are taken again. The counter that the
kernel prints shows when this is: `allocated_pages` gets higher than it was after the
`kfree`. That is what `attack` counts on.
-/

namespace Xv6Labs.Attack

open Xv6Labs.Lib

/-! ## The code -/

inductive Line where
  | taken (n : Int) (r : Nat)
  | given (n : Int) (pa : Nat)
deriving DecidableEq, Repr

structure Kmem where
  /-- a pointer; the links are in `mem` -/
  freelist : Nat
  mem : Mem
  /-- an `int`, and no more than the pages there are -/
  allocated_pages : Int
  has_record : Int
  out : List Line

def kfree (kend : Nat) (k : Kmem) (pa : Nat) : Except String Kmem :=
  if pa % PGSIZE ≠ 0 ∨ pa < kend ∨ PHYSTOP ≤ pa then .error "kfree"
  else
    let k := { k with mem := k.mem.store pa (le64 k.freelist), freelist := pa }
    if k.has_record = 1 then
      let n := k.allocated_pages - 1
      .ok { k with allocated_pages := n, out := k.out ++ [.given n pa] }
    else .ok k

/-- `mem` is 0 when there is no page; that call is counted too. -/
def kalloc (k : Kmem) : Nat × Kmem :=
  let r := k.freelist
  let k :=
    if k.has_record = 1 then
      let n := k.allocated_pages + 1
      { k with allocated_pages := n, out := k.out ++ [.taken n r] }
    else k
  if r ≠ 0 then (r, { k with freelist := k.mem.load64 r }) else (r, k)

structure Tables (τ : Type*) where
  /-- the page that is mapped at a page address -/
  look : τ → Nat → Option Nat
  /-- the level-0 table is there, and its entry is not valid -/
  Ready : τ → Nat → Prop
  mappages : Kmem → τ → Nat → Nat → Flags → Except String (Kmem × τ × Int)
  uvmdealloc : Kmem → τ → Nat → Nat → Except String (Kmem × τ)

/-- `mappages` of one page that needs no new table. -/
def Tables.Maps {τ : Type*} (T : Tables τ) : Prop :=
  ∀ k pt a pa perm, T.Ready pt a → ∃ pt', T.mappages k pt a pa perm = .ok (k, pt', 0) ∧
    T.look pt' a = some pa ∧
    ∀ b, b ≠ a → T.look pt' b = T.look pt b ∧ (T.Ready pt b → T.Ready pt' b)

section Uvmalloc

variable {τ : Type*} (T : Tables τ) (kend : Nat)

def uvmallocLoop (oldsz newsz : Nat) (perm : Flags) (a : Nat) (k : Kmem) (pt : τ) :
    Except String (Kmem × τ × Nat) :=
  if a < newsz then
    let (mem, k) := kalloc k
    if mem = 0 then
      match T.uvmdealloc k pt a oldsz with
      | .error e => .error e
      | .ok (k, pt) => .ok (k, pt, 0)
    else
      match T.mappages k pt a mem perm with
      | .error e => .error e
      | .ok (k, pt, ret) =>
          if ret ≠ 0 then
            match kfree kend k mem with
            | .error e => .error e
            | .ok k =>
                match T.uvmdealloc k pt a oldsz with
                | .error e => .error e
                | .ok (k, pt) => .ok (k, pt, 0)
          else uvmallocLoop oldsz newsz perm (a + PGSIZE) k pt
  else .ok (k, pt, newsz)
termination_by newsz - a
decreasing_by
  unfold PGSIZE
  omega

/-- `xperm` comes with `PTE_R` and `PTE_U`. -/
def uvmalloc (k : Kmem) (pt : τ) (oldsz newsz : Nat) (xperm : Flags) :
    Except String (Kmem × τ × Nat) :=
  if newsz < oldsz then .ok (k, pt, oldsz)
  else
    let oldsz := PGROUNDUP oldsz
    uvmallocLoop T kend oldsz newsz { xperm with r := true, u := true } oldsz k pt

end Uvmalloc

/-! ## The allocator and its users -/

structure Machine where
  k : Kmem
  /-- the pages somebody holds -/
  held : List Nat

inductive Event where
  | kalloc
  | kfree (pa : Nat)
  /-- who holds the page writes into it -/
  | store (pa off : Nat) (bs : Bytes)
  /-- `has_record = 1` in `main` -/
  | record
deriving DecidableEq, Repr

inductive Step (kend : Nat) : Machine → Event → Machine → Prop
  | kalloc {m : Machine} {r : Nat} {k : Kmem} (h : Attack.kalloc m.k = (r, k)) :
      Step kend m .kalloc ⟨k, if r = 0 then m.held else r :: m.held⟩
  | kfree {m : Machine} {pa : Nat} {k : Kmem} (hpa : pa ∈ m.held)
      (h : Attack.kfree kend m.k pa = .ok k) : Step kend m (.kfree pa) ⟨k, m.held.erase pa⟩
  | store {m : Machine} {pa off : Nat} {bs : Bytes} (hpa : pa ∈ m.held)
      (hfit : off + bs.length ≤ 4096) :
      Step kend m (.store pa off bs)
        ⟨{ m.k with mem := m.k.mem.store (pa + off) bs }, m.held⟩
  | record {m : Machine} : Step kend m .record ⟨{ m.k with has_record := 1 }, m.held⟩

structure Page (kend f : Nat) : Prop where
  aligned : f % 4096 = 0
  ge : kend ≤ f
  lt : f < PHYSTOP

/-- Before `freerange`, which gives every page to `kfree`. -/
structure Boot (kend : Nat) (m : Machine) : Prop where
  pos : 0 < kend
  freelist : m.k.freelist = 0
  nodup : m.held.Nodup
  pages : ∀ f ∈ m.held, Page kend f

/-! ## The free list -/

/-- `l` is the free list. -/
structure Inv (kend : Nat) (m : Machine) (l : List Nat) : Prop where
  pos : 0 < kend
  chain : Chain m.k.mem m.k.freelist l
  nodup : (l ++ m.held).Nodup
  pages : ∀ f ∈ l ++ m.held, Page kend f

variable {kend f g pa off x : Nat} {m m' : Machine} {k : Kmem} {l : List Nat} {e : Event}

theorem Page.ne_zero (h : Page kend f) (hpos : 0 < kend) : f ≠ 0 :=
  Nat.ne_of_gt (Nat.lt_of_lt_of_le hpos h.ge)

theorem Page.apart (h : Page kend f) (h' : Page kend g) (hne : f ≠ g) (h₁ : f ≤ x)
    (h₂ : x < f + 4096) : ¬ (g ≤ x ∧ x < g + 4096) := by
  have := h.aligned
  have := h'.aligned
  omega

theorem Boot.inv (h : Boot kend m) : Inv kend m [] where
  pos := h.pos
  chain := by
    rw [h.freelist]
    exact .nil
  nodup := by
    rw [List.nil_append]
    exact h.nodup
  pages := by
    rw [List.nil_append]
    exact h.pages

theorem kfree_eq (h : kfree kend m.k pa = .ok k) :
    k.mem = m.k.mem.store pa (le64 m.k.freelist) ∧ k.freelist = pa ∧
      k.has_record = m.k.has_record ∧
      k.allocated_pages = m.k.allocated_pages - (if m.k.has_record = 1 then 1 else 0) := by
  unfold kfree at h
  split at h
  · cases h
  · simp only at h
    split at h <;> obtain rfl := Except.ok.inj h <;> simp_all

theorem kalloc_nil (h : k.freelist = 0) : ∃ k', kalloc k = (0, k') ∧ k'.mem = k.mem ∧
    k'.freelist = 0 ∧ k'.has_record = k.has_record ∧
    k'.allocated_pages = k.allocated_pages + (if k.has_record = 1 then 1 else 0) := by
  unfold kalloc
  split <;> simp_all

theorem kalloc_cons (h : k.freelist = f) (hf : f ≠ 0) : ∃ k', kalloc k = (f, k') ∧
    k'.mem = k.mem ∧ k'.freelist = k.mem.load64 f ∧ k'.has_record = k.has_record ∧
    k'.allocated_pages = k.allocated_pages + (if k.has_record = 1 then 1 else 0) := by
  unfold kalloc
  split <;> simp_all

theorem Inv.head_lt (h : Inv kend m l) : m.k.freelist < 2 ^ 64 := by
  have hhead := h.chain.head_lt (show 0 < PHYSTOP by decide) (fun r hr =>
    (h.pages r (List.mem_append_left _ hr)).lt)
  exact Nat.lt_trans hhead (by decide)

theorem link_fits (a : Nat) : 0 + (le64 a).length ≤ 4096 := by
  rw [length_le64]
  decide

theorem Inv.chain_store (h : Inv kend m l) (hpa : pa ∈ m.held) {off : Nat} {bs : Bytes}
    (hfit : off + bs.length ≤ 4096) :
    Chain (m.k.mem.store (pa + off) bs) m.k.freelist l := by
  refine h.chain.congr (fun r hr x h₁ h₂ => Mem.store_of_notMem ?_)
  have hne : r ≠ pa := by
    rintro rfl
    exact (List.nodup_append.mp h.nodup).2.2 r hr r hpa rfl
  have hapart := (h.pages r (List.mem_append_left _ hr)).apart
    (h.pages pa (List.mem_append_right _ hpa)) hne h₁ (by omega)
  omega

theorem step_kalloc (hs : Step kend m .kalloc m') :
    (Attack.kalloc m.k).2 = m'.k ∧ m'.held =
      if (Attack.kalloc m.k).1 = 0 then m.held else (Attack.kalloc m.k).1 :: m.held := by
  cases hs with
  | kalloc h =>
      rw [h]
      exact ⟨rfl, rfl⟩

/-- **`kalloc` takes the page on top.** -/
theorem Inv.kalloc (h : Inv kend m l) (hs : Step kend m .kalloc m') :
    ∃ l', Inv kend m' l' ∧ m'.k.mem = m.k.mem ∧ m'.k.has_record = m.k.has_record ∧
      m'.k.allocated_pages =
        m.k.allocated_pages + (if m.k.has_record = 1 then 1 else 0) ∧
      (l = [] ∧ l' = [] ∨ ∃ r, l = r :: l' ∧ Attack.kalloc m.k = (r, m'.k)) := by
  obtain ⟨hk, hheld⟩ := step_kalloc hs
  have hchain := h.chain
  generalize hhead : m.k.freelist = head at hchain
  cases hchain with
  | nil =>
      obtain ⟨k', hk', hmem, hfree, hrec, hcount⟩ := kalloc_nil hhead
      rw [hk', if_pos rfl] at hheld
      rw [hk'] at hk
      subst hk
      refine ⟨[], ⟨h.pos, ?_, by rw [hheld]; exact h.nodup, by rw [hheld]; exact h.pages⟩,
        hmem, hrec, hcount, .inl ⟨rfl, rfl⟩⟩
      rw [hfree]
      exact .nil
  | @cons _ rest hr hrest =>
      obtain ⟨k', hk', hmem, hfree, hrec, hcount⟩ := kalloc_cons hhead hr
      rw [hk', if_neg hr] at hheld
      rw [hk'] at hk
      subst hk
      have hperm : (head :: rest ++ m.held).Perm (rest ++ head :: m.held) :=
        List.perm_middle.symm
      refine ⟨rest, ⟨h.pos, ?_, ?_, ?_⟩, hmem, hrec, hcount, .inr ⟨head, rfl, hk'⟩⟩
      · rw [hfree, hmem]
        exact hrest
      · rw [hheld]
        exact hperm.nodup_iff.mp h.nodup
      · rw [hheld]
        exact fun f hf => h.pages f (hperm.mem_iff.mpr hf)

/-- **`kfree` puts a page on top.** -/
theorem Inv.kfree (h : Inv kend m l) (hs : Step kend m (.kfree pa) m') :
    Inv kend m' (pa :: l) ∧ pa ∈ m.held ∧
      m'.k.mem = m.k.mem.store pa (le64 m.k.freelist) ∧
      m'.k.has_record = m.k.has_record ∧
      m'.k.allocated_pages =
        m.k.allocated_pages - (if m.k.has_record = 1 then 1 else 0) := by
  obtain _ | ⟨hpa, hk⟩ := hs
  obtain ⟨hmem, hfree, hrec, hcount⟩ := kfree_eq hk
  have hpage := h.pages pa (List.mem_append_right _ hpa)
  have hperm : (l ++ m.held).Perm (pa :: l ++ m.held.erase pa) :=
    ((List.perm_cons_erase hpa).append_left l).trans List.perm_middle
  refine ⟨⟨h.pos, ?_, hperm.nodup_iff.mp h.nodup, fun f hf => ?_⟩, hpa, hmem, hrec, hcount⟩
  · rw [hfree, hmem]
    refine .cons (hpage.ne_zero h.pos) ?_
    rw [Mem.load64_store _ _ h.head_lt]
    exact h.chain_store hpa (link_fits _)
  · exact h.pages f (hperm.mem_iff.mpr hf)

theorem Inv.store {bs : Bytes} (h : Inv kend m l) (hs : Step kend m (.store pa off bs) m') :
    Inv kend m' l ∧ pa ∈ m.held ∧ off + bs.length ≤ 4096 ∧
      m'.k = { m.k with mem := m.k.mem.store (pa + off) bs } := by
  obtain _ | _ | ⟨hpa, hfit⟩ := hs
  exact ⟨⟨h.pos, h.chain_store hpa hfit, h.nodup, h.pages⟩, hpa, hfit, rfl⟩

/-- **The free list over a run.** -/
theorem Inv.run {es : List Event} (h : Inv kend m l) (hr : Run (Step kend) m es m') :
    ∃ l', Inv kend m' l' := by
  refine hr.invariant (I := fun m => ∃ l, Inv kend m l) ?_ ⟨l, h⟩
  rintro m e m' ⟨l, h⟩ hs
  cases e with
  | kalloc =>
      obtain ⟨l', h', -⟩ := h.kalloc hs
      exact ⟨l', h'⟩
  | kfree pa => exact ⟨_, (h.kfree hs).1⟩
  | store pa off bs => exact ⟨_, (h.store hs).1⟩
  | record =>
      obtain ⟨⟩ := hs
      exact ⟨l, h.pos, h.chain, h.nodup, h.pages⟩

/-! ## A page that was given back -/

/-- The page `f` lies under `top`, as `mem` has it. `v` is the count when it was on top. -/
structure Buried (kend f : Nat) (v : Int) (mem : Mem) (m : Machine) (top rest : List Nat) :
    Prop where
  inv : Inv kend m (top ++ f :: rest)
  count : (top.length : Int) = v - m.k.allocated_pages
  record : m.k.has_record = 1
  bytes : ∀ x, f ≤ x → x < f + 4096 → m.k.mem x = mem x

variable {v : Int} {mem : Mem} {top rest : List Nat}

theorem Buried.store (h : Buried kend f v mem m top rest) (hpa : pa ∈ m.held) {bs : Bytes}
    (hfit : off + bs.length ≤ 4096) (h₁ : f ≤ x) (h₂ : x < f + 4096) :
    m.k.mem.store (pa + off) bs x = mem x := by
  have hf : f ∈ top ++ f :: rest := List.mem_append_right _ List.mem_cons_self
  have hne : f ≠ pa := by
    rintro rfl
    exact (List.nodup_append.mp h.inv.nodup).2.2 f hf f hpa rfl
  have hapart := (h.inv.pages f (List.mem_append_left _ hf)).apart
    (h.inv.pages pa (List.mem_append_right _ hpa)) hne h₁ h₂
  rw [Mem.store_of_notMem (by omega)]
  exact h.bytes x h₁ h₂

/-- **One step**, as long as the count does not exceed `v`: the page stays where it is,
only the pile on it changes. -/
theorem Buried.step (h : Buried kend f v mem m top rest) (hs : Step kend m e m')
    (hle : m'.k.allocated_pages ≤ v) : ∃ top', Buried kend f v mem m' top' rest := by
  have hcount := h.count
  cases e with
  | kalloc =>
      obtain ⟨l', hI, hmem, hrec, hc, hl⟩ := h.inv.kalloc hs
      rw [if_pos h.record] at hc
      have hbytes : ∀ x, f ≤ x → x < f + 4096 → m'.k.mem x = mem x := by
        rw [hmem]
        exact h.bytes
      cases top with
      | nil =>
          rw [List.length_nil] at hcount
          omega
      | cons t top =>
          rcases hl with ⟨hl, -⟩ | ⟨r, hl, -⟩
          · cases hl
          · obtain ⟨-, rfl⟩ := List.cons.inj hl
            rw [List.length_cons] at hcount
            exact ⟨top, hI, by omega, hrec.trans h.record, hbytes⟩
  | kfree pa =>
      obtain ⟨hI, hpa, hmem, hrec, hc⟩ := h.inv.kfree hs
      rw [if_pos h.record] at hc
      refine ⟨pa :: top, hI, ?_, hrec.trans h.record, fun x h₁ h₂ => ?_⟩
      · rw [List.length_cons]
        omega
      · rw [hmem]
        exact h.store hpa (link_fits _) h₁ h₂
  | store pa off bs =>
      obtain ⟨hI, hpa, hfit, hk⟩ := h.inv.store hs
      refine ⟨top, hI, ?_, ?_, fun x h₁ h₂ => ?_⟩
      · rw [hk]
        exact hcount
      · rw [hk]
        exact h.record
      · rw [hk]
        exact h.store hpa hfit h₁ h₂
  | record =>
      obtain ⟨⟩ := hs
      exact ⟨top, ⟨h.inv.pos, h.inv.chain, h.inv.nodup, h.inv.pages⟩, hcount, rfl, h.bytes⟩

/-- **A run** that keeps the count low. -/
theorem Buried.run {es : List Event} (h : Buried kend f v mem m top rest)
    (hlow : Always (Step kend) (fun m => m.k.allocated_pages ≤ v) m es)
    (hr : Run (Step kend) m es m') : ∃ top', Buried kend f v mem m' top' rest := by
  induction hr generalizing top with
  | nil m => exact ⟨top, h⟩
  | cons hs _ ih =>
      obtain ⟨top', h'⟩ := h.step hs (hlow.2 _ hs).head
      exact ih h' (hlow.2 _ hs)

section Uvmalloc

variable {τ : Type*} {T : Tables τ} {pt pt' : τ} {k' : Kmem} {oldsz newsz a : Nat}
  {perm : Flags}

end Uvmalloc

def written : Machine where
  k := ⟨0, Mem.store (fun _ => 0) (0x87F28000 + 32) [97, 98, 0], 0, 1, []⟩
  held := [0x87F28000]

def freed : Machine where
  k := ⟨0x87F28000, written.k.mem.store 0x87F28000 (le64 0), -1, 1, [.given (-1) 0x87F28000]⟩
  held := []

end Xv6Labs.Attack
