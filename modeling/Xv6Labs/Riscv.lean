import Mathlib.Logic.Function.Basic
import Mathlib.Tactic.Ring

/-!
# RISC-V Sv39 as the kernels see it

Page and address constants of `riscv.h` and `memlayout.h`, page-table entries
and page tables.

A page-table entry is its frame number and its ten flag bits; bits 8 and 9 are
the software bits the superpage lab (`PTE_S`) and the copy-on-write lab
(`PTE_COW`) use.

A page table is stored by path. The entry that `walk` meets at `level` for
`va` is `pagetable[PX(level, va)]` in the table found through the levels
above, so it is determined by `level` and the bits of `va` from
`PXSHIFT(level)` up, `vpn level va`. Tables come from the page allocator and
are never shared, so two paths never lead to one entry. `tables` lists the
pages that hold the tables themselves, the root last.
-/

namespace Xv6Labs

/-! ## Constants -/

def PGSIZE : Nat := 4096

/-- 2 MB: what a level-1 leaf maps. -/
def SUPERPGSIZE : Nat := 2097152

/-- `1L << (9 + 9 + 9 + 12 - 1)`. -/
def MAXVA : Nat := 274877906944

def KERNBASE : Nat := 2147483648

/-- `KERNBASE + 128*1024*1024`. -/
def PHYSTOP : Nat := 2281701376

def PGROUNDUP (sz : Nat) : Nat := (sz + 4095) / 4096 * 4096

def PGROUNDDOWN (a : Nat) : Nat := a / 4096 * 4096

def PXSHIFT (level : Nat) : Nat := 12 + 9 * level

/-- The bits of `va` that select the entry at `level`, all levels above it
included: `PX(level, va)` is this modulo 512. -/
def vpn (level va : Nat) : Nat := va / 2 ^ PXSHIFT level

/-- Number of entries user addresses can reach at `level`. -/
def entries (level : Nat) : Nat := vpn level MAXVA

theorem vpn_zero (va : Nat) : vpn 0 va = va / 4096 := rfl

theorem vpn_one (va : Nat) : vpn 1 va = va / 2097152 := rfl

theorem vpn_two (va : Nat) : vpn 2 va = va / 1073741824 := rfl

theorem vpn_succ (level va : Nat) : vpn (level + 1) va = vpn level va / 512 := by
  unfold vpn PXSHIFT
  rw [Nat.div_div_eq_div_mul]
  congr 1
  ring

theorem vpn_lt_entries {va : Nat} (h : va < MAXVA) : vpn 0 va < entries 0 := by
  simp only [vpn_zero, entries, MAXVA] at *
  omega

/-! ## Page-table entries -/

/-- The ten flag bits, `PTE_FLAGS(pte)`. -/
structure Flags where
  v : Bool := false
  r : Bool := false
  w : Bool := false
  x : Bool := false
  u : Bool := false
  /-- global -/
  g : Bool := false
  /-- accessed -/
  a : Bool := false
  /-- dirty -/
  d : Bool := false
  /-- bit 8: `PTE_S` of the superpage lab -/
  s : Bool := false
  /-- bit 9: `PTE_COW` of the copy-on-write lab -/
  cow : Bool := false
deriving DecidableEq, Repr

structure Pte extends Flags where
  ppn : Nat := 0
deriving DecidableEq, Repr

/-- `*pte = 0`. -/
def Pte.zero : Pte := {}

/-- `PA2PTE(pa) | flags`. -/
def PA2PTE (pa : Nat) (flags : Flags) : Pte := { flags with ppn := pa / 4096 }

def PTE2PA (pte : Pte) : Nat := pte.ppn * 4096

/-- `PTE_LEAF(pte)`: some of R, W, X. -/
def Pte.leaf (pte : Pte) : Bool := pte.r || pte.w || pte.x

def Pte.frame (pte : Pte) : Option Nat :=
  if pte.v then some (PTE2PA pte) else none

@[simp] theorem Pte.frame_zero : Pte.zero.frame = none := rfl

theorem Pte.frame_of_v {pte : Pte} (h : pte.v = true) :
    pte.frame = some (PTE2PA pte) := if_pos h

theorem frame_none {e : Pte} (h : e.v = false) : e.frame = none := by
  unfold Pte.frame
  rw [h, if_neg Bool.false_ne_true]

theorem Pte.frame_eq_some {pte : Pte} {pa : Nat} :
    pte.frame = some pa ↔ pte.v = true ∧ PTE2PA pte = pa := by
  unfold Pte.frame
  split <;> simp_all

@[simp] theorem PA2PTE_toFlags (pa : Nat) (flags : Flags) :
    (PA2PTE pa flags).toFlags = flags := rfl

theorem PTE2PA_PA2PTE {pa : Nat} (h : pa % 4096 = 0) (flags : Flags) :
    PTE2PA (PA2PTE pa flags) = pa := by
  show pa / 4096 * 4096 = pa
  omega

/-! ## Page tables -/

structure PageTable where
  /-- pages holding the tables, the root last -/
  tables : List Nat
  /-- the entry at a level on a path -/
  ent : Nat → Nat → Pte

namespace PageTable

def empty (root : Nat) : PageTable where
  tables := [root]
  ent := fun _ _ => .zero

def set (pt : PageTable) (level k : Nat) (e : Pte) : PageTable :=
  { pt with ent := fun l j => if l = level ∧ j = k then e else pt.ent l j }

/-- A zeroed page `r` becomes the table below the entry at `level` on path `k`,
which points at it with `flags`. -/
def newTable (pt : PageTable) (level k r : Nat) (flags : Flags) : PageTable where
  tables := r :: pt.tables
  ent := fun l j =>
    if l = level ∧ j = k then PA2PTE r flags
    else if l + 1 = level ∧ j / 512 = k then .zero
    else pt.ent l j

@[simp] theorem set_tables (pt : PageTable) (level k : Nat) (e : Pte) :
    (pt.set level k e).tables = pt.tables := rfl

@[simp] theorem set_ent_self (pt : PageTable) (level k : Nat) (e : Pte) :
    (pt.set level k e).ent level k = e := if_pos ⟨rfl, rfl⟩

theorem set_ent_of_ne (pt : PageTable) {level k l j : Nat} (e : Pte)
    (h : ¬ (l = level ∧ j = k)) :
    (pt.set level k e).ent l j = pt.ent l j := if_neg h

@[simp] theorem set_ent_other_level (pt : PageTable) {level l : Nat} (k j : Nat)
    (e : Pte) (h : l ≠ level) : (pt.set level k e).ent l j = pt.ent l j :=
  pt.set_ent_of_ne e (fun hh => h hh.1)

@[simp] theorem newTable_tables (pt : PageTable) (level k r : Nat)
    (flags : Flags) : (pt.newTable level k r flags).tables = r :: pt.tables := rfl

theorem newTable_ent_self (pt : PageTable) (level k r : Nat) (flags : Flags) :
    (pt.newTable level k r flags).ent level k = PA2PTE r flags :=
  if_pos ⟨rfl, rfl⟩

theorem newTable_ent_below (pt : PageTable) {level k r j l : Nat} (flags : Flags)
    (hl : l + 1 = level) (hj : j / 512 = k) :
    (pt.newTable level k r flags).ent l j = .zero := by
  have hne : ¬ (l = level ∧ j = k) := fun h => by omega
  simp only [newTable, if_neg hne]
  exact if_pos ⟨hl, hj⟩

theorem newTable_ent_of_ne (pt : PageTable) {level k r j l : Nat} (flags : Flags)
    (h₁ : ¬ (l = level ∧ j = k)) (h₂ : ¬ (l + 1 = level ∧ j / 512 = k)) :
    (pt.newTable level k r flags).ent l j = pt.ent l j := by
  simp only [newTable, if_neg h₁, if_neg h₂]

end PageTable

theorem newTable_one_ent (pt : PageTable) (j r : Nat) (flags : Flags) :
    (∀ i, (pt.newTable 1 j r flags).ent 2 i = pt.ent 2 i) ∧
    (pt.newTable 1 j r flags).ent 1 j = PA2PTE r flags ∧
    (∀ j', j' ≠ j → (pt.newTable 1 j r flags).ent 1 j' = pt.ent 1 j') ∧
    (∀ q, q / 512 = j → (pt.newTable 1 j r flags).ent 0 q = .zero) ∧
    (∀ q, q / 512 ≠ j → (pt.newTable 1 j r flags).ent 0 q = pt.ent 0 q) := by
  refine ⟨fun i => ?_, pt.newTable_ent_self .., fun j' hj' => ?_, fun q hq => ?_,
    fun q hq => ?_⟩
  · exact pt.newTable_ent_of_ne flags (by omega) (by omega)
  · exact pt.newTable_ent_of_ne flags (fun hh => hj' hh.2) (by omega)
  · exact pt.newTable_ent_below flags rfl hq
  · exact pt.newTable_ent_of_ne flags (by omega) (fun hh => hq hh.2)

theorem newTable_two_ent (pt : PageTable) (i r : Nat) (flags : Flags) :
    (pt.newTable 2 i r flags).ent 2 i = PA2PTE r flags ∧
    (∀ i', i' ≠ i → (pt.newTable 2 i r flags).ent 2 i' = pt.ent 2 i') ∧
    (∀ j, j / 512 = i → (pt.newTable 2 i r flags).ent 1 j = .zero) ∧
    (∀ j, j / 512 ≠ i → (pt.newTable 2 i r flags).ent 1 j = pt.ent 1 j) ∧
    (∀ q, (pt.newTable 2 i r flags).ent 0 q = pt.ent 0 q) := by
  refine ⟨pt.newTable_ent_self .., fun i' hi' => ?_, fun j hj => ?_, fun j hj => ?_,
    fun q => ?_⟩
  · exact pt.newTable_ent_of_ne flags (fun hh => hi' hh.2) (by omega)
  · exact pt.newTable_ent_below flags rfl hj
  · exact pt.newTable_ent_of_ne flags (by omega) (fun hh => hj hh.2)
  · exact pt.newTable_ent_of_ne flags (by omega) (by omega)

end Xv6Labs
