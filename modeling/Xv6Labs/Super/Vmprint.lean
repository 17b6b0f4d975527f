import Xv6Labs.Lib.Radix
import Xv6Labs.Lib.Word
import Xv6Labs.Riscv
import Mathlib.Data.List.Sort

/-!
# `vmprint`

`vmprintkpgtbl` walks a page table in memory and prints a line for every valid
entry. The address on the line is or-ed together on the way down from indices
that are shifted as `int`s.

`Listing` says what a reader of the output expects: the entries of the tree in
depth-first order, each with the virtual address its path stands for.
-/

namespace Xv6Labs.Vmprint

open Xv6Labs.Lib

/-! ## `vmprintkpgtbl` -/

def PTE_V : BitVec 64 := 1
def PTE_R : BitVec 64 := 1 <<< 1
def PTE_W : BitVec 64 := 1 <<< 2
def PTE_X : BitVec 64 := 1 <<< 3

def PTE2PA (pte : BitVec 64) : BitVec 64 := (pte >>> 10) <<< 12

/-- `PXSHIFT(level)`, an `int`. -/
def PXSHIFT (level : Int) : Int := 12 + 9 * level

/-- `i << s` on `int`s. C leaves other shift amounts undefined. -/
def shiftInt (i : Nat) (s : Int) : Option (BitVec 32) :=
  if 0 ≤ s ∧ s < 32 then some (BitVec.ofNat 32 i <<< s.toNat) else none

/-- One line: `" "`, `".. "` `depth` times, then `"..%p: pte %p pa %p\n"`. -/
structure Line where
  depth : Nat
  vpn : BitVec 64
  pte : BitVec 64
  pa : BitVec 64
deriving DecidableEq

def pteAt (mem : Memory) (pagetable : BitVec 64) (i : Nat) : BitVec 64 :=
  mem.word (pagetable + BitVec.ofNat 64 (8 * i))

/-- A round of the loop. `vmprintkpgtbl` is the recursive call. -/
def printEntry (mem : Memory)
    (vmprintkpgtbl : BitVec 64 → Nat → BitVec 64 → Option (List Line))
    (pagetable : BitVec 64) (depth : Nat) (recordvpn : BitVec 64) (i : Nat) :
    Option (List Line) :=
  let pte := pteAt mem pagetable i
  if pte &&& PTE_V ≠ 0 then do
    let pa := PTE2PA pte
    let shifted ← shiftInt i (PXSHIFT (2 - depth))
    let vpn := recordvpn ||| shifted.signExtend 64
    let vpn := if depth = 0 then vpn ||| (pa &&& 0xFFF) else vpn
    let line : Line := ⟨depth, vpn, pte, pa⟩
    if pte &&& (PTE_R ||| PTE_W ||| PTE_X) = 0 then do
      let lines ← vmprintkpgtbl pa (depth + 1) vpn
      some (line :: lines)
    else some [line]
  else some []

/-- The lines printed from a table on, `none` when the recursion goes deeper
than `fuel` tables. -/
def vmprintkpgtbl (mem : Memory) :
    Nat → BitVec 64 → Nat → BitVec 64 → Option (List Line)
  | 0, _, _, _ => none
  | fuel + 1, pagetable, depth, recordvpn => do
      let rounds ← (List.range 512).mapM
        (printEntry mem (vmprintkpgtbl mem fuel) pagetable depth recordvpn)
      some rounds.flatten

def vmprint (mem : Memory) (fuel : Nat) (pagetable : BitVec 64) :
    Option (BitVec 64 × List Line) :=
  (vmprintkpgtbl mem fuel pagetable 0 0).map fun lines => (pagetable, lines)

/-! ## The tree in memory -/

/-- An entry as a node of the tree: a valid one without R, W and X points at a
table. -/
def entry (mem : Memory) (pagetable : BitVec 64) (i : Nat) :
    Option (Option (BitVec 64)) :=
  let pte := pteAt mem pagetable i
  if pte &&& PTE_V = 0 then none
  else if pte &&& (PTE_R ||| PTE_W ||| PTE_X) = 0 then some (some (PTE2PA pte))
  else some none

abbrev IsPath (mem : Memory) (pagetable : BitVec 64) (p : List Nat) : Prop :=
  Radix.IsPath 512 (entry mem) pagetable p

def pteOn (mem : Memory) : BitVec 64 → List Nat → BitVec 64
  | _, [] => 0
  | pagetable, [i] => pteAt mem pagetable i
  | pagetable, i :: j :: p =>
      pteOn mem (PTE2PA (pteAt mem pagetable i)) (j :: p)

/-- A table at `level`: what its entries point at are tables one level down,
and at level 0 they are all leaves. -/
def TableAt (mem : Memory) : Nat → BitVec 64 → Prop
  | 0, pagetable => ∀ i < 512, ∀ t, entry mem pagetable i ≠ some (some t)
  | level + 1, pagetable => ∀ i < 512, ∀ t,
      entry mem pagetable i = some (some t) → TableAt mem level t

def address : List Nat → Nat
  | [i2] => i2 * 2 ^ 30
  | [i2, i1] => i2 * 2 ^ 30 + i1 * 2 ^ 21
  | [i2, i1, i0] => i2 * 2 ^ 30 + i1 * 2 ^ 21 + i0 * 2 ^ 12
  | _ => 0

/-- The listing of a page table: one line for each entry, depth first by
increasing index, with its address, and no address twice on one level. -/
structure Listing (mem : Memory) (pagetable : BitVec 64) (lines : List Line) :
    Prop where
  entries : ∃ paths : List (List Nat),
    paths.Pairwise (· < ·) ∧ (∀ p, p ∈ paths ↔ IsPath mem pagetable p) ∧
    lines = paths.map fun p =>
      { depth := p.length - 1
        vpn := BitVec.ofNat 64 (address p)
        pte := pteOn mem pagetable p
        pa := PTE2PA (pteOn mem pagetable p) }
  distinct : lines.Pairwise fun a b => a.depth = b.depth → a.vpn ≠ b.vpn

/-! ## What the code or-s together -/

/-- `i << PXSHIFT(level)`, widened to 64 bits. -/
def shifted (level i : Nat) : BitVec 64 :=
  (BitVec.ofNat 32 i <<< (12 + 9 * level)).signExtend 64

theorem shiftInt_PXSHIFT {depth level : Nat} (h : depth + level = 2) (i : Nat) :
    shiftInt i (PXSHIFT (2 - depth)) =
      some (BitVec.ofNat 32 i <<< (12 + 9 * level)) := by
  have hs : PXSHIFT (2 - depth) = ((12 + 9 * level : Nat) : Int) := by
    simp only [PXSHIFT]
    omega
  rw [shiftInt, if_pos (by rw [hs]; omega), hs]
  rfl

/-- The value printed at the end of a path that starts at `level`. -/
def accumulate : BitVec 64 → Nat → List Nat → BitVec 64
  | recordvpn, _, [] => recordvpn
  | recordvpn, level, i :: p =>
      accumulate (recordvpn ||| shifted level i) (level - 1) p

theorem PTE2PA_offset (pte : BitVec 64) : PTE2PA pte &&& 0xFFF = 0 := by
  apply BitVec.eq_of_getLsbD_eq
  intro i hi
  rw [PTE2PA, BitVec.getLsbD_and, BitVec.getLsbD_shiftLeft]
  have hmask : (4095 : BitVec 64).getLsbD i = decide (i < 12) := by
    revert i
    decide
  rw [hmask]
  by_cases h : i < 12 <;> simp [h]

theorem entry_pointer {mem : Memory} {pagetable t : BitVec 64} {i : Nat}
    (h : entry mem pagetable i = some (some t)) :
    t = PTE2PA (pteAt mem pagetable i) := by
  unfold entry at h
  dsimp only at h
  split_ifs at h
  · simpa using h.symm
  · simp at h

/-! ## The recursion lists the tree -/

theorem mapM_eq_map {α β : Type} {f : α → Option β} {g : α → β} {l : List α}
    (h : ∀ a ∈ l, f a = some (g a)) : l.mapM f = some (l.map g) := by
  induction l with
  | nil => rfl
  | cons a l ih =>
      rw [List.mapM_cons, h a List.mem_cons_self,
        ih fun b hb => h b (List.mem_cons_of_mem a hb)]
      rfl

/-- The line for the entry on path `p` below a table at `depth`. -/
def lineOn (mem : Memory) (pagetable : BitVec 64) (depth : Nat)
    (recordvpn : BitVec 64) (level : Nat) (p : List Nat) : Line where
  depth := depth + (p.length - 1)
  vpn := accumulate recordvpn level p
  pte := pteOn mem pagetable p
  pa := PTE2PA (pteOn mem pagetable p)

theorem lineOn_cons {mem : Memory} {pagetable recordvpn : BitVec 64}
    {depth level i : Nat} {p : List Nat} (hp : p ≠ []) :
    lineOn mem pagetable depth recordvpn (level + 1) (i :: p) =
      lineOn mem (PTE2PA (pteAt mem pagetable i)) (depth + 1)
        (recordvpn ||| shifted (level + 1) i) level p := by
  obtain ⟨j, p, rfl⟩ := List.exists_cons_of_ne_nil hp
  simp only [lineOn, pteOn, accumulate, List.length_cons, Nat.add_sub_cancel,
    Line.mk.injEq, and_true]
  omega

/-- A round prints the entry's line and then, below a pointer, what the
recursive call prints. -/
theorem printEntry_eq {mem : Memory} {level depth i : Nat}
    {below : BitVec 64 → Nat → BitVec 64 → Option (List Line)}
    {pagetable recordvpn : BitVec 64} (hdepth : depth + level = 2) :
    printEntry mem below pagetable depth recordvpn i =
      match entry mem pagetable i with
      | none => some []
      | some none => some [lineOn mem pagetable depth recordvpn level [i]]
      | some (some t) =>
          (below t (depth + 1) (recordvpn ||| shifted level i)).map
            (lineOn mem pagetable depth recordvpn level [i] :: ·) := by
  -- the offset `vpn` takes from the frame at depth 0 is no bit
  have hvpn : (if depth = 0 then
        recordvpn ||| shifted level i ||| (PTE2PA (pteAt mem pagetable i) &&& 0xFFF)
      else recordvpn ||| shifted level i) = recordvpn ||| shifted level i := by
    split
    · rw [PTE2PA_offset]
      exact BitVec.or_zero
    · rfl
  unfold printEntry entry
  rw [shiftInt_PXSHIFT hdepth]
  dsimp only [Option.bind_eq_bind, Option.bind_some]
  rw [show (BitVec.ofNat 32 i <<< (12 + 9 * level)).signExtend 64 = shifted level i
    from rfl, hvpn]
  by_cases hv : pteAt mem pagetable i &&& PTE_V = 0
  · rw [if_neg (not_not.mpr hv), if_pos hv]
  · rw [if_pos hv, if_neg hv]
    by_cases hrwx : pteAt mem pagetable i &&& (PTE_R ||| PTE_W ||| PTE_X) = 0
    · rw [if_pos hrwx, if_pos hrwx]
      exact Option.map_eq_bind.symm
    · rw [if_neg hrwx, if_neg hrwx]
      rfl

theorem vmprintkpgtbl_of_rounds {mem : Memory} {fuel depth : Nat}
    {pagetable recordvpn : BitVec 64} {g : Nat → List Line}
    (h : ∀ i < 512, printEntry mem (vmprintkpgtbl mem fuel) pagetable depth
      recordvpn i = some (g i)) :
    vmprintkpgtbl mem (fuel + 1) pagetable depth recordvpn =
      some ((List.range 512).flatMap g) := by
  rw [vmprintkpgtbl, mapM_eq_map fun i hi => h i (List.mem_range.mp hi),
    List.flatMap_def, Option.bind_eq_bind, Option.bind_some]

/-- **The recursion lists the tree.** Below a table at `level` the code prints
one line for every entry, in the order of the listing. -/
theorem vmprintkpgtbl_lists {mem : Memory} {level depth fuel : Nat}
    {pagetable recordvpn : BitVec 64} (h : TableAt mem level pagetable)
    (hdepth : depth + level = 2) (hfuel : level < fuel) :
    vmprintkpgtbl mem fuel pagetable depth recordvpn =
      some ((Radix.preorder 512 (entry mem) (level + 1) pagetable).map
        (lineOn mem pagetable depth recordvpn level)) := by
  induction level generalizing depth fuel pagetable recordvpn with
  | zero =>
      obtain ⟨n, rfl⟩ : ∃ n, fuel = n + 1 := ⟨fuel - 1, by omega⟩
      rw [Radix.preorder, List.map_flatMap]
      apply vmprintkpgtbl_of_rounds
      intro i hi
      rw [printEntry_eq hdepth]
      rcases he : entry mem pagetable i with _ | _ | t
      · rfl
      · rfl
      · exact absurd he (h i hi t)
  | succ level ih =>
      obtain ⟨n, rfl⟩ : ∃ n, fuel = n + 1 := ⟨fuel - 1, by omega⟩
      rw [Radix.preorder, List.map_flatMap]
      apply vmprintkpgtbl_of_rounds
      intro i hi
      rw [printEntry_eq hdepth]
      rcases he : entry mem pagetable i with _ | _ | t
      · rfl
      · rfl
      · have ht : t = PTE2PA (pteAt mem pagetable i) := entry_pointer he
        dsimp only
        rw [ih (h i hi t he) (by omega) (by omega), Option.map_some, List.map_cons,
          List.map_map]
        refine congrArg
          (fun l => some (lineOn mem pagetable depth recordvpn (level + 1) [i] :: l)) ?_
        apply List.map_congr_left
        intro p hp
        rw [Function.comp_apply, lineOn_cons (Radix.mem_preorder.mp hp).1.ne_nil, ht]

/-! ## The addresses -/

theorem shifted_toNat {level i : Nat} (h : i * 2 ^ (12 + 9 * level) < 2 ^ 31) :
    (shifted level i).toNat = i * 2 ^ (12 + 9 * level) := by
  have hpos : 0 < 2 ^ (12 + 9 * level) := Nat.two_pow_pos _
  have hi : i < 2 ^ 32 :=
    lt_of_le_of_lt (Nat.le_mul_of_pos_right i hpos) (h.trans (by decide))
  have hx : (BitVec.ofNat 32 i <<< (12 + 9 * level)).toNat =
      i * 2 ^ (12 + 9 * level) := by
    rw [BitVec.toNat_shiftLeft, BitVec.toNat_ofNat, Nat.mod_eq_of_lt hi,
      Nat.shiftLeft_eq, Nat.mod_eq_of_lt (h.trans (by decide))]
  have hmsb : (BitVec.ofNat 32 i <<< (12 + 9 * level)).msb = false := by
    rw [BitVec.msb_eq_decide, hx, decide_eq_false_iff_not, not_le]
    exact h
  rw [shifted, BitVec.signExtend_eq_setWidth_of_msb_false hmsb, BitVec.toNat_setWidth,
    hx, Nat.mod_eq_of_lt (h.trans (by decide))]

/-- From index 2 on, `i << 30` does not fit in an `int`. -/
theorem shifted_two_ne {i : Nat} (h₁ : 2 ≤ i) (h₂ : i < 512) :
    shifted 2 i ≠ BitVec.ofNat 64 (i * 2 ^ 30) := by
  intro heq
  have h := congrArg BitVec.toNat heq
  have hx : (BitVec.ofNat 32 i <<< (12 + 9 * 2)).toNat = i % 4 * 2 ^ 30 := by
    rw [BitVec.toNat_shiftLeft, BitVec.toNat_ofNat, Nat.shiftLeft_eq]
    omega
  rw [shifted, BitVec.toNat_signExtend, BitVec.toNat_setWidth, BitVec.msb_eq_decide,
    hx, BitVec.toNat_ofNat] at h
  -- a set sign bit gives a huge value, a clear one drops the bits above it
  split at h
  · omega
  · rename_i hmsb
    rw [decide_eq_true_eq] at hmsb
    omega

/-- Or-ing an index in below the bits already there adds it. -/
theorem or_toNat {x y : BitVec 64} {a b n : Nat} (hx : x.toNat = a * 2 ^ n)
    (hy : y.toNat = b) (hb : b < 2 ^ n) : (x ||| y).toNat = a * 2 ^ n + b := by
  rw [BitVec.toNat_or, hx, hy, Nat.mul_comm a, Nat.two_pow_add_eq_or_of_lt hb]

theorem accumulate_eq_address {p : List Nat} (hp : p ≠ []) (hlen : p.length ≤ 3)
    (hlt : ∀ i ∈ p, i < 512) (hhead : ∀ i ∈ p.head?, i < 2) :
    accumulate 0 2 p = BitVec.ofNat 64 (address p) := by
  obtain ⟨i2, p, rfl⟩ := List.exists_cons_of_ne_nil hp
  have h2 : i2 < 2 := hhead i2 rfl
  have e2 : (0 ||| shifted 2 i2).toNat = i2 * 2 ^ 30 := by
    rw [show (0 : BitVec 64) ||| shifted 2 i2 = shifted 2 i2 from BitVec.zero_or]
    exact shifted_toNat (by omega)
  apply BitVec.eq_of_toNat_eq
  rw [BitVec.toNat_ofNat]
  match p, hlen with
  | [], _ =>
      show (0 ||| shifted 2 i2).toNat = i2 * 2 ^ 30 % 2 ^ 64
      rw [e2]
      omega
  | i1 :: p, hlen =>
      have h1 : i1 < 512 := hlt i1 (by simp)
      have e1 : (0 ||| shifted 2 i2 ||| shifted 1 i1).toNat =
          i2 * 2 ^ 30 + i1 * 2 ^ 21 :=
        or_toNat e2 (shifted_toNat (by omega)) (by omega)
      match p, hlen with
      | [], _ =>
          show (0 ||| shifted 2 i2 ||| shifted 1 i1).toNat =
            (i2 * 2 ^ 30 + i1 * 2 ^ 21) % 2 ^ 64
          rw [e1]
          omega
      | i0 :: p, hlen =>
          have h0 : i0 < 512 := hlt i0 (by simp)
          obtain rfl : p = [] := by
            apply List.length_eq_zero_iff.mp
            simp only [List.length_cons] at hlen
            omega
          show (0 ||| shifted 2 i2 ||| shifted 1 i1 ||| shifted 0 i0).toNat =
            (i2 * 2 ^ 30 + i1 * 2 ^ 21 + i0 * 2 ^ 12) % 2 ^ 64
          rw [or_toNat (a := i2 * 2 ^ 9 + i1) (n := 21) (by rw [e1]; omega)
            (shifted_toNat (by omega)) (by omega)]
          omega

theorem address_injective {p q : List Nat} (hp : ∀ i ∈ p, i < 512)
    (hq : ∀ i ∈ q, i < 512) (hp₀ : p ≠ []) (hp₃ : p.length ≤ 3)
    (hlen : p.length = q.length)
    (h : BitVec.ofNat 64 (address p) = BitVec.ofNat 64 (address q)) : p = q := by
  have hnat := congrArg BitVec.toNat h
  rw [BitVec.toNat_ofNat, BitVec.toNat_ofNat] at hnat
  match p, q, hlen, hp₃ with
  | [], _, _, _ => exact absurd rfl hp₀
  | [a], [b], _, _ =>
      simp only [List.forall_mem_cons, address] at hp hq hnat
      obtain rfl : a = b := by omega
      rfl
  | [a, a'], [b, b'], _, _ =>
      simp only [List.forall_mem_cons, address] at hp hq hnat
      obtain ⟨rfl, rfl⟩ : a = b ∧ a' = b' := by omega
      rfl
  | [a, a', a''], [b, b', b''], _, _ =>
      simp only [List.forall_mem_cons, address] at hp hq hnat
      obtain ⟨rfl, rfl, rfl⟩ : a = b ∧ a' = b' ∧ a'' = b'' := by omega
      rfl
  | _ :: _ :: _ :: _ :: _, _, _, hp₃ =>
      simp only [List.length_cons] at hp₃
      omega

/-! ## When the output is the listing -/

variable {mem : Memory} {pagetable : BitVec 64}

theorem TableAt.path_length {level : Nat} {p : List Nat}
    (h : TableAt mem level pagetable) (hp : IsPath mem pagetable p) :
    p.length ≤ level + 1 := by
  induction level generalizing pagetable p with
  | zero =>
      cases hp with
      | last => exact le_rfl
      | through hi he _ => exact absurd he (h _ hi _)
  | succ level ih =>
      cases hp with
      | last => exact Nat.le_add_left _ _
      | through hi he hp => exact Nat.succ_le_succ (ih (h _ hi _ he) hp)

theorem isPath_head {i : Nat} {p : List Nat} (h : IsPath mem pagetable (i :: p)) :
    IsPath mem pagetable [i] := by
  cases h with
  | last hi he => exact .last hi he
  | through hi he _ => exact .last hi (by rw [he]; rfl)

theorem paths_unique {paths : List (List Nat)} (h : TableAt mem 2 pagetable)
    (hs : paths.Pairwise (· < ·)) (hm : ∀ p, p ∈ paths ↔ IsPath mem pagetable p) :
    paths = Radix.preorder 512 (entry mem) 3 pagetable := by
  refine hs.eq_of_mem_iff (Radix.preorder_sorted 3 pagetable) fun p => ?_
  rw [hm, Radix.mem_preorder]
  exact ⟨fun hp => ⟨hp, h.path_length hp⟩, And.left⟩

theorem listing_of_low (h : TableAt mem 2 pagetable)
    (hlow : ∀ i, IsPath mem pagetable [i] → i < 2) :
    Listing mem pagetable ((Radix.preorder 512 (entry mem) 3 pagetable).map
      (lineOn mem pagetable 0 0 2)) := by
  have hvpn : ∀ p ∈ Radix.preorder 512 (entry mem) 3 pagetable,
      accumulate 0 2 p = BitVec.ofNat 64 (address p) := by
    intro p hp
    obtain ⟨hpath, hlen⟩ := Radix.mem_preorder.mp hp
    apply accumulate_eq_address hpath.ne_nil hlen hpath.lt_width
    rintro i hi
    obtain ⟨q, rfl⟩ : ∃ q, p = i :: q := ⟨_, List.eq_cons_of_mem_head? hi⟩
    exact hlow i (isPath_head hpath)
  constructor
  · refine ⟨Radix.preorder 512 (entry mem) 3 pagetable,
      Radix.preorder_sorted 3 pagetable, ?_, ?_⟩
    · intro p
      rw [Radix.mem_preorder]
      exact ⟨And.left, fun hp => ⟨hp, h.path_length hp⟩⟩
    · apply List.map_congr_left
      intro p hp
      rw [lineOn, hvpn p hp, Nat.zero_add]
  · rw [List.pairwise_map]
    refine (Radix.preorder_sorted 3 pagetable).imp_of_mem ?_
    intro p q hp hq hpq hdepth heq
    obtain ⟨hpath, hlen⟩ := Radix.mem_preorder.mp hp
    obtain ⟨hqath, -⟩ := Radix.mem_preorder.mp hq
    simp only [lineOn, hvpn p hp, hvpn q hq, Nat.zero_add] at hdepth heq
    have hp₀ := List.length_pos_iff.mpr hpath.ne_nil
    have hq₀ := List.length_pos_iff.mpr hqath.ne_nil
    obtain rfl := address_injective hpath.lt_width hqath.lt_width hpath.ne_nil hlen
      (by omega) heq
    exact absurd hpq (lt_irrefl p)

theorem not_listing_of_high {i : Nat} (h : TableAt mem 2 pagetable)
    (hi : IsPath mem pagetable [i]) (hhigh : 2 ≤ i) :
    ¬ Listing mem pagetable ((Radix.preorder 512 (entry mem) 3 pagetable).map
      (lineOn mem pagetable 0 0 2)) := by
  rintro ⟨⟨paths, hs, hm, heq⟩, -⟩
  rw [← paths_unique h hs hm] at heq
  have hline := List.map_inj_left.mp heq [i] ((hm [i]).mpr hi)
  have hvpn := congrArg Line.vpn hline
  simp only [lineOn, accumulate, address] at hvpn
  rw [show (0 : BitVec 64) ||| shifted 2 i = shifted 2 i from BitVec.zero_or] at hvpn
  exact shifted_two_ne hhigh (hi.lt_width i (List.mem_singleton_self i)) hvpn

theorem isPath_singleton {i : Nat} :
    IsPath mem pagetable [i] ↔ i < 512 ∧ pteAt mem pagetable i &&& PTE_V ≠ 0 := by
  have hentry : (entry mem pagetable i).isSome ↔
      pteAt mem pagetable i &&& PTE_V ≠ 0 := by
    unfold entry
    dsimp only
    split_ifs with h₁ h₂
    · exact ⟨fun h => absurd h Bool.false_ne_true, fun h => absurd h₁ h⟩
    · exact ⟨fun _ => h₁, fun _ => rfl⟩
    · exact ⟨fun _ => h₁, fun _ => rfl⟩
  constructor
  · intro h
    cases h with
    | last hi he => exact ⟨hi, hentry.mp he⟩
    | through hi he hp => exact absurd rfl hp.ne_nil
  · rintro ⟨hi, hv⟩
    exact .last hi (hentry.mpr hv)

theorem vmprint_eq (h : TableAt mem 2 pagetable) {fuel : Nat} (hfuel : 3 ≤ fuel) :
    vmprint mem fuel pagetable =
      some (pagetable, (Radix.preorder 512 (entry mem) 3 pagetable).map
        (lineOn mem pagetable 0 0 2)) := by
  rw [vmprint, vmprintkpgtbl_lists h rfl hfuel, Option.map_some]

/-- **`vmprint` lists the page table exactly when it has no root entry from
index 2 on**: `i << 30` is an `int`. -/
theorem vmprint_lists_iff (h : TableAt mem 2 pagetable) {fuel : Nat}
    (hfuel : 3 ≤ fuel) :
    (∃ lines, vmprint mem fuel pagetable = some (pagetable, lines) ∧
      Listing mem pagetable lines) ↔
    ∀ i < 512, pteAt mem pagetable i &&& PTE_V ≠ 0 → i < 2 := by
  have hrun := vmprint_eq h hfuel
  constructor
  · rintro ⟨lines, hl, hlist⟩ i hi hv
    by_contra hhigh
    have hlines := (Prod.mk.inj (Option.some.inj (hl.symm.trans hrun))).2
    rw [hlines] at hlist
    exact not_listing_of_high h (isPath_singleton.mpr ⟨hi, hv⟩) (by omega) hlist
  · intro hlow
    refine ⟨_, hrun, listing_of_low h fun i hi => ?_⟩
    obtain ⟨hlt, hv⟩ := isPath_singleton.mp hi
    exact hlow i hlt hv

/-- A root page whose only entry, number 1, points at a table with one superpage,
number 5. -/
def lowRoot : Memory := fun a =>
  if a = 0x83f22008 then 0x01
  else if a = 0x83f22009 then 0x84
  else if a = 0x83f2200a then 0xfc
  else if a = 0x83f2200b then 0x20
  else if a = 0x83f21028 then 0x13
  else if a = 0x83f21029 then 0x01
  else if a = 0x83f2102a then 0x08
  else if a = 0x83f2102b then 0x20
  else 0

theorem lowRoot_root : ∀ i < 512, i ≠ 1 → pteAt lowRoot 0x83f22000 i = 0 := by decide +kernel

theorem lowRoot_pteAt : pteAt lowRoot 0x83f22000 1 = 0x20fc8401 := by decide +kernel

theorem lowRoot_below : ∀ i < 512, ∀ t, entry lowRoot 0x83f21000 i ≠ some (some t) := by
  have hleaf : ∀ i < 512, i ≠ 5 → pteAt lowRoot 0x83f21000 i = 0 := by decide +kernel
  have hsuper : pteAt lowRoot 0x83f21000 5 = 0x20080113 := by decide +kernel
  intro i hi t he
  unfold entry at he
  by_cases h5 : i = 5
  · subst h5
    rw [hsuper] at he
    revert he
    simp [PTE_V, PTE_R, PTE_W, PTE_X]
  · rw [hleaf i hi h5] at he
    simp at he

theorem lowRoot_tableAt : TableAt lowRoot 2 0x83f22000 := by
  intro i hi t he
  have hti := entry_pointer he
  by_cases h1 : i = 1
  · subst h1
    rw [lowRoot_pteAt] at hti
    subst hti
    intro j hj u hu
    exact absurd hu (lowRoot_below j hj u)
  · have hne : entry lowRoot 0x83f22000 i = none := by
      rw [entry, lowRoot_root i hi h1]
      rfl
    exact absurd (hne.symm.trans he) (by simp)

/-- The superpage is listed, with its address. -/
theorem vmprint_lists_iff_lowRoot :
    ∃ lines, vmprint lowRoot 3 0x83f22000 = some (0x83f22000, lines) ∧
      Listing lowRoot 0x83f22000 lines ∧
      ∃ line ∈ lines, line.vpn = 0x40a00000 ∧ line.pte = 0x20080113 := by
  have hlow : ∀ i < 512, pteAt lowRoot 0x83f22000 i &&& PTE_V ≠ 0 → i < 2 := by
    intro i hi hv
    by_contra hge
    rw [lowRoot_root i hi (by omega)] at hv
    exact hv rfl
  obtain ⟨lines, hrun, hlist⟩ := (vmprint_lists_iff lowRoot_tableAt (le_refl 3)).mpr hlow
  refine ⟨lines, hrun, hlist, ?_⟩
  obtain ⟨⟨paths, -, hpaths, rfl⟩, -⟩ := hlist
  have htable : entry lowRoot 0x83f22000 1 = some (some 0x83f21000) := by decide +kernel
  have hpath : IsPath lowRoot 0x83f22000 [1, 5] :=
    .through (by decide) htable (isPath_singleton.mpr ⟨by decide, by decide +kernel⟩)
  exact ⟨_, List.mem_map_of_mem ((hpaths _).mpr hpath), rfl, by decide +kernel⟩

/-- A root page whose only entry, number 255, points at an empty table: where
the trampoline of every process is. -/
def trampolineRoot : Memory := fun a =>
  if a = 0x83f227f8 then 0x01
  else if a = 0x83f227f9 then 0x84
  else if a = 0x83f227fa then 0xfc
  else if a = 0x83f227fb then 0x20
  else 0

theorem trampolineRoot_pteAt :
    pteAt trampolineRoot 0x83f22000 255 = 0x20fc8401 := by decide +kernel

theorem trampolineRoot_root : ∀ i < 512, i ≠ 255 →
    pteAt trampolineRoot 0x83f22000 i = 0 := by decide +kernel

theorem trampolineRoot_below : ∀ i < 512,
    pteAt trampolineRoot 0x83f21000 i = 0 := by decide +kernel

theorem trampolineRoot_tableAt : TableAt trampolineRoot 2 0x83f22000 := by
  intro i hi t he
  have hti := entry_pointer he
  by_cases h255 : i = 255
  · subst h255
    rw [trampolineRoot_pteAt] at hti
    subst hti
    intro j hj u hu
    have hj0 := trampolineRoot_below j hj
    have hne : entry trampolineRoot 0x83f21000 j = none := by
      rw [entry, hj0]
      rfl
    exact absurd (hne.symm.trans hu) (by simp)
  · have hne : entry trampolineRoot 0x83f22000 i = none := by
      rw [entry, trampolineRoot_root i hi h255]
      rfl
    exact absurd (hne.symm.trans he) (by simp)

/-- The line for entry 255 says `0xffffffffc0000000`. -/
theorem vmprint_trampolineRoot :
    TableAt trampolineRoot 2 0x83f22000 ∧
    ¬ ∃ lines, vmprint trampolineRoot 3 0x83f22000 = some (0x83f22000, lines) ∧
      Listing trampolineRoot 0x83f22000 lines := by
  refine ⟨trampolineRoot_tableAt, ?_⟩
  rintro ⟨lines, hl, hlist⟩
  have hrun := vmprint_eq trampolineRoot_tableAt (le_refl 3)
  have hlines := (Prod.mk.inj (Option.some.inj (hl.symm.trans hrun))).2
  rw [hlines] at hlist
  refine not_listing_of_high trampolineRoot_tableAt ?_ (show 2 ≤ 255 by decide) hlist
  refine isPath_singleton.mpr ⟨by decide, ?_⟩
  rw [trampolineRoot_pteAt]
  decide

end Xv6Labs.Vmprint
