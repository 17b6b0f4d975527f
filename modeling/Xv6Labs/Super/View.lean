import Xv6Labs.Super.Tree

/-!
# One page of any page table

`leafAt` is the leaf the hardware uses for a page. Nothing is assumed here about
the rest of the table: the facts are about the three entries on the way to one page,
in a 1 GB region whose level-2 entry is a plain pointer (`Region`). There `walk`
without allocation is a case distinction on the level-1 entry, and `superwalk` never
takes memory.
-/

namespace Xv6Labs.Super

def leafAt (pt : PageTable) (q : Nat) : Option (Nat × Pte) :=
  (sv39 pt (q * 4096)).map (fun c => (c.1, pt.ent c.1 c.2))

/-- The level-2 entry of region `i`, one that addresses below `MAXVA` reach, points at
a level-1 table and does not carry `PTE_S`. -/
structure Region (pt : PageTable) (i : Nat) : Prop where
  lt : i < entries 2
  v : (pt.ent 2 i).v = true
  plain : (pt.ent 2 i).s = false
  table : (pt.ent 2 i).leaf = false

variable {k k' : Kernel} {pt pt' : PageTable} {q : Nat}

theorem entries_two : entries 2 = 256 := by decide

theorem sv39_page (pt : PageTable) (q : Nat) : sv39 pt (q * 4096) =
    if !(pt.ent 2 (q / 512 / 512)).v then none
    else if (pt.ent 2 (q / 512 / 512)).leaf then some (2, q / 512 / 512)
    else if !(pt.ent 1 (q / 512)).v then none
    else if (pt.ent 1 (q / 512)).leaf then some (1, q / 512)
    else if (pt.ent 0 q).v && (pt.ent 0 q).leaf then some (0, q)
    else none := by
  obtain ⟨h₀, h₁, h₂⟩ := vpn_page q
  unfold sv39
  rw [h₀, h₁, h₂]

theorem sv39_path {c : PtePtr} (h : sv39 pt (q * 4096) = some c) :
    (c.1 = 0 → c.2 = q) ∧ (c.1 = 1 → c.2 = q / 512) := by
  rw [sv39_page] at h
  split_ifs at h
  all_goals
    simp only [Option.some.injEq] at h
    subst h
    simp

theorem leafAt_eq_none : leafAt pt q = none ↔ sv39 pt (q * 4096) = none :=
  Option.map_eq_none_iff

theorem leafAt_eq_some {e : Nat × Pte} : leafAt pt q = some e ↔
    ∃ c, sv39 pt (q * 4096) = some c ∧ (c.1, pt.ent c.1 c.2) = e :=
  Option.map_eq_some_iff

theorem leafAt_congr (h₂ : pt'.ent 2 (q / 512 / 512) = pt.ent 2 (q / 512 / 512))
    (h₁ : pt'.ent 1 (q / 512) = pt.ent 1 (q / 512)) (h₀ : pt'.ent 0 q = pt.ent 0 q) :
    sv39 pt' (q * 4096) = sv39 pt (q * 4096) ∧ leafAt pt' q = leafAt pt q := by
  have hsv : sv39 pt' (q * 4096) = sv39 pt (q * 4096) := by
    rw [sv39_page, sv39_page, h₂, h₁, h₀]
  refine ⟨hsv, ?_⟩
  unfold leafAt
  rw [hsv]
  rw [sv39_page]
  split_ifs
  all_goals simp only [Option.map_none, Option.map_some, h₂, h₁, h₀]

theorem leafAt_small {e : Pte} (h : leafAt pt q = some (0, e)) :
    (pt.ent 2 (q / 512 / 512)).v = true ∧ (pt.ent 2 (q / 512 / 512)).leaf = false ∧
      (pt.ent 1 (q / 512)).v = true ∧ (pt.ent 1 (q / 512)).leaf = false ∧
      (pt.ent 0 q).v = true ∧ (pt.ent 0 q).leaf = true ∧ e = pt.ent 0 q := by
  obtain ⟨c, hc, he⟩ := leafAt_eq_some.mp h
  rw [sv39_page] at hc
  split_ifs at hc
  all_goals
    simp only [Option.some.injEq] at hc
    subst hc
    simp_all

theorem leafAt_super {e : Pte} (h : leafAt pt q = some (1, e)) :
    (pt.ent 2 (q / 512 / 512)).v = true ∧ (pt.ent 2 (q / 512 / 512)).leaf = false ∧
      (pt.ent 1 (q / 512)).v = true ∧ (pt.ent 1 (q / 512)).leaf = true ∧
      e = pt.ent 1 (q / 512) := by
  obtain ⟨c, hc, he⟩ := leafAt_eq_some.mp h
  rw [sv39_page] at hc
  split_ifs at hc
  all_goals
    simp only [Option.some.injEq] at hc
    subst hc
    simp_all

theorem Region.congr {i : Nat} (h : Region pt i) (he : pt'.ent 2 i = pt.ent 2 i) :
    Region pt' i :=
  ⟨h.lt, by rw [he]; exact h.v, by rw [he]; exact h.plain, by rw [he]; exact h.table⟩

theorem Region.lt_MAXVA (h : Region pt (q / 512 / 512)) : q * 4096 < MAXVA := by
  have := h.lt
  rw [entries_two] at this
  simp only [MAXVA]
  omega

/-! ## The three kinds of page -/

/-- Page `q` is a 4 KB page for hardware and kernel alike. -/
structure SmallAt (pt : PageTable) (q : Nat) : Prop where
  region : Region pt (q / 512 / 512)
  v₁ : (pt.ent 1 (q / 512)).v = true
  plain : (pt.ent 1 (q / 512)).s = false
  table : (pt.ent 1 (q / 512)).leaf = false
  v : (pt.ent 0 q).v = true
  small : (pt.ent 0 q).s = false
  leaf : (pt.ent 0 q).leaf = true

/-- Slot `j` is a superpage for hardware and kernel alike. -/
structure SlotAt (pt : PageTable) (j : Nat) : Prop where
  region : Region pt (j / 512)
  v : (pt.ent 1 j).v = true
  super : (pt.ent 1 j).s = true
  leaf : (pt.ent 1 j).leaf = true

/-- `walk` finds no valid entry for page `q`, in a region that has its level-1
table. -/
structure Vacant (pt : PageTable) (q : Nat) : Prop where
  region : Region pt (q / 512 / 512)
  empty : (pt.ent 1 (q / 512)).v = false ∨
    (pt.ent 1 (q / 512)).v = true ∧ (pt.ent 1 (q / 512)).s = false ∧
      (pt.ent 1 (q / 512)).leaf = false ∧ (pt.ent 0 q).v = false

theorem SmallAt.sv39_eq (h : SmallAt pt q) : sv39 pt (q * 4096) = some (0, q) := by
  rw [sv39_page]
  simp [h.region.v, h.region.table, h.v₁, h.table, h.v, h.leaf]

theorem SmallAt.leafAt_eq (h : SmallAt pt q) : leafAt pt q = some (0, pt.ent 0 q) := by
  unfold leafAt
  rw [h.sv39_eq]
  rfl

theorem SlotAt.sv39_eq (h : SlotAt pt (q / 512)) :
    sv39 pt (q * 4096) = some (1, q / 512) := by
  rw [sv39_page]
  simp [h.region.v, h.region.table, h.v, h.leaf]

theorem SlotAt.leafAt_eq (h : SlotAt pt (q / 512)) :
    leafAt pt q = some (1, pt.ent 1 (q / 512)) := by
  unfold leafAt
  rw [h.sv39_eq]
  rfl

theorem Vacant.leafAt_eq (h : Vacant pt q) : leafAt pt q = none := by
  rw [leafAt_eq_none, sv39_page]
  rcases h.empty with h₁ | ⟨h₁, -, hl, h₀⟩
  · simp [h.region.v, h.region.table, h₁]
  · simp [h.region.v, h.region.table, h₁, hl, h₀]

theorem SmallAt.not_slot (h : SmallAt pt q) : ¬ SlotAt pt (q / 512) := fun hs => by
  have := hs.super
  rw [h.plain] at this
  cases this

theorem SmallAt.congr (h : SmallAt pt q)
    (h₂ : pt'.ent 2 (q / 512 / 512) = pt.ent 2 (q / 512 / 512))
    (h₁ : pt'.ent 1 (q / 512) = pt.ent 1 (q / 512)) (h₀ : pt'.ent 0 q = pt.ent 0 q) :
    SmallAt pt' q := by
  refine ⟨h.region.congr h₂, ?_, ?_, ?_, ?_, ?_, ?_⟩
  · rw [h₁]
    exact h.v₁
  · rw [h₁]
    exact h.plain
  · rw [h₁]
    exact h.table
  · rw [h₀]
    exact h.v
  · rw [h₀]
    exact h.small
  · rw [h₀]
    exact h.leaf

theorem SlotAt.congr {j : Nat} (h : SlotAt pt j)
    (h₂ : pt'.ent 2 (j / 512) = pt.ent 2 (j / 512)) (h₁ : pt'.ent 1 j = pt.ent 1 j) :
    SlotAt pt' j := by
  refine ⟨h.region.congr h₂, ?_, ?_, ?_⟩
  · rw [h₁]
    exact h.v
  · rw [h₁]
    exact h.super
  · rw [h₁]
    exact h.leaf

/-! ## `walk` and `superwalk` in a region -/

/-- **`walk` without allocation.** -/
theorem Region.walk (h : Region pt (q / 512 / 512)) (k : Kernel) :
    walk k pt (q * 4096) false = .ok (k, pt,
      if (pt.ent 1 (q / 512)).v then
        if (pt.ent 1 (q / 512)).s || (pt.ent 1 (q / 512)).leaf then some (1, q / 512)
        else some (0, q)
      else none) := by
  obtain ⟨h₀, h₁, h₂⟩ := vpn_page q
  unfold Super.walk
  rw [if_neg (Nat.not_le.mpr h.lt_MAXVA)]
  simp only [walkLevel, h₀, h₁, h₂, h.v, h.plain, h.table, if_true, Bool.or_self,
    Bool.false_eq_true, if_false]
  split_ifs with hv hs
  all_goals simp_all

/-- **`walk` with allocation**: at most the level-0 table is missing. -/
theorem Region.walk_alloc (h : Region pt (q / 512 / 512)) (k : Kernel) :
    Super.walk k pt (q * 4096) true =
      if (pt.ent 1 (q / 512)).v then
        .ok (k, pt, some (if (pt.ent 1 (q / 512)).s || (pt.ent 1 (q / 512)).leaf then
          (1, q / 512) else (0, q)))
      else match kalloc k with
      | (none, k) => .ok (k, pt, none)
      | (some r, k) => .ok ({ k with mem := k.mem.fill r PGSIZE 0 },
          pt.newTable 1 (q / 512) r { v := true }, some (0, q)) := by
  obtain ⟨h₀, h₁, h₂⟩ := vpn_page q
  unfold Super.walk
  rw [if_neg (Nat.not_le.mpr h.lt_MAXVA)]
  simp only [walkLevel, h₀, h₁, h₂, h.v, h.plain, h.table, if_true, Bool.or_self,
    Bool.false_eq_true, if_false]
  split_ifs with hv hs
  · simp_all
  · simp_all
  · rcases kalloc k with ⟨_ | r, k₁⟩ <;> rfl

theorem Region.superwalk {j : Nat} (h : Region pt (j / 512)) (k : Kernel) (alloc : Bool) :
    Super.superwalk k pt (j * 512 * 4096) alloc = .ok (k, pt, some (1, j)) := by
  obtain ⟨-, h₁, h₂⟩ := vpn_page (j * 512)
  have hj : j * 512 / 512 = j := Nat.mul_div_cancel j (by omega)
  rw [hj] at h₁ h₂
  have hva : ¬ MAXVA ≤ j * 512 * 4096 := by
    have := h.lt
    rw [entries_two] at this
    simp only [MAXVA]
    omega
  unfold Super.superwalk
  rw [if_neg hva, h₁, h₂, h.v, if_pos rfl]

/-- **`mappages` of one page.** -/
theorem Region.mappages (h : Region pt (q / 512 / 512)) (k : Kernel) (pa : Nat)
    (perm : Flags) :
    mappages k pt (q * 4096) PGSIZE pa perm =
      if (pt.ent 1 (q / 512)).v then
        if (pt.ent 1 (q / 512)).s || (pt.ent 1 (q / 512)).leaf || (pt.ent 0 q).v then
          .error "mappages: remap"
        else .ok (k, pt.set 0 q (PA2PTE pa { perm with v := true }), 0)
      else match kalloc k with
      | (none, k) => .ok (k, pt, -1)
      | (some r, k) => .ok ({ k with mem := k.mem.fill r PGSIZE 0 },
          (pt.newTable 1 (q / 512) r { v := true }).set 0 q
            (PA2PTE pa { perm with v := true }), 0) := by
  have hone : PGSIZE / PGSIZE = 0 + 1 := rfl
  have hal : ¬ q * 4096 % PGSIZE ≠ 0 := not_not.mpr (Nat.mul_mod_left q 4096)
  unfold Super.mappages
  rw [if_neg hal, if_neg (by decide), if_neg (by decide), hone, mappagesLoop, h.walk_alloc]
  cases hv : (pt.ent 1 (q / 512)).v with
  | true =>
      rw [if_pos rfl, if_pos rfl]
      cases hs : (pt.ent 1 (q / 512)).s || (pt.ent 1 (q / 512)).leaf with
      | true => simp [hv]
      | false => cases hv₀ : (pt.ent 0 q).v <;> simp [hv₀, mappagesLoop]
  | false =>
      rw [if_neg Bool.false_ne_true, if_neg Bool.false_ne_true]
      rcases kalloc k with ⟨_ | r, k₁⟩
      · rfl
      · have hzero := (newTable_one_ent pt (q / 512) r { v := true }).2.2.2.1 q rfl
        simp [hzero, Pte.zero, mappagesLoop]

/-- **`supermappages` of one superpage.** -/
theorem Region.supermappages {j : Nat} (h : Region pt (j / 512)) (k : Kernel) (pa : Nat)
    (perm : Flags) :
    supermappages k pt (j * 512 * 4096) SUPERPGSIZE pa perm =
      if (pt.ent 1 j).v then .error "mappages: remap"
      else .ok (k, pt.set 1 j (PA2PTE pa { perm with v := true, s := true }), 0) := by
  have hone : SUPERPGSIZE / SUPERPGSIZE = 0 + 1 := rfl
  have hal : ¬ j * 512 * 4096 % SUPERPGSIZE ≠ 0 := by
    simp only [SUPERPGSIZE]
    omega
  unfold Super.supermappages
  rw [if_neg hal, if_neg (by decide), if_neg (by decide), hone, supermappagesLoop,
    h.superwalk]
  rfl

/-! ## Pages that look the same -/

/-- The way to page `q` is the same, or there is now an empty level-0 table on it. -/
structure Quiet (pt pt' : PageTable) (q : Nat) : Prop where
  top : pt'.ent 2 (q / 512 / 512) = pt.ent 2 (q / 512 / 512)
  rest : (pt'.ent 1 (q / 512) = pt.ent 1 (q / 512) ∧ pt'.ent 0 q = pt.ent 0 q) ∨
    ((pt.ent 1 (q / 512)).v = false ∧ (pt'.ent 1 (q / 512)).v = true ∧
      (pt'.ent 1 (q / 512)).s = false ∧ (pt'.ent 1 (q / 512)).leaf = false ∧
      (pt'.ent 0 q).v = false)

theorem Quiet.refl (pt : PageTable) (q : Nat) : Quiet pt pt q := ⟨rfl, .inl ⟨rfl, rfl⟩⟩

theorem Quiet.trans {pt₁ : PageTable} (h : Quiet pt pt₁ q) (h' : Quiet pt₁ pt' q) :
    Quiet pt pt' q := by
  refine ⟨h'.top.trans h.top, ?_⟩
  rcases h'.rest with ⟨h₁', h₀'⟩ | ⟨hv', hrest'⟩
  · rcases h.rest with ⟨h₁, h₀⟩ | ⟨hv, hrest⟩
    · exact .inl ⟨h₁'.trans h₁, h₀'.trans h₀⟩
    · rw [← h₁', ← h₀'] at hrest
      exact .inr ⟨hv, hrest⟩
  · rcases h.rest with ⟨h₁, -⟩ | ⟨-, hv₁, -⟩
    · rw [h₁] at hv'
      exact .inr ⟨hv', hrest'⟩
    · rw [hv₁] at hv'
      cases hv'

theorem Quiet.leafAt_eq (h : Quiet pt pt' q) : leafAt pt' q = leafAt pt q := by
  rcases h.rest with ⟨h₁, h₀⟩ | ⟨hv, hv', -, hl', h₀'⟩
  · exact (leafAt_congr h.top h₁ h₀).2
  · unfold leafAt
    rw [sv39_page, sv39_page, h.top, hv, hv', hl', h₀']
    split_ifs <;> simp_all [h.top]

theorem Vacant.quiet (h : Vacant pt q) (hq : Quiet pt pt' q) : Vacant pt' q := by
  refine ⟨h.region.congr hq.top, ?_⟩
  rcases hq.rest with ⟨h₁, h₀⟩ | ⟨-, hnew⟩
  · rw [h₁, h₀]
    exact h.empty
  · exact .inr hnew

end Xv6Labs.Super
