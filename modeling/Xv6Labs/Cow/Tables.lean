import Xv6Labs.Cow.Ops

/-!
# The pages that hold a page table

`Rooted` says where the pages of `pt.tables` are: one is the root, the others
hang below the valid entries above level 0, one below each. Only `walk` stores
above level 0, and it hangs a page fresh from `kalloc` below an invalid entry,
so all of `vm.c` keeps it: `SameTables` is the part of a call that leaves these
entries alone, `Rooted.walk` the part that adds tables.

`freewalk` of a page table that maps nothing then frees the pages of
`pt.tables`, each of them once (`Inv.freewalk`).
-/

namespace Xv6Labs.Cow

open Xv6Labs.Lib

variable {n kend : Nat} {km km' : Kmem} {pts : Tables n} {kern : List Nat}
  {pt pt' pt'' : PageTable}

/-! ## Tables and the entries above level 0 -/

/-- Every table but the root is below one valid entry, and it is no leaf. -/
structure Rooted (pt : PageTable) : Prop where
  root : pt.tables ≠ []
  top : ∀ i, (pt.ent 2 i).v = true → i < 512 ∧ (pt.ent 2 i).leaf = false
  mid : ∀ j, (pt.ent 1 j).v = true →
    (pt.ent 2 (j / 512)).v = true ∧ (pt.ent 1 j).leaf = false
  count : ∀ x, pt.tables.count x = hits 512 (fun i => (pt.ent 2 i).frame) x +
    hits 262144 (fun j => (pt.ent 1 j).frame) x +
    if pt.tables.getLastD 0 = x then 1 else 0

structure SameTables (pt pt' : PageTable) : Prop where
  tables : pt'.tables = pt.tables
  ent : ∀ l j, l ≠ 0 → pt'.ent l j = pt.ent l j

theorem SameTables.refl (pt : PageTable) : SameTables pt pt := ⟨rfl, fun _ _ _ => rfl⟩

theorem SameTables.trans (h : SameTables pt pt') (h' : SameTables pt' pt'') :
    SameTables pt pt'' :=
  ⟨h'.tables.trans h.tables, fun l j hl => (h'.ent l j hl).trans (h.ent l j hl)⟩

theorem SameTables.set (pt : PageTable) (k : Nat) (e : Pte) : SameTables pt (pt.set 0 k e) :=
  ⟨rfl, fun _ _ hl => pt.set_ent_other_level _ _ _ hl⟩

theorem Rooted.same (h : Rooted pt) (hs : SameTables pt pt') : Rooted pt' := by
  have h₁ : ∀ j, pt'.ent 1 j = pt.ent 1 j := fun j => hs.ent 1 j (by decide)
  have h₂ : ∀ i, pt'.ent 2 i = pt.ent 2 i := fun i => hs.ent 2 i (by decide)
  constructor
  · rw [hs.tables]
    exact h.root
  · intro i hv
    rw [h₂] at hv ⊢
    exact h.top i hv
  · intro j hv
    rw [h₁] at hv ⊢
    rw [h₂]
    exact h.mid j hv
  · intro x
    simp only [hs.tables, h₁, h₂]
    exact h.count x

theorem Rooted.empty (r : Nat) : Rooted (.empty r) := by
  constructor
  · exact List.cons_ne_nil _ _
  · rintro i ⟨⟩
  · rintro j ⟨⟩
  · intro x
    have hzero : ∀ N l, hits N (fun j => ((PageTable.empty r).ent l j).frame) x = 0 :=
      fun N l => hits_none (fun _ _ => rfl) x
    rw [hzero, hzero]
    simp [PageTable.empty, List.count_singleton]

theorem Rooted.count_cons (h : Rooted pt) (r x : Nat) :
    (r :: pt.tables).count x = hits 512 (fun i => (pt.ent 2 i).frame) x +
      hits 262144 (fun j => (pt.ent 1 j).frame) x +
      (if (r :: pt.tables).getLastD 0 = x then 1 else 0) + if r = x then 1 else 0 := by
  obtain ⟨r', rest, heq⟩ := List.exists_cons_of_ne_nil h.root
  have hlast : (r :: pt.tables).getLastD 0 = pt.tables.getLastD 0 := by
    rw [heq]
    rfl
  rw [hlast, List.count_cons, h.count]
  simp only [beq_iff_eq]

theorem frame_pointer {r : Nat} (hr : r % 4096 = 0) :
    (PA2PTE r { v := true }).frame = some r := by
  rw [Pte.frame_of_v rfl, PTE2PA_PA2PTE hr]

theorem Rooted.newTable_two (h : Rooted pt) {i r : Nat} (hi : i < 512)
    (hinv : (pt.ent 2 i).v = false) (hr : r % 4096 = 0) :
    Rooted (pt.newTable 2 i r { v := true }) := by
  obtain ⟨hself, htop, hbelow, hmid, -⟩ := newTable_two_ent pt i r { v := true }
  have hnone : ∀ j, j / 512 = i → (pt.ent 1 j).v = false := by
    rintro j rfl
    by_contra hv
    have := (h.mid j (by simpa using hv)).1
    rw [hinv] at this
    cases this
  constructor
  · exact List.cons_ne_nil _ _
  · intro i' hv
    by_cases hi' : i' = i
    · rw [hi', hself]
      exact ⟨hi, rfl⟩
    · rw [htop i' hi'] at hv ⊢
      exact h.top i' hv
  · intro j hv
    by_cases hj : j / 512 = i
    · rw [hbelow j hj] at hv
      cases hv
    · rw [hmid j hj] at hv ⊢
      rw [htop _ hj]
      exact h.mid j hv
  · intro x
    have hsame : hits 262144 (fun j => ((pt.newTable 2 i r { v := true }).ent 1 j).frame) x =
        hits 262144 (fun j => (pt.ent 1 j).frame) x := by
      refine hits_congr (fun j _ => ?_) x
      by_cases hj : j / 512 = i
      · rw [hbelow j hj, frame_none (hnone j hj), Pte.frame_zero]
      · rw [hmid j hj]
    have hmore := hits_write hi (f := fun i => (pt.ent 2 i).frame)
      (g := fun i' => ((pt.newTable 2 i r { v := true }).ent 2 i').frame)
      (fun i' hi' => congrArg Pte.frame (htop i' hi')) x
    have hold := frame_none hinv
    simp only [hself, hold, frame_pointer hr, Option.some.injEq, reduceCtorEq, if_false] at hmore
    rw [hsame, PageTable.newTable_tables, h.count_cons]
    omega

theorem Rooted.newTable_one (h : Rooted pt) {j r : Nat} (hj : j < 262144)
    (habove : (pt.ent 2 (j / 512)).v = true) (hinv : (pt.ent 1 j).v = false)
    (hr : r % 4096 = 0) : Rooted (pt.newTable 1 j r { v := true }) := by
  obtain ⟨htop, hself, hmid, -⟩ := newTable_one_ent pt j r { v := true }
  constructor
  · exact List.cons_ne_nil _ _
  · intro i hv
    rw [htop] at hv ⊢
    exact h.top i hv
  · intro j' hv
    rw [htop]
    by_cases hj' : j' = j
    · rw [hj', hself]
      exact ⟨habove, rfl⟩
    · rw [hmid j' hj'] at hv ⊢
      exact h.mid j' hv
  · intro x
    have hmore := hits_write hj (f := fun j => (pt.ent 1 j).frame)
      (g := fun j' => ((pt.newTable 1 j r { v := true }).ent 1 j').frame)
      (fun j' hj' => congrArg Pte.frame (hmid j' hj')) x
    have hold := frame_none hinv
    simp only [hself, hold, frame_pointer hr, Option.some.injEq, reduceCtorEq, if_false] at hmore
    simp only [htop]
    rw [PageTable.newTable_tables, h.count_cons]
    omega

/-! ## Calls that add tables -/

def Aligned (km : Kmem) : Prop := ∀ f ∈ km.freelist, f % 4096 = 0

theorem Inv.aligned (h : Inv kend km pts kern) : Aligned km :=
  fun f hf => (h.ledger.inside f hf).aligned

theorem Aligned.kalloc {r : Nat} (h : Aligned km) (hk : kalloc km = (some r, km')) :
    Aligned km' ∧ r % 4096 = 0 := by
  obtain ⟨rest, hl, rfl⟩ := kalloc_eq_some hk
  constructor
  · intro f hf
    refine h f ?_
    rw [hl]
    exact List.mem_cons_of_mem _ hf
  · refine h r ?_
    rw [hl]
    exact List.mem_cons_self

/-- `kfree` checks the alignment. -/
theorem Aligned.kfree {pa : Nat} (h : Aligned km) (hf : kfree kend km pa = .ok km') :
    Aligned km' := by
  unfold Cow.kfree at hf
  split at hf
  · cases hf
  rename_i hpa
  have hal : pa % 4096 = 0 := by
    simp only [PGSIZE] at hpa
    omega
  simp only at hf
  split at hf
  · obtain rfl := Except.ok.inj hf
    exact h
  · obtain rfl := Except.ok.inj hf
    intro f hf
    rcases List.mem_cons.mp hf with rfl | hf
    · exact hal
    · exact h f hf

theorem Rooted.walkLevel {level va : Nat} {alloc b : Bool} (h : Rooted pt) (ha : Aligned km)
    (hlevel : level = 1 ∨ level = 2) (hva : va < MAXVA)
    (habove : level = 1 → (pt.ent 2 (vpn 2 va)).v = true)
    (hw : walkLevel km pt va alloc level = (km', pt', b)) :
    Rooted pt' ∧ Aligned km' ∧ (b = true → (pt'.ent level (vpn level va)).v = true) := by
  unfold Cow.walkLevel at hw
  split at hw
  · rename_i hv
    simp only [Prod.mk.injEq] at hw
    obtain ⟨rfl, rfl, rfl⟩ := hw
    exact ⟨h, ha, fun _ => hv⟩
  rename_i hv
  split at hw
  · split at hw
    · rename_i km₁ hk
      simp only [Prod.mk.injEq] at hw
      obtain ⟨rfl, rfl, rfl⟩ := hw
      rw [kalloc_eq_none hk]
      exact ⟨h, ha, by simp⟩
    · rename_i r km₁ hk
      simp only [Prod.mk.injEq] at hw
      obtain ⟨rfl, rfl, rfl⟩ := hw
      obtain ⟨ha₁, hr⟩ := ha.kalloc hk
      rw [Bool.not_eq_true] at hv
      refine ⟨?_, ha₁, fun _ => by rw [pt.newTable_ent_self]; rfl⟩
      rcases hlevel with rfl | rfl
      · refine h.newTable_one ?_ ?_ hv hr
        · rw [vpn_one]
          simp only [MAXVA] at hva
          omega
        · rw [← vpn_succ]
          exact habove rfl
      · refine h.newTable_two ?_ hv hr
        rw [vpn_two]
        simp only [MAXVA] at hva
        omega
  · simp only [Prod.mk.injEq] at hw
    obtain ⟨rfl, rfl, rfl⟩ := hw
    exact ⟨h, ha, by simp⟩

theorem Rooted.walk {va : Nat} {alloc : Bool} {o : Option Nat} (h : Rooted pt)
    (ha : Aligned km) (hw : walk km pt va alloc = .ok (km', pt', o)) :
    Rooted pt' ∧ Aligned km' := by
  unfold Cow.walk at hw
  split at hw
  · cases hw
  rename_i hva
  rw [Nat.not_le] at hva
  split at hw
  · rename_i km₁ pt₁ h₂
    obtain ⟨hR, hA, -⟩ := h.walkLevel ha (.inr rfl) hva (by simp) h₂
    simp only [Except.ok.injEq, Prod.mk.injEq] at hw
    obtain ⟨rfl, rfl, -⟩ := hw
    exact ⟨hR, hA⟩
  · rename_i km₁ pt₁ h₂
    obtain ⟨hR, hA, hv₂⟩ := h.walkLevel ha (.inr rfl) hva (by simp) h₂
    split at hw
    all_goals
      rename_i km₂ pt₂ h₁
      obtain ⟨hR', hA', -⟩ := hR.walkLevel hA (.inl rfl) hva (fun _ => hv₂ rfl) h₁
      simp only [Except.ok.injEq, Prod.mk.injEq] at hw
      obtain ⟨rfl, rfl, -⟩ := hw
      exact ⟨hR', hA'⟩

theorem Rooted.mappagesLoop {perm : Flags} {ret : Int} : ∀ (m a pa : Nat) {km : Kmem}
    {pt : PageTable}, Rooted pt → Aligned km →
    mappagesLoop km pt a pa perm m = .ok (km', pt', ret) → Rooted pt' ∧ Aligned km' := by
  intro m
  induction m with
  | zero =>
      intro a pa km pt h ha hm
      simp only [Cow.mappagesLoop, Except.ok.injEq, Prod.mk.injEq] at hm
      obtain ⟨rfl, rfl, -⟩ := hm
      exact ⟨h, ha⟩
  | succ m ih =>
      intro a pa km pt h ha hm
      simp only [Cow.mappagesLoop] at hm
      split at hm
      · cases hm
      · rename_i hw
        simp only [Except.ok.injEq, Prod.mk.injEq] at hm
        obtain ⟨rfl, rfl, -⟩ := hm
        exact h.walk ha hw
      · rename_i hw
        obtain ⟨hR, hA⟩ := h.walk ha hw
        split at hm
        · cases hm
        · exact ih _ _ (hR.same (.set ..)) hA hm

theorem Rooted.mappages {va size pa : Nat} {perm : Flags} {ret : Int} (h : Rooted pt)
    (ha : Aligned km) (hm : mappages km pt va size pa perm = .ok (km', pt', ret)) :
    Rooted pt' ∧ Aligned km' := by
  unfold Cow.mappages at hm
  split at hm
  · cases hm
  split at hm
  · cases hm
  split at hm
  · cases hm
  · exact Rooted.mappagesLoop _ _ _ h ha hm

theorem Rooted.uvmallocPage {a : Nat} {w x : Bool} {ret : Int} (h : Rooted pt)
    (ha : Aligned km) (hg : uvmallocPage kend km pt a w x = .ok (km', pt', ret)) :
    Rooted pt' := by
  unfold Cow.uvmallocPage at hg
  split at hg
  · simp only [Except.ok.injEq, Prod.mk.injEq] at hg
    rw [← hg.2.1]
    exact h
  rename_i r km₁ hk
  have ha₁ : Aligned { km₁ with mem := km₁.mem.fill r PGSIZE 0 } := (ha.kalloc hk).1
  simp only at hg
  split at hg
  · cases hg
  rename_i km₂ pt₂ ret₂ hm
  have hR := (h.mappages ha₁ hm).1
  split at hg
  · split at hg
    · cases hg
    · simp only [Except.ok.injEq, Prod.mk.injEq] at hg
      rw [← hg.2.1]
      exact hR
  · simp only [Except.ok.injEq, Prod.mk.injEq] at hg
    rw [← hg.2.1]
    exact hR

theorem uvmcreate_rooted (hu : uvmcreate km = (km', some pt)) (ha : Aligned km) :
    Rooted pt ∧ Aligned km' := by
  unfold uvmcreate at hu
  split at hu
  · simp at hu
  rename_i hk
  simp only [Prod.mk.injEq, Option.some.injEq] at hu
  obtain ⟨rfl, rfl⟩ := hu
  exact ⟨.empty _, (ha.kalloc hk).1⟩

/-! ## Calls that leave the tables alone -/

theorem cowhandle_sameTables {va : Nat} {ret : Int}
    (hc : cowhandle kend km pt va = .ok (km', pt', ret)) : SameTables pt pt' := by
  obtain ⟨-, ⟨-, -, rfl, -⟩ | ⟨-, -, -, -, -, r, km₁, -, rfl, -⟩⟩ := cowhandle_cases hc
  · exact .refl _
  · exact .set ..

theorem pagefault_sameTables {va sp : Nat} {b : Bool}
    (hf : pagefault kend km pt va sp = .ok (km', pt', b)) : SameTables pt pt' := by
  unfold pagefault at hf
  simp only at hf
  split at hf
  · simp only [Except.ok.injEq, Prod.mk.injEq] at hf
    rw [← hf.2.1]
    exact .refl _
  split at hf
  · cases hf
  · rename_i hc
    simp only [Except.ok.injEq, Prod.mk.injEq] at hf
    rw [← hf.2.1]
    exact cowhandle_sameTables hc

theorem copyoutPage_sameTables {va0 : Nat} {o : Option Nat}
    (hc : copyoutPage kend km pt va0 = .ok (km', pt', o)) : SameTables pt pt' := by
  have hsame : ∀ {o' : Option Nat}, Except.ok (km, pt, o') =
      (.ok (km', pt', o) : Except String _) → SameTables pt pt' := by
    intro o' h
    simp only [Except.ok.injEq, Prod.mk.injEq] at h
    rw [← h.2.1]
    exact .refl _
  unfold copyoutPage at hc
  split at hc
  · exact hsame hc
  split at hc
  · cases hc
  · exact hsame hc
  split at hc
  · exact hsame hc
  split at hc
  swap
  · exact hsame hc
  split at hc
  · exact hsame hc
  split at hc
  · cases hc
  rename_i hch
  have hcow := cowhandle_sameTables hch
  split at hc
  · simp only [Except.ok.injEq, Prod.mk.injEq] at hc
    rw [← hc.2.1]
    exact hcow
  split at hc
  · cases hc
  · cases hc
  · simp only [Except.ok.injEq, Prod.mk.injEq] at hc
    rw [← hc.2.1]
    exact hcow

theorem copyout_sameTables (N : Nat) : ∀ {km km' : Kmem} {pt pt' : PageTable}
    {dstva : Nat} {src left : List UInt8} {ret : Int}, src.length ≤ N →
    copyout kend km pt dstva src = .ok (km', pt', ret, left) → SameTables pt pt' := by
  induction N with
  | zero =>
      intro km km' pt pt' dstva src left ret hN hc
      rw [copyout, if_pos (Nat.le_zero.mp hN)] at hc
      simp only [Except.ok.injEq, Prod.mk.injEq] at hc
      rw [← hc.2.1]
      exact .refl _
  | succ N ih =>
      intro km km' pt pt' dstva src left ret hN hc
      rw [copyout] at hc
      split at hc
      · simp only [Except.ok.injEq, Prod.mk.injEq] at hc
        rw [← hc.2.1]
        exact .refl _
      simp only at hc
      split at hc
      · cases hc
      · rename_i hpage
        simp only [Except.ok.injEq, Prod.mk.injEq] at hc
        rw [← hc.2.1]
        exact copyoutPage_sameTables hpage
      · rename_i hpage
        refine (copyoutPage_sameTables hpage).trans (ih ?_ hc)
        simp only [List.length_drop, PGSIZE, PGROUNDDOWN]
        omega

theorem uvmunmapLoop_sameTables {doFree : Bool} : ∀ (m a : Nat) {km : Kmem}
    {pt : PageTable}, uvmunmapLoop kend km pt a doFree m = .ok (km', pt') →
    SameTables pt pt' ∧ (Aligned km → Aligned km') := by
  intro m
  induction m with
  | zero =>
      intro a km pt hu
      simp only [uvmunmapLoop, Except.ok.injEq, Prod.mk.injEq] at hu
      obtain ⟨rfl, rfl⟩ := hu
      exact ⟨.refl _, id⟩
  | succ m ih =>
      intro a km pt hu
      simp only [uvmunmapLoop] at hu
      split at hu
      · cases hu
      · cases hu
      split at hu
      · cases hu
      split at hu
      · cases hu
      split at hu
      · split at hu
        · cases hu
        rename_i hf
        obtain ⟨hs, hA⟩ := ih _ hu
        exact ⟨(SameTables.set ..).trans hs, fun ha => hA (ha.kfree hf)⟩
      · obtain ⟨hs, hA⟩ := ih _ hu
        exact ⟨(SameTables.set ..).trans hs, hA⟩

theorem uvmunmap_sameTables {va npages : Nat} {doFree : Bool}
    (hu : uvmunmap kend km pt va npages doFree = .ok (km', pt')) :
    SameTables pt pt' ∧ (Aligned km → Aligned km') := by
  unfold uvmunmap at hu
  split at hu
  · cases hu
  · exact uvmunmapLoop_sameTables _ _ hu

theorem uvmcopyLoop_tables : ∀ (m i : Nat) {km : Kmem} {old new old' new' : PageTable}
    {ret : Int}, uvmcopyLoop kend km old new i m = .ok (km', old', new', ret) →
    SameTables old old' ∧ (Rooted new → Aligned km → Rooted new') := by
  intro m
  induction m with
  | zero =>
      intro i km old new old' new' ret hu
      simp only [uvmcopyLoop, Except.ok.injEq, Prod.mk.injEq] at hu
      obtain ⟨-, rfl, rfl, -⟩ := hu
      exact ⟨.refl _, fun h _ => h⟩
  | succ m ih =>
      intro i km old new old' new' ret hu
      simp only [uvmcopyLoop] at hu
      split at hu
      · cases hu
      · cases hu
      split at hu
      · cases hu
      split at hu
      · cases hu
      rename_i hm
      split at hu
      · split at hu
        · cases hu
        rename_i hun
        simp only [Except.ok.injEq, Prod.mk.injEq] at hu
        obtain ⟨-, rfl, rfl, -⟩ := hu
        exact ⟨.set .., fun h ha => (h.mappages ha hm).1.same (uvmunmap_sameTables hun).1⟩
      · obtain ⟨hs, hR⟩ := ih _ hu
        refine ⟨(SameTables.set ..).trans hs, fun h ha => ?_⟩
        obtain ⟨hR', hA'⟩ := h.mappages ha hm
        exact hR hR' hA'

/-! ## `freewalk` -/

/-- The pages below the table `page` at `level` on `path`, in the order in which
`freewalk` frees them. -/
def tablePages (pt : PageTable) : (level path page : Nat) → List Nat
  | 0, _, page => [page]
  | level + 1, path, page =>
      (List.range 512).flatMap (fun i =>
        if (pt.ent (level + 1) (path * 512 + i)).v then
          tablePages pt level (path * 512 + i)
            (PTE2PA (pt.ent (level + 1) (path * 512 + i)))
        else []) ++ [page]

theorem foldlM_kfree_flatMap (g : Nat → List Nat) (is : List Nat) (km : Kmem) :
    is.foldlM (fun km i => (g i).foldlM (kfree kend) km) km =
      (is.flatMap g).foldlM (kfree kend) km := by
  induction is generalizing km with
  | nil => rfl
  | cons i is ih =>
      rw [List.foldlM_cons, List.flatMap_cons, List.foldlM_append]
      congr 1
      funext km
      exact ih km

theorem foldlM_kfree_append (ps : List Nat) (page : Nat) (km : Kmem) :
    (ps ++ [page]).foldlM (kfree kend) km =
      match ps.foldlM (kfree kend) km with
      | .error e => .error e
      | .ok km => kfree kend km page := by
  rw [List.foldlM_append]
  cases ps.foldlM (kfree kend) km with
  | error e => rfl
  | ok km => exact bind_pure (kfree kend km page)

/-- **`freewalk` without leaves** frees one page after the other. -/
theorem freewalk_eq (hleaf : ∀ l j, l < 2 → (pt.ent (l + 1) j).v = true →
      (pt.ent (l + 1) j).leaf = false) (hbare : ∀ k, (pt.ent 0 k).v = false) :
    ∀ (level path page : Nat) (km : Kmem), level ≤ 2 →
      freewalk kend pt level path page km =
        (tablePages pt level path page).foldlM (kfree kend) km := by
  intro level
  induction level with
  | zero =>
      intro path page km _
      have hnone : ∀ is : List Nat, is.foldlM (fun km i =>
          if (pt.ent 0 (path * 512 + i)).v then
            (.error "freewalk: leaf" : Except String Kmem) else .ok km) km = .ok km := by
        intro is
        induction is with
        | nil => rfl
        | cons i is ih =>
            rw [List.foldlM_cons, hbare]
            exact ih
      unfold freewalk forEntries
      rw [hnone]
      exact (bind_pure (kfree kend km page)).symm
  | succ level ih =>
      intro path page km hlevel
      have hround : (fun (km : Kmem) (i : Nat) =>
          let pte := pt.ent (level + 1) (path * 512 + i)
          if pte.v && !pte.leaf then
            freewalk kend pt level (path * 512 + i) (PTE2PA pte) km
          else if pte.v then .error "freewalk: leaf"
          else .ok km) =
          fun km i => (if (pt.ent (level + 1) (path * 512 + i)).v then
            tablePages pt level (path * 512 + i)
              (PTE2PA (pt.ent (level + 1) (path * 512 + i)))
            else []).foldlM (kfree kend) km := by
        funext km i
        cases hv : (pt.ent (level + 1) (path * 512 + i)).v with
        | true =>
            have hl := hleaf level (path * 512 + i) (by omega) hv
            simp only [hv, hl, Bool.not_false, Bool.and_self, if_true]
            exact ih _ _ _ (by omega)
        | false =>
            simp only [hv, Bool.false_and, Bool.false_eq_true, if_false]
            rfl
      unfold freewalk forEntries tablePages
      rewrite [hround, foldlM_kfree_flatMap, foldlM_kfree_append]
      generalize List.foldlM (kfree kend) km _ = freed
      cases freed <;> rfl

theorem count_tablePages_one (path page x : Nat) :
    (tablePages pt 1 path page).count x =
      hits 512 (fun i => (pt.ent 1 (path * 512 + i)).frame) x + if page = x then 1 else 0 := by
  have hrange : ∀ m, ((List.range m).flatMap (fun i =>
      if (pt.ent 1 (path * 512 + i)).v then
        [PTE2PA (pt.ent 1 (path * 512 + i))] else [])).count x =
      hits m (fun i => (pt.ent 1 (path * 512 + i)).frame) x := by
    intro m
    induction m with
    | zero => simp
    | succ m ih =>
        rw [List.range_succ, List.flatMap_append, List.count_append, ih, hits_succ,
          List.flatMap_singleton]
        unfold Pte.frame
        cases (pt.ent 1 (path * 512 + m)).v with
        | true => simp [List.count_singleton]
        | false => simp
  show ((List.range 512).flatMap _ ++ [page]).count x = _
  rw [List.count_append, ← hrange 512, List.count_singleton]
  simp only [tablePages, beq_iff_eq]

/-- **All tables, each once.** -/
theorem Rooted.tablePages_perm (h : Rooted pt) :
    (tablePages pt 2 0 (pt.tables.getLastD 0)).Perm pt.tables := by
  rw [List.perm_iff_count]
  intro x
  have hrange : ∀ m, ((List.range m).flatMap (fun i =>
      if (pt.ent 2 (0 * 512 + i)).v then
        tablePages pt 1 (0 * 512 + i) (PTE2PA (pt.ent 2 (0 * 512 + i))) else [])).count x =
      hits m (fun i => (pt.ent 2 i).frame) x +
        hits (m * 512) (fun j => (pt.ent 1 j).frame) x := by
    intro m
    induction m with
    | zero => simp
    | succ m ih =>
        rw [List.range_succ, List.flatMap_append, List.count_append, ih, hits_succ,
          Nat.succ_mul, hits_add, List.flatMap_singleton, Nat.zero_mul, Nat.zero_add]
        cases hv : (pt.ent 2 m).v with
        | true =>
            rw [if_pos rfl, count_tablePages_one, Pte.frame_of_v hv]
            simp only [Option.some.injEq]
            omega
        | false =>
            -- no level-1 table, so no valid entry in it
            have hnone : hits 512 (fun i => (pt.ent 1 (m * 512 + i)).frame) x = 0 := by
              refine hits_none (fun i hi => ?_) x
              have hinv : ¬ (pt.ent 1 (m * 512 + i)).v = true := by
                intro hv'
                have := (h.mid _ hv').1
                rw [show (m * 512 + i) / 512 = m by omega, hv] at this
                cases this
              exact if_neg hinv
            rw [hnone]
            simp [Pte.frame, hv]
  show ((List.range 512).flatMap _ ++ [pt.tables.getLastD 0]).count x = _
  rw [List.count_append, hrange 512, h.count, List.count_singleton]
  simp only [beq_iff_eq]

theorem Inv.kfreeAll : ∀ (ps : List Nat) {km : Kmem}, Inv kend km pts (ps ++ kern) →
    ∃ km', ps.foldlM (kfree kend) km = .ok km' ∧ Inv kend km' pts kern ∧
      ∀ q y, read km'.mem (pts q) y = read km.mem (pts q) y := by
  intro ps
  induction ps with
  | nil => exact fun {km} h => ⟨km, rfl, h, fun _ _ => rfl⟩
  | cons p ps ih =>
      intro km h
      obtain ⟨km₁, hf, h₁, hread₁⟩ := Inv.kfreeKern h
      obtain ⟨km', hfs, h', hread⟩ := ih h₁
      refine ⟨km', ?_, h', fun q y => (hread q y).trans (hread₁ q y)⟩
      rw [List.foldlM_cons, hf]
      exact hfs

/-- **`freewalk`** of a page table that maps nothing and belongs to no process
frees its pages. -/
theorem Inv.freewalk (h : Inv kend km pts (pt.tables ++ kern)) (hR : Rooted pt)
    (hbare : ∀ k, (pt.ent 0 k).v = false) :
    ∃ km', freewalk kend pt 2 0 (pt.tables.getLastD 0) km = .ok km' ∧ Inv kend km' pts kern ∧
      ∀ q y, read km'.mem (pts q) y = read km.mem (pts q) y := by
  have hleaf : ∀ l j, l < 2 → (pt.ent (l + 1) j).v = true →
      (pt.ent (l + 1) j).leaf = false := by
    intro l j hl hv
    obtain rfl | rfl : l = 0 ∨ l = 1 := by omega
    · exact (hR.mid j hv).2
    · exact (hR.top j hv).2
  rw [freewalk_eq hleaf hbare 2 _ _ _ (Nat.le_refl 2)]
  exact Inv.kfreeAll _ (h.perm (hR.tablePages_perm.symm.append_right kern))

/-! ## `uvmfree` -/

/-- Without memory there are no pages to unmap. -/
theorem uvmfree_eq (km : Kmem) (pt : PageTable) (sz : Nat) :
    uvmfree kend km pt sz =
      match uvmunmap kend km pt 0 (PGROUNDUP sz / PGSIZE) true with
      | .error e => .error e
      | .ok (km, pt) => freewalk kend pt 2 0 (pt.tables.getLastD 0) km := by
  unfold uvmfree
  by_cases hsz : sz > 0
  · rewrite [if_pos hsz]
    rfl
  · obtain rfl : sz = 0 := by omega
    rfl

theorem uvmfree_zero (km : Kmem) (pt : PageTable) :
    uvmfree kend km pt 0 = freewalk kend pt 2 0 (pt.tables.getLastD 0) km := rfl

theorem uvmfree_unmaps {sz : Nat} (h : uvmfree kend km pt sz = .ok km') :
    ∃ r, uvmunmap kend km pt 0 (PGROUNDUP sz / PGSIZE) true = .ok r := by
  rw [uvmfree_eq] at h
  cases hu : uvmunmap kend km pt 0 (PGROUNDUP sz / PGSIZE) true with
  | error e =>
      rw [hu] at h
      cases h
  | ok r => exact ⟨r, rfl⟩

end Xv6Labs.Cow
