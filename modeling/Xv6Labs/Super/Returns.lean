import Xv6Labs.Super.Exec
import Xv6Labs.Super.Growproc
import Xv6Labs.Super.Release

/-!
# Calls that return

The other half of what `Moves` says: on a table whose pages are those its size covers,
`uvmunmap`, `proc_freepagetable`, `uvmalloc` below the first superpage and `exec` itself
end without a panic. A page that the table counts lies where its allocator has it, so
`kfree` takes it; `freewalk` meets no leaf, because the size says what to unmap.
-/

namespace Xv6Labs.Super

open Xv6Labs.Lib

variable {kend trampoline : Nat} {L : Loader} {k k' : Kernel} {pt pt' : PageTable}
  {hand superhand : List Nat} {N t u : Nat}

/-! ## Freeing -/

/-- A page of a table that is kept can be freed. -/
theorem Kept.backed (h : Kept kend ⟨k, pt, hand, superhand⟩) {q : Nat} (hq : q < UPAGES)
    (hs : (seen pt q).isSome = true) : Backed kend pt q := by
  have hU := UPAGES_eq
  have hregion : (pt.ent 2 (q / 512 / 512)).v = true → Region pt (q / 512 / 512) := by
    intro hv
    obtain ⟨hplain, htable⟩ := h.tree.top _ hv
    refine ⟨?_, hv, hplain, htable⟩
    rw [entries_two]
    omega
  unfold seen at hs
  split at hs
  · rename_i hsup
    obtain ⟨hv, hS⟩ := superAt_iff.mp hsup
    obtain ⟨habove, hleaf⟩ := h.tree.mid _ hv
    have hcount : 0 < superCount pt (PTE2PA (pt.ent 1 (q / 512))) :=
      hits_pos_iff.mpr ⟨q / 512, by omega, if_pos hsup⟩
    obtain ⟨hal, hlo, -, hhi⟩ := h.super (PTE2PA (pt.ent 1 (q / 512))) (by
      simp only [Books.super]
      omega)
    exact .inr ⟨⟨hregion habove, hv, hS, hleaf.symm.trans hS⟩, ⟨hal, hlo, hhi⟩⟩
  split at hs
  · rename_i hsup hv
    obtain ⟨htab, hns, hleaf⟩ := h.tree.bot q hv
    obtain ⟨hv₁, hs₁⟩ := tableAt_iff.mp htab
    obtain ⟨habove, hleaf₁⟩ := h.tree.mid _ hv₁
    have hcount : 0 < pageCount pt (PTE2PA (pt.ent 0 q)) :=
      hits_pos_iff.mpr ⟨q, hq, Pte.frame_of_v hv⟩
    obtain ⟨hal, hlo, -, hhi⟩ := h.small (PTE2PA (pt.ent 0 q)) (by
      simp only [Books.small]
      omega)
    refine .inl ⟨⟨hregion habove, hv₁, hs₁, hleaf₁.symm.trans hs₁, hv, hns, hleaf⟩,
      ⟨hal, hlo, hhi.trans (by decide)⟩⟩
  · cases hs

/-- **`uvmunmap`** of mapped pages that cut no superpage. -/
theorem Kept.uvmunmap_returns (h : Kept kend ⟨k, pt, hand, superhand⟩) (lo n : Nat)
    (hmap : ∀ q, lo ≤ q → q < lo + n → (seen pt q).isSome = true)
    (hon : OnBoundary pt lo)
    (hend : ∀ j, superAt pt j = true → j * 512 < lo + n → j * 512 + 512 ≤ lo + n)
    (hup : lo + n ≤ UPAGES) :
    ∃ k' pt', Super.uvmunmap kend k pt (lo * 4096) n true = .ok (k', pt') ∧
      Moves kend ⟨k, pt, hand, superhand⟩ ⟨k', pt', hand, superhand⟩ ∧
      ∀ q, seen pt' q = if lo ≤ q ∧ q < lo + n then none else seen pt q := by
  have hslot : ∀ j, SlotAt pt j → superAt pt j = true := fun j hj =>
    superAt_iff.mpr ⟨hj.v, hj.super⟩
  obtain ⟨k', pt', hloop, hR⟩ : ∃ k' pt', Super.uvmunmapLoop kend k pt (lo * 4096)
      ((lo + n) * 4096) true n = .ok (k', pt') ∧ Released k pt k' pt' lo (lo + n) :=
    uvmunmapLoop_released n lo (fun q h₁ h₂ => h.backed (by omega) (hmap q h₁ h₂))
      (fun _ hs => hon (hslot _ hs)) (fun j _ hj hs => hend j (hslot j hs) hj) (Nat.le_refl _)
  have hok : Super.uvmunmap kend k pt (lo * 4096) n true = .ok (k', pt') := by
    unfold Super.uvmunmap
    rw [if_neg (by simp only [PGSIZE]; omega), show lo * 4096 + n * PGSIZE = (lo + n) * 4096 by
      simp only [PGSIZE]; omega]
    exact hloop
  have hM := h.uvmunmap (by rw [USYSCALL_eq]; omega) hok
  refine ⟨k', pt', hok, hM, fun q => ?_⟩
  rw [← hM.kept.tree.leafAt_eq, hR.leaf, h.tree.leafAt_eq]

/-- **`freewalk`** of a table that maps nothing. -/
theorem Kept.freewalk_returns (h : Kept kend ⟨k, pt, hand, superhand⟩)
    (hnone : ∀ q, seen pt q = none) :
    ∃ k', Super.freewalk kend pt 2 0 (pt.tables.getLastD 0) k = .ok k' := by
  have htable : ∀ x, 0 < tableCount pt x → SmallFrame kend x := fun x hx =>
    h.small x (by simp only [Books.small]; omega)
  have hT : Tree pt := h.tree
  refine hT.freewalk (htable _ ?_) (fun i hi => htable _ ?_) (fun j hj => htable _ ?_)
    hnone k
  · unfold tableCount
    rw [if_pos rfl]
    omega
  · have hpos : 0 < hits 512 (fun i => (pt.ent 2 i).frame) (PTE2PA (pt.ent 2 i)) :=
      hits_pos_iff.mpr ⟨i, h.range i hi, Pte.frame_of_v hi⟩
    unfold tableCount
    omega
  · have hlt : j < 262144 := by
      have := h.range _ (h.tree.mid j (tableAt_iff.mp hj).1).1
      omega
    have hpos : 0 < hits 262144 (tablePage pt) (PTE2PA (pt.ent 1 j)) :=
      hits_pos_iff.mpr ⟨j, hlt, if_pos hj⟩
    unfold tableCount
    omega

/-- **`proc_freepagetable`** of a table whose pages are those the size covers. -/
theorem Kept.proc_freepagetable_returns (h : Kept kend ⟨k, pt, hand, superhand⟩) {sz : Nat}
    (hL : Layout pt (pages sz)) (hmax : sz ≤ 2 ^ 30) :
    ∃ k', Super.proc_freepagetable kend k pt sz = .ok k' := by
  have hU := UPAGES_eq
  have hN : pages sz ≤ 262144 := by
    unfold pages
    omega
  refine hL.proc_freepagetable (I := fun pt => Kept kend ⟨k, pt, hand, superhand⟩) hN
    (fun _ hK => hK.tree)
    (fun _ q hK hq _ hv => (hK.set_high hq (hK.tree.bot q hv).1 (fun hz => by cases hz)).1)
    (fun bare hK hseen => ?_) h
  unfold Super.uvmfree
  by_cases hpos : sz > 0
  · obtain ⟨k', pt', hun, hM, hseen'⟩ := hK.uvmunmap_returns 0 (pages sz)
      (fun q _ hq => by
        rw [hseen, if_pos (by omega)]
        exact (hL q).mpr (.inl (by omega)))
      (fun _ => rfl)
      (fun j hj hlt => by
        rw [Nat.zero_add] at hlt ⊢
        exact hL.super_left hN hseen hj hlt)
      (by omega)
    rw [if_pos hpos, PGROUNDUP_eq, show pages sz * 4096 / PGSIZE = pages sz by
      simp only [PGSIZE]; omega]
    rw [Nat.zero_mul] at hun
    rw [hun]
    refine hM.kept.freewalk_returns (fun q => ?_)
    rw [hseen', hseen]
    split_ifs <;> first | rfl | omega
  · rw [if_neg hpos]
    refine hK.freewalk_returns (fun q => ?_)
    rw [hseen, if_neg]
    unfold pages
    omega

/-! ## `uvmalloc` below the first superpage -/

theorem walk_returns (k : Kernel) (pt : PageTable) {va : Nat} (hva : va < MAXVA) (alloc : Bool) :
    ∃ k' pt' o, walk k pt va alloc = .ok (k', pt', o) := by
  unfold walk
  rw [if_neg (Nat.not_le.mpr hva)]
  obtain ⟨k₁, pt₁, d⟩ := walkLevel k pt va alloc 2
  cases d with
  | null => exact ⟨_, _, _, rfl⟩
  | found => exact ⟨_, _, _, rfl⟩
  | below =>
      simp only
      obtain ⟨k₂, pt₂, d₂⟩ := walkLevel k₁ pt₁ va alloc 1
      cases d₂ with
      | null => exact ⟨_, _, _, rfl⟩
      | found => exact ⟨_, _, _, rfl⟩
      | below => exact ⟨_, _, _, rfl⟩

/-- **`mappages`** of a page in hand, where nothing is mapped. -/
theorem Kept.mappages_returns {r : Nat} (h : Kept kend ⟨k, pt, r :: hand, superhand⟩) {q : Nat}
    (perm : Flags) (hq : q < UPAGES) (hs : perm.s = false)
    (hleaf : (PA2PTE r perm).leaf = true) (hnone : seen pt q = none) :
    ∃ k' pt' ret, Super.mappages k pt (q * 4096) PGSIZE r perm = .ok (k', pt', ret) ∧
      ((ret = 0 ∧ Moves kend ⟨k, pt, r :: hand, superhand⟩ ⟨k', pt', hand, superhand⟩ ∧
          Shows pt pt' q (PA2PTE r { perm with v := true })) ∨
        (ret ≠ 0 ∧ Moves kend ⟨k, pt, r :: hand, superhand⟩
          ⟨k', pt', r :: hand, superhand⟩ ∧ ∀ p, seen pt' p = seen pt p)) := by
  have hU := UPAGES_eq
  obtain ⟨hp₀, hp₁, -⟩ := vpn_page q
  have hva : q * 4096 < MAXVA := by
    simp only [MAXVA]
    omega
  obtain ⟨k₁, pt₁, o, hw⟩ := walk_returns k pt hva true
  obtain ⟨-, -, hseen, -, -, ho⟩ := h.tree.walk_alloc hw
  have hnone₁ : seen pt₁ q = none := (hseen q).trans hnone
  have hnosuper : superAt pt₁ (q / 512) = false := by
    rw [superAt_eq_seen, hnone₁]
    rfl
  have hok : ∃ k' pt' ret, Super.mappages k pt (q * 4096) PGSIZE r perm =
      .ok (k', pt', ret) := by
    have hone : PGSIZE / PGSIZE = 0 + 1 := rfl
    unfold Super.mappages
    rw [if_neg (by simp only [PGSIZE]; omega), if_neg (by decide), if_neg (by decide), hone,
      mappagesLoop, hw]
    rcases ho with rfl | ⟨-, ⟨hsup, -⟩ | ⟨-, rfl⟩⟩
    · exact ⟨_, _, _, rfl⟩
    · rw [hp₁, hnosuper] at hsup
      cases hsup
    · have hv : (pt₁.ent 0 q).v = false := by
        unfold seen at hnone₁
        rw [hnosuper, if_neg Bool.false_ne_true] at hnone₁
        by_contra hne
        rw [if_pos (by simpa using hne)] at hnone₁
        cases hnone₁
      simp only [hp₀, hv, Bool.false_eq_true, if_false]
      exact ⟨_, _, _, rfl⟩
  obtain ⟨k', pt', ret, hok⟩ := hok
  refine ⟨k', pt', ret, hok, ?_⟩
  rcases h.mappages hq hs hleaf hok with ⟨hret, hM, -, hshow⟩ | ⟨hret, hM⟩
  · exact .inl ⟨hret, hM, hshow⟩
  · obtain ⟨pt₂, -, hsame, ⟨-, rfl⟩ | ⟨h0, -⟩⟩ := h.mappages_walk hok
    · exact .inr ⟨hret, hM, hsame⟩
    · exact absurd h0 hret

theorem Extended.snoc {pt₀ : PageTable} {P q : Nat} {xperm : Flags} {e : Pte}
    (h : Extended pt₀ pt P q xperm) (hshow : Shows pt pt' q e)
    (he : e.toFlags = { xperm with v := true, r := true, u := true }) (hle : P ≤ q) :
    Extended pt₀ pt' P (q + 1) xperm := by
  refine ⟨fun p hp => ?_, fun p hP hlt => ?_⟩
  · rw [hshow p, if_neg (by omega), h.outside p (by omega)]
  · by_cases hp : p = q
    · exact ⟨e, (hshow p).trans (if_pos hp), he⟩
    · rw [hshow p, if_neg hp]
      exact h.pages p hP (by omega)

/-- **`uvmdealloc`** takes back what has been added. -/
theorem Kept.uvmdealloc_returns (h : Kept kend ⟨k, pt, hand, superhand⟩) {pt₀ : PageTable}
    {P q : Nat} {xperm : Flags} (hext : Extended pt₀ pt P q xperm)
    (hfree : ∀ p, P ≤ p → p < 512 → seen pt₀ p = none) (hle : P ≤ q) (hq : q ≤ 512) :
    ∃ k' pt' d, Super.uvmdealloc kend k pt (q * 4096) (P * 4096) = .ok (k', pt', d) ∧
      ∀ p, seen pt' p = seen pt₀ p := by
  have hU := UPAGES_eq
  unfold Super.uvmdealloc
  by_cases hnothing : q * 4096 ≤ P * 4096
  · refine ⟨k, pt, q * 4096, if_pos hnothing, fun p => hext.outside p (by omega)⟩
  have hround : ∀ n, PGROUNDUP (n * 4096) = n * 4096 := by
    intro n
    simp only [PGROUNDUP]
    omega
  have hpages : (q * 4096 - P * 4096) / PGSIZE = q - P := by
    simp only [PGSIZE]
    omega
  obtain ⟨k', pt', hun, -, hseen⟩ := h.uvmunmap_returns P (q - P)
    (fun p h₁ h₂ => by
      obtain ⟨e, hs, -⟩ := hext.pages p h₁ (by omega)
      rw [hs]
      rfl)
    (fun hs => by
      obtain ⟨e, he, -⟩ := hext.pages P (Nat.le_refl P) (by omega)
      rw [superAt_eq_seen, he] at hs
      cases hs)
    (fun j hj hlt => by
      obtain rfl : j = 0 := by omega
      exact absurd (h.first.symm.trans hj) Bool.false_ne_true)
    (by omega)
  refine ⟨k', pt', P * 4096, ?_, fun p => ?_⟩
  · rw [if_neg hnothing, hround, hround, if_pos (by omega), hpages, hun]
  · rw [hseen]
    split
    · exact (hfree p (by omega) (by omega)).symm
    · exact hext.outside p (by omega)

/-- **`uvmalloc`**, from any point of its loop on: if memory runs out, nothing is added. -/
theorem Kept.uvmallocLoop_returns {newsz P : Nat} {xperm : Flags} (hx : xperm.s = false)
    (hpos : 0 < newsz) (hnew : newsz < SUPERPGSIZE) {pt₀ : PageTable}
    (hfree : ∀ p, P ≤ p → p < 512 → seen pt₀ p = none) (n : Nat) :
    ∀ {k : Kernel} {pt : PageTable} (q : Nat), P ≤ q → Kept kend ⟨k, pt, hand, superhand⟩ →
    Extended pt₀ pt P q xperm →
    ∃ k' pt' sz, Super.uvmallocLoop kend k pt (P * 4096) (q * 4096) newsz xperm n =
      .ok (k', pt', sz) ∧ (sz = 0 → ∀ p, seen pt' p = seen pt₀ p) := by
  have hU := UPAGES_eq
  induction n with
  | zero =>
      intro k pt q _ _ _
      exact ⟨k, pt, newsz, rfl, fun h0 => absurd h0 (by omega)⟩
  | succ n ih =>
      intro k pt q hle h hext
      by_cases hlt : q * 4096 < newsz
      swap
      · exact ⟨k, pt, newsz, by rw [Super.uvmallocLoop, if_neg hlt],
          fun h0 => absurd h0 (by omega)⟩
      simp only [SUPERPGSIZE] at hnew
      have hsmall : ¬ (q * 4096 % SUPERPGSIZE = 0 ∧ newsz - q * 4096 ≥ SUPERPGSIZE) := by
        simp only [SUPERPGSIZE]
        omega
      rw [Super.uvmallocLoop, if_pos hlt, if_neg hsmall]
      rcases hk : Super.kalloc k with ⟨_ | mem, k₁⟩
      · -- no memory
        obtain ⟨rfl, -⟩ := kalloc_none hk
        obtain ⟨k', pt', d, hun, hsame⟩ := h.uvmdealloc_returns hext hfree hle (by omega)
        exact ⟨k', pt', 0, by simp only [hun], fun _ => hsame⟩
      have h₁ := h.kalloc hk
      have h₂ := h₁.trans (h₁.kept.fill 0)
      have hnone : seen pt q = none := by
        rw [hext.outside q (by omega)]
        exact hfree q hle (by omega)
      obtain ⟨k₂, pt₂, ret, hmap, ⟨rfl, hM, hshow⟩ | ⟨hret, hM, hsame⟩⟩ :=
        h₂.kept.mappages_returns { xperm with r := true, u := true } (by omega) hx
          (user_leaf mem xperm) hnone
      · obtain ⟨k', pt', sz, hloop, hres⟩ := ih (q + 1) (by omega) hM.kept
          (hext.snoc hshow rfl hle)
        refine ⟨k', pt', sz, ?_, hres⟩
        have hnext : q * 4096 + PGSIZE = (q + 1) * 4096 := by
          simp only [PGSIZE]
          omega
        simp only [hmap, ne_eq, not_true_eq_false, if_false, hnext]
        exact hloop
      · -- no memory for the table
        obtain ⟨k₃, hback⟩ := (hM.kept.small mem (by simp [Books.small])).kfree k₂
        have hK := (hM.kept.kfree hback).kept
        have hext₂ : Extended pt₀ pt₂ P q xperm :=
          ⟨fun p hp => (hsame p).trans (hext.outside p hp), fun p h₁ h₂ => by
            rw [hsame p]
            exact hext.pages p h₁ h₂⟩
        obtain ⟨k', pt', d, hun, hsame'⟩ := hK.uvmdealloc_returns hext₂ hfree hle (by omega)
        refine ⟨k', pt', 0, ?_, fun _ => hsame'⟩
        simp only [hmap, if_pos hret, hback, hun]

/-- **`uvmalloc`** below the first superpage, of a table whose pages are those of the size. -/
theorem Kept.uvmalloc_returns (h : Kept kend ⟨k, pt, hand, superhand⟩) {sz newsz : Nat}
    (xperm : Flags) (hx : xperm.s = false) (hnew : newsz < SUPERPGSIZE)
    (hL : Layout pt (pages sz)) :
    ∃ k' pt' sz1, Super.uvmalloc kend k pt sz newsz xperm = .ok (k', pt', sz1) ∧
      (sz1 = 0 → ∀ p, seen pt' p = seen pt p) := by
  have hU := UPAGES_eq
  unfold Super.uvmalloc
  by_cases hlt : newsz < sz
  · exact ⟨k, pt, sz, if_pos hlt, fun _ _ => rfl⟩
  rw [if_neg hlt, PGROUNDUP_eq sz]
  by_cases hpos : 0 < newsz
  · refine Kept.uvmallocLoop_returns hx hpos hnew (fun p h₁ h₂ => ?_) _ _ (Nat.le_refl _) h
      (.nothing (Nat.le_refl _) pt xperm)
    rw [← Option.not_isSome_iff_eq_none, hL p]
    omega
  · obtain ⟨rfl, rfl⟩ : newsz = 0 ∧ sz = 0 := by omega
    exact ⟨k, pt, 0, rfl, fun _ _ => rfl⟩

/-! ## The image -/

/-- The first `N` pages are 4 KB pages of the program. -/
def UserPages (pt : PageTable) (N : Nat) : Prop :=
  ∀ q < N, ∃ e, seen pt q = some (0, e) ∧ e.u = true

/-- `loadseg` returns when the pages it writes to are there. -/
def Loader.Returns (L : Loader) : Prop :=
  ∀ mem pt ph, Guarded pt → ph.vaddr % PGSIZE = 0 →
    (∀ q, ph.vaddr ≤ q * PGSIZE → q * PGSIZE < ph.vaddr + ph.filesz →
      ∃ e, seen pt q = some (0, e) ∧ e.u = true) →
    ∃ r, L.loadseg mem pt ph = .ok r

theorem stackLoader_returns : stackLoader.Returns := fun _ _ _ _ _ _ => ⟨_, rfl⟩

theorem Layout.congr (h : Layout pt N) (heq : ∀ p, seen pt' p = seen pt p) : Layout pt' N :=
  fun p => by rw [heq p]; exact h p

theorem Extended.userPages {M : Nat} {xperm : Flags} (h : Extended pt pt' N M xperm)
    (hu : UserPages pt N) : UserPages pt' M := by
  intro q hq
  by_cases hN : q < N
  · rw [h.outside q (by omega)]
    exact hu q hN
  · obtain ⟨e, hs, he⟩ := h.pages q (by omega) hq
    exact ⟨e, hs, by rw [he]⟩

/-- **The loop over the headers** returns, and the table is the one its size tells. -/
theorem Kept.loadSegments_returns (hI : L.Inside) (hR : L.Returns)
    (segments : List (Option Segment)) : ∀ {k : Kernel} {pt : PageTable} {sz : Nat},
    Kept kend ⟨k, pt, hand, superhand⟩ → Fixed pt trampoline t u →
    (∀ ph, some ph ∈ segments → ph.vaddr + ph.memsz ≤ IMAGETOP) → sz ≤ IMAGETOP →
    Layout pt (pages sz) → UserPages pt (pages sz) →
    ∃ k' pt' sz' ok, Super.loadSegments kend L k pt sz segments = .ok (k', pt', sz', ok) ∧
      Layout pt' (pages sz') := by
  have hU := UPAGES_eq
  have htop := IMAGETOP_eq
  induction segments with
  | nil =>
      intro k pt sz _ _ _ _ hlay _
      exact ⟨k, pt, sz, true, rfl, hlay⟩
  | cons ph rest ih =>
      intro k pt sz h hF hlow hsz hlay huser
      cases ph with
      | none => exact ⟨k, pt, sz, false, rfl, hlay⟩
      | some ph =>
          have hph := hlow ph List.mem_cons_self
          rw [Super.loadSegments]
          split
          · exact ⟨k, pt, sz, false, rfl, hlay⟩
          rename_i hheader
          have hfile : ph.vaddr + ph.filesz ≤ ph.vaddr + ph.memsz := by omega
          have hbelow : ph.vaddr + ph.memsz < SUPERPGSIZE := by
            simp only [SUPERPGSIZE]
            omega
          obtain ⟨k₁, pt₁, sz1, hal, hundo⟩ :=
            h.uvmalloc_returns { w := ph.w, x := ph.x } rfl hbelow hlay
          obtain ⟨hM, hres⟩ := h.uvmalloc_low rfl hbelow hal
          simp only [hal]
          by_cases h0 : sz1 = 0
          · exact ⟨k₁, pt₁, sz, false, if_pos h0, hlay.congr (hundo h0)⟩
          rw [if_neg h0]
          obtain ⟨hsz1, hend, hlay₁, huser₁⟩ : sz1 ≤ IMAGETOP ∧ ph.vaddr + ph.memsz ≤ sz1 ∧
              Layout pt₁ (pages sz1) ∧ UserPages pt₁ (pages sz1) := by
            rcases hres with h0' | ⟨hlt, rfl, rfl⟩ | ⟨rfl, hle, hext⟩
            · exact absurd h0' h0
            · exact ⟨hsz, hlt.le, hlay, huser⟩
            · exact ⟨hph, Nat.le_refl _, hext.layout hlay (pages_mono hle)
                ((pages_le (n := 509) (by omega)).trans (by omega)), hext.userPages huser⟩
          have hG := hlay₁.guarded hM.kept (hF.moves hM)
            ((pages_le (n := 509) (by omega)).trans (by omega))
          obtain ⟨⟨mem, ok⟩, hload⟩ := hR k₁.mem pt₁ ph hG (by omega) (fun q _ hq =>
            huser₁ q (lt_pages.mpr (by simp only [PGSIZE] at hq; omega)))
          have hM' := hM.trans (hM.kept.within (hI.loadseg _ _ _ _ _ hG (by
            rw [USYSCALL_eq]
            omega) hload))
          cases ok with
          | false => exact ⟨{ k₁ with mem := mem }, pt₁, sz1, false, by simp only [hload], hlay₁⟩
          | true =>
              obtain ⟨k', pt', sz', ok, hloop, hlay'⟩ := ih hM'.kept (hF.moves hM')
                (fun ph hmem => hlow ph (List.mem_cons_of_mem _ hmem)) hsz1 hlay₁ huser₁
              exact ⟨k', pt', sz', ok, by simp only [hload, hloop], hlay'⟩

theorem Kept.uvmclear_returns (h : Kept kend ⟨k, pt, hand, superhand⟩) {q : Nat} {e : Pte}
    (hq : q < 512) (hseen : seen pt q = some (0, e)) :
    ∃ pt', Super.uvmclear k pt (q * 4096) = .ok pt' := by
  obtain ⟨hp₀, hp₁, -⟩ := vpn_page q
  have hmax : q * 4096 < MAXVA := by
    simp only [MAXVA]
    omega
  have hs : superAt pt (q / 512) = false := by
    rw [superAt_eq_seen, hseen]
    rfl
  have htab : tableAt pt (q / 512) = true := by
    unfold seen at hseen
    rw [hs, if_neg Bool.false_ne_true] at hseen
    split at hseen
    · rename_i hv
      exact (h.tree.bot q hv).1
    · cases hseen
  have hT : Tree pt := h.tree
  unfold Super.uvmclear
  rw [hT.walk k hmax, hp₀, hp₁, hs, if_neg Bool.false_ne_true, if_pos htab]
  exact ⟨_, rfl⟩

theorem pushStrings_le {U : Exec.UserMem Mem} {n stackbase : Nat} (argv : List Bytes) :
    ∀ {mem mem' : Mem} {sp sp' : Nat} {ustack ustack' : List Nat}, ustack.length ≤ n →
    Exec.pushStrings U n stackbase argv mem sp ustack = .ok (mem', sp', ustack') →
    ustack'.length ≤ n := by
  induction argv with
  | nil =>
      intro mem mem' sp sp' ustack ustack' hle hok
      simp only [Exec.pushStrings, Except.ok.injEq, Prod.mk.injEq] at hok
      rwa [← hok.2.2]
  | cons s argv ih =>
      intro mem mem' sp sp' ustack ustack' hle hok
      rw [Exec.pushStrings] at hok
      split at hok
      · cases hok
      rename_i hlt
      simp only at hok
      split at hok
      · cases hok
      split at hok
      · cases hok
      refine ih ?_ hok
      rw [List.length_append, List.length_singleton]
      omega

theorem pushStrings_bad {U : Exec.UserMem Mem} {n stackbase : Nat} {stop : Exec.Stop}
    (argv : List Bytes) : ∀ {mem : Mem} {sp : Nat} {ustack : List Nat},
    Exec.pushStrings U n stackbase argv mem sp ustack = .error stop → stop = .bad := by
  induction argv with
  | nil =>
      intro mem sp ustack herr
      cases herr
  | cons s argv ih =>
      intro mem sp ustack herr
      rw [Exec.pushStrings] at herr
      split at herr
      · exact (Except.error.inj herr).symm
      simp only at herr
      split at herr
      · exact (Except.error.inj herr).symm
      split at herr
      · exact (Except.error.inj herr).symm
      · exact ih herr

/-- Only `MAXARG` arguments get past the test and `ustack`. -/
theorem pushArgs_inside {U : Exec.UserMem Mem} {n stackbase sz : Nat} {argv : List Bytes}
    (hne : argv.length ≠ n) (mem : Mem) :
    Exec.pushArgs U n stackbase mem sz argv ≠ .error .outside := by
  intro herr
  unfold Exec.pushArgs at herr
  split at herr
  · rename_i hstrings
    rw [pushStrings_bad argv hstrings] at herr
    cases herr
  rename_i hstrings
  have hle := pushStrings_le argv (Nat.zero_le n) hstrings
  have hlen := pushStrings_argc argv hstrings
  rw [List.length_nil, Nat.zero_add] at hlen
  unfold Exec.pushVector at herr
  simp only at herr
  rw [if_neg (by omega)] at herr
  split at herr
  · cases herr
  split at herr
  · cases herr
  · cases herr

/-- **The new image**: there is one, or the table is the one its size tells. -/
theorem Kept.execImage_returns (hI : L.Inside) (hR : L.Returns) {elf : Elf} (helf : elf.Low)
    {argv : List Bytes} (hargs : argv.length ≠ MAXARG)
    (h : Kept kend ⟨k, pt, hand, superhand⟩) (hF : Fixed pt trampoline t u)
    (hlay : Layout pt 0) :
    ∃ k' pt' sz' o, Super.execImage kend L k pt elf argv = .ok (k', pt', sz', o) ∧
      Layout pt' (pages sz') := by
  have htop := IMAGETOP_eq
  obtain ⟨k₁, pt₁, sz₁, ok, hload, hlay₁⟩ := Kept.loadSegments_returns hI hR elf.segments h hF
    helf (Nat.zero_le _) hlay (fun q hq => absurd hq (Nat.not_lt_zero q))
  obtain ⟨hM, hsz, -⟩ := Kept.loadSegments hI _ h hF helf (Nat.zero_le _) hlay hload
  unfold Super.execImage
  cases ok with
  | false => exact ⟨k₁, pt₁, sz₁, none, by simp only [hload], hlay₁⟩
  | true =>
      have hround : PGROUNDUP sz₁ = pages sz₁ * 4096 := PGROUNDUP_eq sz₁
      have hP : pages sz₁ ≤ 509 := pages_le (by omega)
      have hstack : pages sz₁ * 4096 + (USERSTACK + 1) * PGSIZE = (pages sz₁ + 2) * 4096 := by
        simp only [USERSTACK, PGSIZE]
        omega
      have hpages : ∀ n, pages (n * 4096) = n := by
        intro n
        unfold pages
        omega
      simp only [hload, hround, hstack]
      generalize pages sz₁ = P at *
      have hlow : (P + 2) * 4096 < SUPERPGSIZE := by
        simp only [SUPERPGSIZE]
        omega
      have hlayP : Layout pt₁ (pages (P * 4096)) := by rwa [hpages]
      obtain ⟨k₂, pt₂, sz₂, hal, hundo⟩ :=
        hM.kept.uvmalloc_returns { w := true } rfl hlow hlayP
      obtain ⟨hM₂, hres⟩ := hM.kept.uvmalloc_low rfl hlow hal
      simp only [hal]
      by_cases h0 : sz₂ = 0
      · exact ⟨k₂, pt₂, P * 4096, none, if_pos h0, hlayP.congr (hundo h0)⟩
      rw [if_neg h0]
      obtain ⟨rfl, hext⟩ : sz₂ = (P + 2) * 4096 ∧ Extended pt₁ pt₂ P (P + 2) { w := true } := by
        rcases hres with h0' | ⟨hlt, -, -⟩ | ⟨hsz₂, -, hext⟩
        · exact absurd h0' h0
        · omega
        · rw [hpages, hpages] at hext
          exact ⟨hsz₂, hext⟩
      obtain ⟨e, hseen, -⟩ := hext.pages P (Nat.le_refl P) (by omega)
      have hguard : (P + 2) * 4096 - (USERSTACK + 1) * PGSIZE = P * 4096 := by
        simp only [USERSTACK, PGSIZE]
        omega
      obtain ⟨pt₃, hclear⟩ := hM₂.kept.uvmclear_returns (by omega) hseen
      obtain ⟨-, hshow⟩ := hM₂.kept.uvmclear (by omega) hseen hclear
      have himage := hext.image hlay₁ hP hseen hshow
      simp only [hguard, hclear]
      rcases hpush : Exec.pushArgs (L.user pt₃) MAXARG ((P + 2) * 4096 - USERSTACK * PGSIZE)
        k₂.mem ((P + 2) * 4096) argv with (_ | _) | ⟨mem, sp, argc⟩
      · exact ⟨_, pt₃, _, none, rfl, himage.layout⟩
      · exact absurd hpush (pushArgs_inside hargs k₂.mem)
      · exact ⟨_, pt₃, _, some (sp, argc), rfl, himage.layout⟩

/-! ## `exec` -/

/-- **`exec` returns**: the table of the process is the one its size tells. -/
theorem Ledger.exec_returns {c₀ s₀ : Nat → Nat} {held : List Nat} {y : Sys} {p : Slot} {i : Nat}
    (h : Ledger trampoline c₀ s₀ held y) (hS : Stock kend c₀ s₀) (hp : y.proc[i]? = some p)
    (hL : Process trampoline y.k.mem p pt t u) (hI : L.Inside) (hR : L.Returns)
    {elf : Option Elf} (helf : ∀ e, elf = some e → e.Low) {argv : List Bytes}
    (hargs : argv.length ≠ MAXARG) (hlay : Layout pt (pages p.sz)) (path : List UInt8) :
    ∃ r, Super.exec kend L trampoline y.k p path elf argv = .ok r := by
  obtain ⟨hsort, -, -⟩ := h.sorted hS
  unfold Super.exec
  cases elf with
  | none => exact ⟨_, rfl⟩
  | some elf =>
      simp only [hL.trapframe, hL.usyscall, hL.pagetable]
      have hframes : ∀ f ∈ y.k.freelist, KallocFrame kend f := by
        intro f hf
        obtain ⟨hal, hlo, -, hhi⟩ := hsort.small f hf
        exact ⟨hal, hlo, hhi.trans (by decide)⟩
      rcases proc_pagetable_cases hframes trampoline t u with ⟨k₁, htable, -⟩ |
        ⟨k₁, new, -, -, -, htable, -, -⟩
      · simp only [htable]
        exact ⟨_, rfl⟩
      obtain ⟨hnone, -⟩ | ⟨new', hsome, hMade, hF, hlay₀⟩ := proc_pagetable_made hsort htable
      · cases hnone
      obtain rfl := Option.some.inj hsome
      obtain ⟨k₂, new₂, sz, o, himage, hlay₂⟩ :=
        hMade.kept.execImage_returns hI hR (helf elf rfl) hargs hF hlay₀
      obtain ⟨hM, hsz, -⟩ := hMade.kept.execImage hI (helf elf rfl) hF hlay₀ himage
      simp only [htable, himage]
      cases o with
      | none =>
          -- the new image goes
          obtain ⟨k₃, hfree⟩ := hM.kept.proc_freepagetable_returns hlay₂ (by
            simp only [SUPERPGSIZE] at hsz
            omega)
          simp only [hfree]
          exact ⟨_, rfl⟩
      | some args =>
          -- the old image goes
          obtain ⟨sp, argc⟩ := args
          have hK := h.beside hS hp hL (hMade.moves hM) (setRegisters k₂.mem t sp elf.entry)
          obtain ⟨k₃, hfree⟩ := hK.proc_freepagetable_returns hlay hL.size
          simp only [hfree]
          exact ⟨_, rfl⟩

end Xv6Labs.Super
