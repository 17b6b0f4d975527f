import Xv6Labs.Super.Tree
import Xv6Labs.Lib.Run

/-!
# `uvmalloc` and `sbrksuperuvmalloc`

Two copies of one loop. The second returns what the first does
(`uvmallocLoop_eq`), and its counters describe the chunks that were mapped: a
successful call is a run of `Round`s, a run maps the chunks that `chunks` lists for
its two sizes, and an entry of the page table is new exactly when it is one of them
(`sbrksuperuvmalloc_agrees`).
-/

namespace Xv6Labs.Super

open Xv6Labs.Lib

variable {kend : Nat} {k k' : Kernel} {pt pt' : PageTable} {newsz : Nat} {xperm : Flags}

/-! ## The two loops -/

/-- Without its counts the loop of `sbrksuperuvmalloc` is the one of `uvmalloc`. -/
theorem uvmallocLoop_eq (kend oldsz newsz : Nat) (xperm : Flags) (n : Nat) :
    ∀ (k : Kernel) (pt : PageTable) (a : Nat) (help : SbrkHelp),
    uvmallocLoop kend k pt oldsz a newsz xperm n =
      match sbrksuperuvmallocLoop kend k pt oldsz a newsz xperm help n with
      | .error e => .error e
      | .ok (k, pt, help) => .ok (k, pt, if help.state then newsz else 0) := by
  induction n with
  | zero =>
      intro k pt a help
      rfl
  | succ n ih =>
      intro k pt a help
      unfold uvmallocLoop sbrksuperuvmallocLoop
      by_cases hlt : a < newsz
      swap
      · rw [if_neg hlt, if_neg hlt]
        rfl
      rw [if_pos hlt, if_pos hlt]
      by_cases hbig : a % SUPERPGSIZE = 0 ∧ newsz - a ≥ SUPERPGSIZE
      · rw [if_pos hbig, if_pos hbig]
        simp only
        rcases superkalloc k with ⟨_ | mem, k₁⟩
        · simp only
          cases uvmdealloc kend k₁ pt a oldsz <;> rfl
        · simp only
          rcases supermappages _ pt a SUPERPGSIZE mem _ with e | ⟨k₂, pt₂, ret⟩
          · rfl
          · simp only
            by_cases hret : ret ≠ 0
            · rw [if_pos hret, if_pos hret]
              cases superkfree kend k₂ mem with
              | error e => rfl
              | ok k₃ =>
                  simp only
                  cases uvmdealloc kend k₃ pt₂ a oldsz <;> rfl
            · rw [if_neg hret, if_neg hret]
              exact ih _ _ _ _
      · rw [if_neg hbig, if_neg hbig]
        simp only
        rcases kalloc k with ⟨_ | mem, k₁⟩
        · simp only
          cases uvmdealloc kend k₁ pt a oldsz <;> rfl
        · simp only
          rcases mappages _ pt a PGSIZE mem _ with e | ⟨k₂, pt₂, ret⟩
          · rfl
          · simp only
            by_cases hret : ret ≠ 0
            · rw [if_pos hret, if_pos hret]
              cases kfree kend k₂ mem with
              | error e => rfl
              | ok k₃ =>
                  simp only
                  cases uvmdealloc kend k₃ pt₂ a oldsz <;> rfl
            · rw [if_neg hret, if_neg hret]
              exact ih _ _ _ _

/-! ## What a growth takes -/

/-- Superpages that growing from page `N` to `newsz` takes: the slots from the
first boundary at or after page `N` that end at or before `newsz`. -/
def superNeed (N newsz : Nat) : Nat := newsz / 2097152 - (N + 511) / 512

def smallNeed (N newsz : Nat) : Nat := pages newsz - N - superNeed N newsz * 512

def startNeed (N newsz : Nat) : Nat :=
  if superNeed N newsz = 0 then smallNeed N newsz else (N + 511) / 512 * 512 - N

theorem need_small {P : Nat} (hlt : P * 4096 < newsz)
    (hno : ¬ (P % 512 = 0 ∧ 2097152 ≤ newsz - P * 4096)) :
    smallNeed P newsz = smallNeed (P + 1) newsz + 1 ∧
      superNeed (P + 1) newsz = superNeed P newsz ∧
      startNeed P newsz = startNeed (P + 1) newsz + 1 := by
  have hsuper : superNeed (P + 1) newsz = superNeed P newsz := by
    unfold superNeed
    omega
  have hsmall : smallNeed P newsz = smallNeed (P + 1) newsz + 1 := by
    unfold smallNeed
    rw [hsuper]
    unfold superNeed pages
    omega
  refine ⟨hsmall, hsuper, ?_⟩
  unfold startNeed
  rw [hsuper]
  split
  · exact hsmall
  · rename_i h
    unfold superNeed at h
    omega

theorem need_super {P : Nat} (hal : P % 512 = 0) (hbig : 2097152 ≤ newsz - P * 4096) :
    smallNeed P newsz = smallNeed (P + 512) newsz ∧
      superNeed P newsz = superNeed (P + 512) newsz + 1 ∧ startNeed P newsz = 0 ∧
      (superNeed (P + 512) newsz ≠ 0 → startNeed (P + 512) newsz = 0) := by
  have hsuper : superNeed P newsz = superNeed (P + 512) newsz + 1 := by
    unfold superNeed
    omega
  refine ⟨?_, hsuper, ?_, fun hne => ?_⟩
  · unfold smallNeed
    rw [hsuper]
    unfold superNeed pages
    omega
  · unfold startNeed
    rw [if_neg (by omega)]
    omega
  · unfold startNeed
    rw [if_neg hne]
    omega

theorem need_done {P : Nat} (h : newsz ≤ P * 4096) :
    smallNeed P newsz = 0 ∧ superNeed P newsz = 0 ∧ startNeed P newsz = 0 := by
  have hpages : pages newsz ≤ P := by
    unfold pages
    omega
  have hsuper : superNeed P newsz = 0 := by
    unfold superNeed
    omega
  have hsmall : smallNeed P newsz = 0 := by
    unfold smallNeed
    omega
  refine ⟨hsmall, hsuper, ?_⟩
  unfold startNeed
  rw [if_pos hsuper, hsmall]

theorem startNeed_le (N newsz : Nat) : startNeed N newsz ≤ smallNeed N newsz := by
  unfold startNeed
  split
  · exact Nat.le_refl _
  · rename_i hne
    unfold superNeed at hne
    unfold smallNeed superNeed pages
    omega

/-- The chunks from page `P` on: `start` pages, then `super` superpages, then `rest`
pages. -/
def chunks (P start super rest : Nat) : List PtePtr :=
  (List.range' P start).map (fun q => (0, q)) ++
    (List.range' ((P + start) / 512) super).map (fun j => (1, j)) ++
      (List.range' (P + start + super * 512) rest).map (fun q => (0, q))

def layout (P newsz : Nat) : List PtePtr :=
  chunks P (startNeed P newsz) (superNeed P newsz) (smallNeed P newsz - startNeed P newsz)

theorem layout_done {P : Nat} (h : newsz ≤ P * 4096) : layout P newsz = [] := by
  obtain ⟨hs, hS, hst⟩ := need_done h
  unfold layout chunks
  rw [hs, hS, hst]
  rfl

theorem layout_small {P : Nat} (hlt : P * 4096 < newsz)
    (hno : ¬ (P % 512 = 0 ∧ 2097152 ≤ newsz - P * 4096)) :
    layout P newsz = (0, P) :: layout (P + 1) newsz := by
  obtain ⟨hs, hS, hst⟩ := need_small hlt hno
  have hrest : smallNeed (P + 1) newsz + 1 - (startNeed (P + 1) newsz + 1) =
      smallNeed (P + 1) newsz - startNeed (P + 1) newsz := by omega
  have hpage : P + (startNeed (P + 1) newsz + 1) = P + 1 + startNeed (P + 1) newsz := by
    omega
  unfold layout chunks
  rw [hs, ← hS, hst, hrest, hpage, List.range'_succ]
  rfl

theorem layout_super {P : Nat} (hal : P % 512 = 0) (hbig : 2097152 ≤ newsz - P * 4096) :
    layout P newsz = (1, P / 512) :: layout (P + 512) newsz := by
  obtain ⟨hs, hS, hst, hnext⟩ := need_super hal hbig
  unfold layout chunks
  rw [hs, hS, hst, List.range'_succ]
  have hslot : (P + 512 + 0) / 512 = P / 512 + 1 := by omega
  by_cases hlast : superNeed (P + 512) newsz = 0
  · have hstart : startNeed (P + 512) newsz = smallNeed (P + 512) newsz := by
      unfold startNeed
      rw [if_pos hlast]
    rw [hlast, hstart]
    simp
  · have hpage : P + 0 + (superNeed (P + 512) newsz + 1) * 512 =
        P + 512 + 0 + superNeed (P + 512) newsz * 512 := by omega
    rw [hnext hlast, hslot, hpage]
    rfl

/-! ## Successful calls -/

/-- A growth under way: the page it has reached, and the state there. -/
structure Growth where
  page : Nat
  k : Kernel
  pt : PageTable

/-- A round that maps a chunk, labelled with the chunk and its frame. -/
inductive Round (newsz : Nat) (xperm : Flags) : Growth → PtePtr × Nat → Growth → Prop
  | small {P mem : Nat} {k k₁ k' : Kernel} {pt pt' : PageTable}
      (hlt : P * 4096 < newsz) (hno : ¬ (P % 512 = 0 ∧ 2097152 ≤ newsz - P * 4096))
      (hk : kalloc k = (some mem, k₁))
      (hmap : mappages { k₁ with mem := k₁.mem.fill mem PGSIZE 0 } pt (P * 4096) PGSIZE
        mem { xperm with r := true, u := true } = .ok (k', pt', 0)) :
      Round newsz xperm ⟨P, k, pt⟩ ((0, P), mem) ⟨P + 1, k', pt'⟩
  | super {P mem : Nat} {k k₁ k' : Kernel} {pt pt' : PageTable}
      (hal : P % 512 = 0) (hbig : 2097152 ≤ newsz - P * 4096)
      (hk : superkalloc k = (some mem, k₁))
      (hmap : supermappages { k₁ with mem := k₁.mem.fill mem SUPERPGSIZE 0 } pt (P * 4096)
        SUPERPGSIZE mem { xperm with r := true, u := true } = .ok (k', pt', 0)) :
      Round newsz xperm ⟨P, k, pt⟩ ((1, P / 512), mem) ⟨P + 512, k', pt'⟩

def SbrkHelp.count (help : SbrkHelp) (c : PtePtr × Nat) : SbrkHelp :=
  if c.1.1 = 1 then { help with superpages := help.superpages + 1 }
  else if help.superpages = 0 then { help with startpages := help.startpages + 1 }
  else { help with endpages := help.endpages + 1 }

/-- **A call that reports success** is a run of rounds up to `newsz`. -/
theorem sbrksuperuvmallocLoop_run {oldsz : Nat} (n : Nat) : ∀ {k : Kernel}
    {pt : PageTable} {P : Nat} {help help' : SbrkHelp}, pages newsz ≤ P + n →
    sbrksuperuvmallocLoop kend k pt oldsz (P * 4096) newsz xperm help n =
      .ok (k', pt', help') → help'.state = true →
    ∃ cs P', Run (Round newsz xperm) ⟨P, k, pt⟩ cs ⟨P', k', pt'⟩ ∧ newsz ≤ P' * 4096 ∧
      help' = { cs.foldl SbrkHelp.count help with sz := toInt newsz, state := true } := by
  induction n with
  | zero =>
      intro k pt P help help' hfuel hok _
      unfold sbrksuperuvmallocLoop at hok
      simp only [Except.ok.injEq, Prod.mk.injEq] at hok
      obtain ⟨rfl, rfl, rfl⟩ := hok
      refine ⟨[], P, .nil _, ?_, rfl⟩
      by_contra hlt
      have := lt_pages.mpr (Nat.not_le.mp hlt)
      omega
  | succ n ih =>
      intro k pt P help help' hfuel hok hstate
      unfold sbrksuperuvmallocLoop at hok
      by_cases hlt : P * 4096 < newsz
      swap
      · rw [if_neg hlt] at hok
        simp only [Except.ok.injEq, Prod.mk.injEq] at hok
        obtain ⟨rfl, rfl, rfl⟩ := hok
        exact ⟨[], P, .nil _, Nat.not_lt.mp hlt, rfl⟩
      rw [if_pos hlt] at hok
      -- a rollback reports failure, so the round went through
      by_cases hbig : P * 4096 % SUPERPGSIZE = 0 ∧ newsz - P * 4096 ≥ SUPERPGSIZE
      · rw [if_pos hbig] at hok
        have hal : P % 512 = 0 := by
          simp only [SUPERPGSIZE] at hbig
          omega
        split at hok
        · split at hok
          · cases hok
          · simp only [Except.ok.injEq, Prod.mk.injEq] at hok
            rw [← hok.2.2] at hstate
            cases hstate
        rename_i mem k₁ hk
        simp only at hok
        split at hok
        · cases hok
        rename_i k₂ pt₂ ret hmap
        split at hok
        · split at hok
          · cases hok
          split at hok
          · cases hok
          · simp only [Except.ok.injEq, Prod.mk.injEq] at hok
            rw [← hok.2.2] at hstate
            cases hstate
        rename_i hret
        rw [ne_eq, not_not] at hret
        subst hret
        have hnext : P * 4096 + SUPERPGSIZE = (P + 512) * 4096 := by
          rw [Nat.add_mul]
          rfl
        rw [hnext] at hok
        obtain ⟨cs, P', hrun, hend, hhelp⟩ := ih (by omega) hok hstate
        refine ⟨((1, P / 512), mem) :: cs, P', .cons (.super hal hbig.2 hk hmap) hrun, hend,
          ?_⟩
        rw [hhelp]
        rfl
      · rw [if_neg hbig] at hok
        have hno : ¬ (P % 512 = 0 ∧ 2097152 ≤ newsz - P * 4096) := by
          simp only [SUPERPGSIZE] at hbig
          omega
        have hcount : ∀ mem, help.count ((0, P), mem) =
            if help.superpages = 0 then { help with startpages := help.startpages + 1 }
            else { help with endpages := help.endpages + 1 } := fun mem => if_neg (by simp)
        rw [← hcount 0] at hok
        split at hok
        · split at hok
          · cases hok
          · simp only [Except.ok.injEq, Prod.mk.injEq] at hok
            rw [← hok.2.2] at hstate
            cases hstate
        rename_i mem k₁ hk
        simp only at hok
        split at hok
        · cases hok
        rename_i k₂ pt₂ ret hmap
        split at hok
        · split at hok
          · cases hok
          split at hok
          · cases hok
          · simp only [Except.ok.injEq, Prod.mk.injEq] at hok
            rw [← hok.2.2] at hstate
            cases hstate
        rename_i hret
        rw [ne_eq, not_not] at hret
        subst hret
        have hnext : P * 4096 + PGSIZE = (P + 1) * 4096 := (Nat.succ_mul P 4096).symm
        rw [hnext] at hok
        obtain ⟨cs, P', hrun, hend, hhelp⟩ := ih (by omega) hok hstate
        refine ⟨((0, P), mem) :: cs, P', .cons (.small hlt hno hk hmap) hrun, hend, ?_⟩
        rw [hhelp]
        rfl

/-- **The chunks of a run** are those of its two sizes, in order. -/
theorem Round.run_chunks {s t : Growth} {cs : List (PtePtr × Nat)}
    (h : Run (Round newsz xperm) s cs t) (hend : newsz ≤ t.page * 4096) :
    cs.map Prod.fst = layout s.page newsz := by
  induction h with
  | nil s => rw [layout_done hend, List.map_nil]
  | cons hround _ ih =>
      rw [List.map_cons, ih hend]
      cases hround with
      | small hlt hno _ _ => rw [layout_small hlt hno]
      | super hal hbig _ _ => rw [layout_super hal hbig]

/-- How the counters of `struct sbrkhelp` move from page `P` on. -/
structure Counts (P newsz : Nat) (help help' : SbrkHelp) : Prop where
  superpages : help'.superpages = help.superpages + superNeed P newsz
  first : help.superpages = 0 →
    help'.startpages = help.startpages + startNeed P newsz ∧
      help'.endpages = help.endpages + (smallNeed P newsz - startNeed P newsz)
  rest : 0 < help.superpages → (0 < superNeed P newsz → P % 512 = 0) →
    help'.startpages = help.startpages ∧
      help'.endpages = help.endpages + smallNeed P newsz

theorem Counts.small {P mem : Nat} {help help' : SbrkHelp} (hlt : P * 4096 < newsz)
    (hno : ¬ (P % 512 = 0 ∧ 2097152 ≤ newsz - P * 4096))
    (h : Counts (P + 1) newsz (help.count ((0, P), mem)) help') :
    Counts P newsz help help' := by
  obtain ⟨hs, hS, hst⟩ := need_small hlt hno
  have hle := startNeed_le (P + 1) newsz
  unfold SbrkHelp.count at h
  rw [if_neg (by simp)] at h
  by_cases hzero : help.superpages = 0
  · rw [if_pos hzero] at h
    refine ⟨?_, fun _ => ?_, fun hpos => by omega⟩
    · rw [h.superpages, hS]
    · obtain ⟨h₁, h₂⟩ := h.first hzero
      refine ⟨?_, ?_⟩
      · rw [h₁, hst]
        simp only
        omega
      · rw [h₂, hs, hst]
        simp only
        omega
  · rw [if_neg hzero] at h
    refine ⟨?_, fun h₀ => absurd h₀ hzero, fun hpos hal => ?_⟩
    · rw [h.superpages, hS]
    · have hnone : superNeed P newsz = 0 := by
        by_contra hne
        have := hal (by omega)
        unfold superNeed at hne
        omega
      obtain ⟨h₁, h₂⟩ := h.rest hpos (by rw [hS, hnone]; omega)
      refine ⟨h₁, ?_⟩
      rw [h₂, hs]
      simp only
      omega

theorem Counts.super {P mem : Nat} {help help' : SbrkHelp} (hal : P % 512 = 0)
    (hbig : 2097152 ≤ newsz - P * 4096)
    (h : Counts (P + 512) newsz (help.count ((1, P / 512), mem)) help') :
    Counts P newsz help help' := by
  obtain ⟨hs, hS, hst, -⟩ := need_super hal hbig
  unfold SbrkHelp.count at h
  rw [if_pos rfl] at h
  obtain ⟨h₁, h₂⟩ := h.rest (Nat.succ_pos _) (fun _ => by omega)
  refine ⟨?_, fun _ => ⟨?_, ?_⟩, fun _ _ => ⟨h₁, ?_⟩⟩
  · rw [h.superpages, hS, Nat.add_assoc, Nat.add_comm 1]
  · rw [h₁, hst]
    rfl
  · rw [h₂, hst, hs, Nat.sub_zero]
  · rw [h₂, hs]

/-- **The counters of a run.** -/
theorem Round.run_counts {s t : Growth} {cs : List (PtePtr × Nat)}
    (h : Run (Round newsz xperm) s cs t) (hend : newsz ≤ t.page * 4096) :
    ∀ help, Counts s.page newsz help (cs.foldl SbrkHelp.count help) := by
  induction h with
  | nil s =>
      intro help
      obtain ⟨hs, hS, hst⟩ := need_done hend
      refine ⟨?_, fun _ => ?_, fun _ _ => ?_⟩
      · rw [hS]
        rfl
      · rw [hs, hst]
        exact ⟨rfl, rfl⟩
      · rw [hs]
        exact ⟨rfl, rfl⟩
  | cons hround _ ih =>
      intro help
      cases hround with
      | small hlt hno _ _ => exact (ih hend _).small hlt hno
      | super hal hbig _ _ => exact (ih hend _).super hal hbig

/-! ## New entries -/

/-- The entry is valid and lies in a table of the tree. No table lies below a leaf of
level 1; `superwalk` does not look whether a level-2 entry is one. -/
def Live (pt : PageTable) : PtePtr → Prop
  | (0, q) => (pt.ent 2 (q / 512 / 512)).v = true ∧ (pt.ent 1 (q / 512)).v = true ∧
      (pt.ent 1 (q / 512)).leaf = false ∧ (pt.ent 0 q).v = true
  | (1, j) => (pt.ent 2 (j / 512)).v = true ∧ (pt.ent 1 j).v = true
  | (2, i) => (pt.ent 2 i).v = true
  | _ => False

/-- A leaf of `pt'` where `pt` had no entry. -/
def NewLeaf (pt pt' : PageTable) (c : PtePtr) : Prop :=
  ¬ Live pt c ∧ Live pt' c ∧ (pt'.ent c.1 c.2).leaf = true

/-- Every entry of `pt` is still there, and the new leaves are those in `new`. -/
structure Gains (pt pt' : PageTable) (new : PtePtr → Prop) : Prop where
  kept : ∀ c, Live pt c → Live pt' c ∧ pt'.ent c.1 c.2 = pt.ent c.1 c.2
  leaves : ∀ c, NewLeaf pt pt' c ↔ new c

theorem Gains.refl (pt : PageTable) : Gains pt pt (fun _ => False) :=
  ⟨fun _ h => ⟨h, rfl⟩, fun _ => ⟨fun h => h.1 h.2.1, False.elim⟩⟩

theorem Gains.trans {pt₁ : PageTable} {new new' : PtePtr → Prop} (h : Gains pt pt₁ new)
    (h' : Gains pt₁ pt' new') : Gains pt pt' (fun c => new c ∨ new' c) := by
  refine ⟨fun c hc => ?_, fun c => ⟨?_, ?_⟩⟩
  · obtain ⟨h₁, e₁⟩ := h.kept c hc
    obtain ⟨h₂, e₂⟩ := h'.kept c h₁
    exact ⟨h₂, e₂.trans e₁⟩
  · rintro ⟨hold, hnow, hleaf⟩
    by_cases hmid : Live pt₁ c
    · rw [(h'.kept c hmid).2] at hleaf
      exact .inl ((h.leaves c).mp ⟨hold, hmid, hleaf⟩)
    · exact .inr ((h'.leaves c).mp ⟨hmid, hnow, hleaf⟩)
  · rintro (hc | hc)
    · obtain ⟨hold, hmid, hleaf⟩ := (h.leaves c).mpr hc
      obtain ⟨hnow, e⟩ := h'.kept c hmid
      exact ⟨hold, hnow, by rw [e]; exact hleaf⟩
    · obtain ⟨hmid, hnow, hleaf⟩ := (h'.leaves c).mpr hc
      exact ⟨fun hold => hmid (h.kept c hold).1, hnow, hleaf⟩

theorem Gains.congr {new new' : PtePtr → Prop} (h : Gains pt pt' new)
    (heq : ∀ c, new c ↔ new' c) : Gains pt pt' new' :=
  ⟨h.kept, fun c => (h.leaves c).trans (heq c)⟩

/-- A pointer was written over an invalid entry, and what lies below it is empty. -/
theorem gains_nothing
    (hkept : ∀ c, Live pt c → Live pt' c ∧ pt'.ent c.1 c.2 = pt.ent c.1 c.2)
    (hnone : ∀ c, ¬ Live pt c → Live pt' c → (pt'.ent c.1 c.2).leaf = false) :
    Gains pt pt' (fun _ => False) := by
  refine ⟨hkept, fun c => ⟨?_, False.elim⟩⟩
  rintro ⟨hold, hnow, hleaf⟩
  rw [hnone c hold hnow] at hleaf
  cases hleaf

theorem gains_newTable_one {j r : Nat} {flags : Flags} (hinv : (pt.ent 1 j).v = false)
    (hplain : (PA2PTE r flags).leaf = false) :
    Gains pt (pt.newTable 1 j r flags) (fun _ => False) := by
  obtain ⟨e₂, e₁, e₁', e₀, e₀'⟩ := newTable_one_ent pt j r flags
  generalize pt.newTable 1 j r flags = new at *
  have hslot : ∀ j', (pt.ent 1 j').v = true → new.ent 1 j' = pt.ent 1 j' := by
    intro j' hv
    refine e₁' j' (fun hh => ?_)
    rw [hh, hinv] at hv
    cases hv
  refine gains_nothing ?_ ?_
  · rintro ⟨_ | _ | _ | level, i⟩ hc
    · obtain ⟨h₂, h₁, hl, h₀⟩ := hc
      have hi : i / 512 ≠ j := fun hh => by
        rw [hh, hinv] at h₁
        cases h₁
      simp only [Live, e₂, hslot _ h₁, e₀' i hi]
      exact ⟨⟨h₂, h₁, hl, h₀⟩, trivial⟩
    · obtain ⟨h₂, h₁⟩ := hc
      simp only [Live, e₂, hslot i h₁]
      exact ⟨⟨h₂, h₁⟩, trivial⟩
    · simp only [Live, e₂]
      exact ⟨hc, trivial⟩
    · cases hc
  · rintro ⟨_ | _ | _ | level, i⟩ hold hnow
    · obtain ⟨h₂, h₁, hl, h₀⟩ := hnow
      by_cases hi : i / 512 = j
      · rw [e₀ i hi] at h₀
        cases h₀
      · rw [e₁' _ hi] at h₁ hl
        rw [e₂] at h₂
        rw [e₀' i hi] at h₀
        exact absurd ⟨h₂, h₁, hl, h₀⟩ hold
    · obtain ⟨h₂, h₁⟩ := hnow
      by_cases hi : i = j
      · rw [hi]
        exact (congrArg Pte.leaf e₁).trans hplain
      · rw [e₁' i hi] at h₁
        rw [e₂] at h₂
        exact absurd ⟨h₂, h₁⟩ hold
    · refine absurd ?_ hold
      show (pt.ent 2 i).v = true
      rw [← e₂]
      exact hnow
    · cases hnow

theorem gains_newTable_two {i r : Nat} {flags : Flags} (hinv : (pt.ent 2 i).v = false)
    (hplain : (PA2PTE r flags).leaf = false) :
    Gains pt (pt.newTable 2 i r flags) (fun _ => False) := by
  obtain ⟨e₂, e₂', e₁, e₁', e₀⟩ := newTable_two_ent pt i r flags
  generalize pt.newTable 2 i r flags = new at *
  have hregion : ∀ i', (pt.ent 2 i').v = true → i' ≠ i := by
    intro i' hv hh
    rw [hh, hinv] at hv
    cases hv
  refine gains_nothing ?_ ?_
  · rintro ⟨_ | _ | _ | level, q⟩ hc
    · obtain ⟨h₂, h₁, hl, h₀⟩ := hc
      have hq := hregion _ h₂
      simp only [Live, e₂' _ hq, e₁' _ hq, e₀]
      exact ⟨⟨h₂, h₁, hl, h₀⟩, trivial⟩
    · obtain ⟨h₂, h₁⟩ := hc
      have hq := hregion _ h₂
      simp only [Live, e₂' _ hq, e₁' _ hq]
      exact ⟨⟨h₂, h₁⟩, trivial⟩
    · simp only [Live, e₂' _ (hregion q hc)]
      exact ⟨hc, trivial⟩
    · cases hc
  · rintro ⟨_ | _ | _ | level, q⟩ hold hnow
    · obtain ⟨h₂, h₁, hl, h₀⟩ := hnow
      by_cases hq : q / 512 / 512 = i
      · rw [e₁ _ hq] at h₁
        cases h₁
      · rw [e₁' _ hq] at h₁ hl
        rw [e₂' _ hq] at h₂
        rw [e₀] at h₀
        exact absurd ⟨h₂, h₁, hl, h₀⟩ hold
    · obtain ⟨h₂, h₁⟩ := hnow
      by_cases hq : q / 512 = i
      · rw [e₁ _ hq] at h₁
        cases h₁
      · rw [e₁' _ hq] at h₁
        rw [e₂' _ hq] at h₂
        exact absurd ⟨h₂, h₁⟩ hold
    · by_cases hq : q = i
      · rw [hq]
        exact (congrArg Pte.leaf e₂).trans hplain
      · refine absurd ?_ hold
        show (pt.ent 2 q).v = true
        rw [← e₂' q hq]
        exact hnow
    · cases hnow

theorem gains_set {l i : Nat} {e : Pte} (hleaf : e.leaf = true)
    (hinv : (pt.ent l i).v = false) (hlive : Live (pt.set l i e) (l, i)) (hl : l < 2) :
    Gains pt (pt.set l i e) (fun c => c = (l, i)) := by
  have hother : ∀ l' i', (pt.ent l' i').v = true → (pt.set l i e).ent l' i' = pt.ent l' i' := by
    intro l' i' hv'
    refine pt.set_ent_of_ne e (fun hh => ?_)
    rw [hh.1, hh.2, hinv] at hv'
    cases hv'
  refine ⟨?_, ?_⟩
  · rintro ⟨_ | _ | _ | level, q⟩ hc
    · obtain ⟨h₂, h₁, hl, h₀⟩ := hc
      simp only [Live, hother _ _ h₂, hother _ _ h₁, hother _ _ h₀]
      exact ⟨⟨h₂, h₁, hl, h₀⟩, trivial⟩
    · obtain ⟨h₂, h₁⟩ := hc
      simp only [Live, hother _ _ h₂, hother _ _ h₁]
      exact ⟨⟨h₂, h₁⟩, trivial⟩
    · simp only [Live, hother _ _ hc]
      exact ⟨hc, trivial⟩
    · cases hc
  · have hsame : ∀ c : PtePtr, c ≠ (l, i) → (pt.set l i e).ent c.1 c.2 = pt.ent c.1 c.2 := by
      intro c hne
      exact pt.set_ent_of_ne e (fun hh => hne (Prod.ext hh.1 hh.2))
    have htop : ∀ i', (pt.set l i e).ent 2 i' = pt.ent 2 i' := fun i' =>
      hsame (2, i') (fun hh => by have := congrArg Prod.fst hh; simp only at this; omega)
    intro c
    constructor
    · rintro ⟨hold, hnow, -⟩
      by_contra hne
      refine hold ?_
      have hc := hsame c hne
      obtain ⟨_ | _ | _ | level, q⟩ := c
      · obtain ⟨h₂, h₁, hl₁, h₀⟩ := hnow
        -- below the new leaf there is no table
        have hup : (1, q / 512) ≠ (l, i) := fun hh => by
          obtain ⟨rfl, rfl⟩ := Prod.mk.inj hh
          rw [pt.set_ent_self, hleaf] at hl₁
          cases hl₁
        have hc₁ := hsame (1, q / 512) hup
        simp only at hc hc₁
        rw [htop] at h₂
        rw [hc₁] at h₁ hl₁
        rw [hc] at h₀
        exact ⟨h₂, h₁, hl₁, h₀⟩
      · obtain ⟨h₂, h₁⟩ := hnow
        simp only [zero_add] at hc
        rw [htop] at h₂
        rw [hc] at h₁
        exact ⟨h₂, h₁⟩
      · have h₂ : ((pt.set l i e).ent 2 q).v = true := hnow
        rw [htop] at h₂
        exact h₂
      · cases hnow
    · rintro rfl
      refine ⟨fun hold => ?_, hlive, by rw [pt.set_ent_self]; exact hleaf⟩
      have : (pt.ent l i).v = true := by
        rcases l with _ | _ | l
        · exact hold.2.2.2
        · exact hold.2
        · omega
      rw [hinv] at this
      cases this

/-! ## What one call maps -/

/-- **`walk`** that ends at an invalid entry has added tables only, and stands in a
level-0 table. -/
theorem walk_gains {va level j : Nat}
    (hw : walk k pt va true = .ok (k', pt', some (level, j)))
    (hinv : (pt'.ent level j).v = false) :
    level = 0 ∧ j = vpn 0 va ∧ Gains pt pt' (fun _ => False) ∧
      (pt'.ent 2 (vpn 2 va)).v = true ∧ (pt'.ent 1 (vpn 1 va)).v = true ∧
      (pt'.ent 1 (vpn 1 va)).leaf = false := by
  unfold walk at hw
  split at hw
  · cases hw
  obtain ⟨k₂, pt₂, d₂, h₂⟩ : ∃ k₂ pt₂ d₂, walkLevel k pt va true 2 = (k₂, pt₂, d₂) :=
    ⟨_, _, _, rfl⟩
  obtain ⟨k₁, pt₁, d₁, h₁⟩ : ∃ k₁ pt₁ d₁, walkLevel k₂ pt₂ va true 1 = (k₁, pt₁, d₁) :=
    ⟨_, _, _, rfl⟩
  rw [h₂] at hw
  -- both rounds go on below: an entry that is returned earlier is valid
  have hround₂ : d₂ = .below ∧ Gains pt pt₂ (fun _ => False) ∧
      (pt₂.ent 2 (vpn 2 va)).v = true := by
    rcases walkLevel_cases h₂ with ⟨hv, rfl, rfl, ⟨-, rfl⟩ | ⟨-, rfl⟩⟩ |
      ⟨hv, ⟨rfl, rfl, rfl⟩ | ⟨-, r, k₃, -, rfl, rfl, rfl⟩⟩
    · simp only [Except.ok.injEq, Prod.mk.injEq, Option.some.injEq] at hw
      obtain ⟨-, rfl, rfl, rfl⟩ := hw
      rw [hv] at hinv
      cases hinv
    · exact ⟨rfl, .refl _, hv⟩
    · simp at hw
    · exact ⟨rfl, gains_newTable_two hv rfl, by rw [(newTable_two_ent ..).1]; rfl⟩
  obtain ⟨rfl, hG₂, hv₂⟩ := hround₂
  simp only [h₁] at hw
  have hround₁ : d₁ = .below ∧ Gains pt₂ pt₁ (fun _ => False) ∧
      (pt₁.ent 2 (vpn 2 va)).v = true ∧ (pt₁.ent 1 (vpn 1 va)).v = true ∧
      (pt₁.ent 1 (vpn 1 va)).leaf = false := by
    rcases walkLevel_cases h₁ with ⟨hv, rfl, rfl, ⟨-, rfl⟩ | ⟨hs, rfl⟩⟩ |
      ⟨hv, ⟨rfl, rfl, rfl⟩ | ⟨-, r, k₃, -, rfl, rfl, rfl⟩⟩
    · simp only [Except.ok.injEq, Prod.mk.injEq, Option.some.injEq] at hw
      obtain ⟨-, rfl, rfl, rfl⟩ := hw
      rw [hv] at hinv
      cases hinv
    · rw [Bool.or_eq_false_iff] at hs
      exact ⟨rfl, .refl _, hv₂, hv, hs.2⟩
    · simp at hw
    · obtain ⟨e₂, e₁, -⟩ := newTable_one_ent pt₂ (vpn 1 va) r { v := true }
      refine ⟨rfl, gains_newTable_one hv rfl, ?_, ?_, ?_⟩
      · rw [e₂]
        exact hv₂
      · rw [e₁]
        rfl
      · rw [e₁]
        rfl
  obtain ⟨rfl, hG₁, hv₂', hv₁, hl₁⟩ := hround₁
  simp only [Except.ok.injEq, Prod.mk.injEq, Option.some.injEq] at hw
  obtain ⟨-, rfl, rfl, rfl⟩ := hw
  exact ⟨rfl, rfl, (hG₂.trans hG₁).congr (fun _ => by simp), hv₂', hv₁, hl₁⟩

/-- **One round** makes its chunk new and nothing else. -/
theorem Round.gains {s t : Growth} {c : PtePtr × Nat} (h : Round newsz xperm s c t) :
    Gains s.pt t.pt (fun c' => c' = c.1) ∧
      (c.1.1 = 1 → (t.pt.ent 1 c.1.2).s = true) := by
  cases h with
  | @small P mem k k₁ k' pt pt' hlt hno hk hmap =>
      refine ⟨?_, fun hh => by cases hh⟩
      have hone : PGSIZE / PGSIZE = 0 + 1 := rfl
      unfold mappages at hmap
      split at hmap
      · cases hmap
      split at hmap
      · cases hmap
      rw [if_neg (by decide), hone, mappagesLoop] at hmap
      split at hmap
      · cases hmap
      · simp at hmap
      rename_i k₂ pt₂ level j hw
      split at hmap
      · cases hmap
      rename_i hinv
      rw [Bool.not_eq_true] at hinv
      obtain ⟨rfl, rfl, hG, hv₂, hv₁, hl₁⟩ := walk_gains hw hinv
      unfold mappagesLoop at hmap
      simp only [Except.ok.injEq, Prod.mk.injEq] at hmap
      obtain ⟨-, rfl, -⟩ := hmap
      obtain ⟨hp₀, hp₁, hp₂⟩ := vpn_page P
      rw [hp₁] at hv₁ hl₁
      rw [hp₂] at hv₂
      rw [hp₀] at hinv ⊢
      refine (hG.trans (gains_set (by rfl) hinv ?_ (by omega))).congr
        (fun c => by simp)
      simp only [Live, PageTable.set_ent_self, PageTable.set_ent_other_level _ _ _ _
        (show 2 ≠ 0 by omega), PageTable.set_ent_other_level _ _ _ _ (show 1 ≠ 0 by omega)]
      exact ⟨hv₂, hv₁, hl₁, rfl⟩
  | @super P mem k k₁ k' pt pt' hal hbig hk hmap =>
      have hone : SUPERPGSIZE / SUPERPGSIZE = 0 + 1 := rfl
      unfold supermappages at hmap
      split at hmap
      · cases hmap
      split at hmap
      · cases hmap
      rw [if_neg (by decide), hone, supermappagesLoop] at hmap
      split at hmap
      · cases hmap
      · simp at hmap
      rename_i k₂ pt₂ level j hw
      split at hmap
      · cases hmap
      rename_i hinv
      rw [Bool.not_eq_true] at hinv
      unfold supermappagesLoop at hmap
      simp only [Except.ok.injEq, Prod.mk.injEq] at hmap
      obtain ⟨-, rfl, -⟩ := hmap
      obtain ⟨-, hp₁, hp₂⟩ := vpn_page P
      have hres : (level, j) = (1, P / 512) ∧ Gains pt pt₂ (fun _ => False) ∧
          (pt₂.ent 2 (P / 512 / 512)).v = true := by
        obtain ⟨-, ⟨hv, -, rfl, ho⟩ | ⟨hv, ⟨-, -, ho⟩ | ⟨r, k₃, -, -, rfl, ho⟩⟩⟩ :=
          superwalk_cases hw
        · rw [hp₁] at ho
          rw [hp₂] at hv
          exact ⟨Option.some.inj ho, .refl _, hv⟩
        · cases ho
        · rw [hp₁] at ho
          rw [hp₂] at hv ⊢
          refine ⟨Option.some.inj ho, gains_newTable_two hv rfl, ?_⟩
          rw [(newTable_two_ent ..).1]
          rfl
      obtain ⟨hlj, hG, hv₂⟩ := hres
      obtain ⟨rfl, rfl⟩ := Prod.mk.inj hlj
      refine ⟨(hG.trans (gains_set (by rfl) hinv ?_ (by omega))).congr (fun c => by simp),
        fun _ => ?_⟩
      · simp only [Live, PageTable.set_ent_self, PageTable.set_ent_other_level _ _ _ _
          (show 2 ≠ 1 by omega)]
        exact ⟨hv₂, rfl⟩
      · rw [PageTable.set_ent_self]
        rfl

theorem Round.run_gains {s t : Growth} {cs : List (PtePtr × Nat)}
    (h : Run (Round newsz xperm) s cs t) :
    Gains s.pt t.pt (fun c => c ∈ cs.map Prod.fst) ∧
      ∀ j, (1, j) ∈ cs.map Prod.fst → (t.pt.ent 1 j).s = true := by
  induction h with
  | nil s => exact ⟨(Gains.refl _).congr (fun c => by simp), fun j hj => by simp at hj⟩
  | @cons s₀ s₁ s₂ c ls hround _ ih =>
      obtain ⟨hG, hS⟩ := hround.gains
      obtain ⟨hG', hS'⟩ := ih
      refine ⟨(hG.trans hG').congr (fun c' => by rw [List.map_cons, List.mem_cons]),
        fun j hj => ?_⟩
      rw [List.map_cons, List.mem_cons] at hj
      rcases hj with hj | hj
      · have hc₁ : c.1.1 = 1 := by rw [← hj]
        have hc₂ : c.1.2 = j := by rw [← hj]
        obtain ⟨-, hlive, -⟩ := (hG.leaves c.1).mpr rfl
        have hkept := (hG'.kept c.1 hlive).2
        rw [hc₁, hc₂] at hkept
        rw [hkept, ← hc₂]
        exact hS hc₁
      · exact hS' j hj

/-! ## The two calls -/

/-- The chunks that the counters announce, from page `N` on. -/
def SbrkHelp.chunks (help : SbrkHelp) (N : Nat) : List PtePtr :=
  Super.chunks N help.startpages help.superpages help.endpages

/-- What the counters say about a call that took `pt` to `pt'`, growing from page `N`
to `newsz`: the new leaves are the chunks they announce, superpages start on a
boundary, and the chunks end where the growth does. -/
structure Describes (help : SbrkHelp) (pt pt' : PageTable) (N newsz : Nat) : Prop where
  leaves : ∀ c, NewLeaf pt pt' c ↔ c ∈ help.chunks N
  superpages : ∀ j, (1, j) ∈ help.chunks N → (pt'.ent 1 j).s = true
  aligned : 0 < help.superpages → (N + help.startpages) % 512 = 0
  middle : help.superpages = 0 → help.endpages = 0
  ends : N + help.startpages + help.superpages * 512 + help.endpages = pages newsz

theorem sbrksuperuvmallocLoop_zero (kend : Nat) (k : Kernel) (pt : PageTable)
    (oldsz a : Nat) (xperm : Flags) (help : SbrkHelp) (n : Nat) :
    sbrksuperuvmallocLoop kend k pt oldsz a 0 xperm help n =
      .ok (k, pt, { help with sz := toInt 0, state := true }) := by
  cases n with
  | zero => rfl
  | succ n => rw [sbrksuperuvmallocLoop, if_neg (Nat.not_lt_zero _)]

theorem toInt_of_lt {x : Nat} (h : x < 2 ^ 31) : toInt x = x := by
  unfold toInt
  rw [Int.bmod_def]
  omega

/-- **`sbrksuperuvmalloc` agrees with `uvmalloc`**, and its counters describe what
was mapped: for every page table, sizes, permissions and free lists both panic, or
both leave the same page table, memory and free lists. It reports success with
`newsz` where `uvmalloc` returns `newsz`, the new chunks being `startpages` pages,
`superpages` superpages and `endpages` pages in this order, and failure where
`uvmalloc` rolls back and returns 0. -/
theorem sbrksuperuvmalloc_agrees (kend : Nat) (k : Kernel) (pt : PageTable)
    (xperm : Flags) {oldsz newsz : Nat} (hle : oldsz ≤ newsz) (hlt : newsz < 2 ^ 31) :
    (∃ e, uvmalloc kend k pt oldsz newsz xperm = .error e ∧
      sbrksuperuvmalloc kend k pt oldsz newsz xperm = .error e) ∨
    ∃ k' pt' ret help, uvmalloc kend k pt oldsz newsz xperm = .ok (k', pt', ret) ∧
      sbrksuperuvmalloc kend k pt oldsz newsz xperm = .ok (k', pt', help) ∧
      ((help.state = true ∧ help.sz = newsz ∧ ret = newsz ∧
          Describes help pt pt' (pages oldsz) newsz) ∨
        (help.state = false ∧ ret = 0 ∧ newsz ≠ 0)) := by
  have hpages : pages oldsz ≤ pages newsz := by
    unfold pages
    omega
  unfold uvmalloc sbrksuperuvmalloc
  rw [if_neg (Nat.not_lt.mpr hle), if_neg (Nat.not_lt.mpr hle),
    uvmallocLoop_eq _ _ _ _ _ _ _ _ {}]
  cases hloop : sbrksuperuvmallocLoop kend k pt (PGROUNDUP oldsz) (PGROUNDUP oldsz) newsz
    xperm {} ((PGROUNDUP newsz - PGROUNDUP oldsz) / PGSIZE) with
  | error e => exact .inl ⟨e, rfl, rfl⟩
  | ok res =>
      obtain ⟨k', pt', help⟩ := res
      refine .inr ⟨k', pt', _, help, rfl, rfl, ?_⟩
      cases hstate : help.state with
      | false =>
          refine .inr ⟨rfl, if_neg Bool.false_ne_true, ?_⟩
          rintro rfl
          rw [sbrksuperuvmallocLoop_zero] at hloop
          simp only [Except.ok.injEq, Prod.mk.injEq] at hloop
          rw [← hloop.2.2] at hstate
          cases hstate
      | true =>
          have hfuel : pages newsz ≤
              pages oldsz + (PGROUNDUP newsz - PGROUNDUP oldsz) / PGSIZE := by
            simp only [PGROUNDUP_eq, PGSIZE]
            omega
          rw [PGROUNDUP_eq oldsz] at hloop
          obtain ⟨cs, P', hrun, hend, hhelp⟩ := sbrksuperuvmallocLoop_run _ hfuel hloop hstate
          have hchunks := Round.run_chunks hrun hend
          obtain ⟨hG, hS⟩ := Round.run_gains hrun
          have hC := Round.run_counts hrun hend {}
          obtain ⟨hstart, hrest⟩ := hC.first rfl
          have hsuper := hC.superpages
          have hstartpages : help.startpages = startNeed (pages oldsz) newsz := by
            rw [hhelp]
            exact hstart.trans (Nat.zero_add _)
          have hsuperpages : help.superpages = superNeed (pages oldsz) newsz := by
            rw [hhelp]
            exact hsuper.trans (Nat.zero_add _)
          have hendpages : help.endpages = smallNeed (pages oldsz) newsz -
              startNeed (pages oldsz) newsz := by
            rw [hhelp]
            exact hrest.trans (Nat.zero_add _)
          have hlist : help.chunks (pages oldsz) = cs.map Prod.fst := by
            rw [hchunks]
            unfold SbrkHelp.chunks
            rw [hstartpages, hsuperpages, hendpages]
            rfl
          refine .inl ⟨rfl, ?_, if_pos rfl, ?_⟩
          · have hsz : help.sz = toInt newsz := by rw [hhelp]
            rw [hsz, toInt_of_lt hlt]
          refine ⟨fun c => ?_, fun j hj => ?_, fun hpos => ?_, fun hnone => ?_, ?_⟩
          · rw [hlist]
            exact hG.leaves c
          · rw [hlist] at hj
            exact hS j hj
          · rw [hsuperpages] at hpos
            rw [hstartpages]
            unfold startNeed
            rw [if_neg (by omega)]
            omega
          · rw [hsuperpages] at hnone
            rw [hendpages]
            unfold startNeed
            rw [if_pos hnone, Nat.sub_self]
          · have hsmall := startNeed_le (pages oldsz) newsz
            rw [hstartpages, hsuperpages, hendpages]
            unfold smallNeed superNeed at *
            unfold pages at *
            omega

/-- From page 511 of an empty table over the first boundary: a page, a superpage and a
page. -/
theorem sbrksuperuvmalloc_agrees_mixed :
    ∃ k' pt' ret help,
      uvmalloc 0 ⟨[4096, 8192, 12288, 16384, 20480], [2097152], fun _ => 0⟩ (.empty 0)
        2093056 4198400 { w := true } = .ok (k', pt', ret) ∧
      sbrksuperuvmalloc 0 ⟨[4096, 8192, 12288, 16384, 20480], [2097152], fun _ => 0⟩
        (.empty 0) 2093056 4198400 { w := true } = .ok (k', pt', help) ∧
      help.state = true ∧ Describes help (.empty 0) pt' 511 4198400 := by
  obtain ⟨⟨k', pt', ret⟩, hok⟩ : ∃ res, uvmalloc 0
      ⟨[4096, 8192, 12288, 16384, 20480], [2097152], fun _ => 0⟩ (.empty 0) 2093056 4198400
      { w := true } = .ok res := ⟨_, rfl⟩
  have hret : ret = 4198400 := by
    have hsize : (uvmalloc 0 ⟨[4096, 8192, 12288, 16384, 20480], [2097152], fun _ => 0⟩
        (.empty 0) 2093056 4198400 { w := true }).map (fun res => res.2.2) =
          .ok 4198400 := rfl
    rw [hok] at hsize
    exact Except.ok.inj hsize
  rcases sbrksuperuvmalloc_agrees 0 ⟨[4096, 8192, 12288, 16384, 20480], [2097152],
    fun _ => 0⟩ (.empty 0) { w := true } (show 2093056 ≤ 4198400 by decide) (by decide) with
    ⟨e, he, -⟩ | ⟨k₁, pt₁, ret₁, help, h₁, h₂, hcases⟩
  · rw [hok] at he
    cases he
  · rw [hok] at h₁
    simp only [Except.ok.injEq, Prod.mk.injEq] at h₁
    obtain ⟨rfl, rfl, rfl⟩ := h₁
    rcases hcases with ⟨hstate, -, -, hdesc⟩ | ⟨-, hzero, -⟩
    · exact ⟨k', pt', ret, help, hok, h₂, hstate, hdesc⟩
    · rw [hret] at hzero
      cases hzero

end Xv6Labs.Super
