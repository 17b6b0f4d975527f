import Xv6Labs.Super.Tree
import Xv6Labs.Lib.Run

/-!
# `walk` and `superwalk` on one tree

Two descents of the kernel share the tree: `walk` stops early on `PTE_S`, while
`superwalk` creates a missing level-1 table under `PTE_S`. `mappages` always
keeps the shape `Tree`. `supermappages` keeps it exactly when the level-2
entries it needs are there already, that is, when `mappages` has been in the
same 1 GB region before (`walk_agrees_iff`).
-/

namespace Xv6Labs.Super

open Xv6Labs.Lib

variable {k k' : Kernel} {pt pt' : PageTable}

/-! ## Sequences of mapping calls -/

inductive Call where
  | mappages (va size pa : Nat) (perm : Flags)
  | supermappages (va size pa : Nat) (perm : Flags)

/-- What every caller in the kernel passes: a readable, writable or executable
mapping, and `PTE_S` never to `mappages`. -/
def Call.WF : Call → Prop
  | .mappages _ _ _ perm => (perm.r || perm.w || perm.x) = true ∧ perm.s = false
  | .supermappages _ _ _ perm => (perm.r || perm.w || perm.x) = true

/-- The call succeeds, whatever the free lists are at that moment. -/
def CallStep (pt : PageTable) (c : Call) (pt' : PageTable) : Prop :=
  c.WF ∧ ∃ k k', match c with
    | .mappages va size pa perm => Super.mappages k pt va size pa perm = .ok (k', pt', 0)
    | .supermappages va size pa perm =>
        Super.supermappages k pt va size pa perm = .ok (k', pt', 0)

/-- The pages a call maps, each with its level and entry. -/
def Call.install (m : Nat → Option (Nat × Pte)) : Call → Nat → Option (Nat × Pte)
  | .mappages va size pa perm => fun q =>
      if va / 4096 ≤ q ∧ q < va / 4096 + size / 4096 then
        some (0, PA2PTE (pa + (q - va / 4096) * PGSIZE) { perm with v := true })
      else m q
  | .supermappages va size pa perm => fun q =>
      if va / 4096 ≤ q ∧ q < va / 4096 + size / 4096 then
        some (1, PA2PTE (pa + (q - va / 4096) / 512 * SUPERPGSIZE)
          { perm with v := true, s := true })
      else m q

def region (q : Nat) : Nat := q / 262144

def Call.touches (va size i : Nat) : Prop :=
  ∃ q, va / 4096 ≤ q ∧ q < va / 4096 + size / 4096 ∧ region q = i

/-- Every `supermappages` stays inside regions that an earlier `mappages` has
touched; `old` are those touched so far. -/
def TouchedFirst (old : Nat → Prop) : List Call → Prop
  | [] => True
  | .mappages va size _ _ :: cs =>
      TouchedFirst (fun i => old i ∨ Call.touches va size i) cs
  | .supermappages va size _ _ :: cs =>
      (∀ i, Call.touches va size i → old i) ∧ TouchedFirst old cs

/-- `walk` finds for `va` the entry that was installed for its page, which is
the one the hardware uses, and nothing valid where nothing was installed; no
pointer to a table carries `PTE_S`. -/
structure Agrees (pt : PageTable) (m : Nat → Option (Nat × Pte)) : Prop where
  mapped : ∀ k va level e, va < MAXVA → m (vpn 0 va) = some (level, e) →
    Super.walk k pt va false = .ok (k, pt, some (level, vpn level va)) ∧
      pt.ent level (vpn level va) = e ∧ sv39 pt va = some (level, vpn level va)
  unmapped : ∀ k va, va < MAXVA → m (vpn 0 va) = none →
    (∃ o, Super.walk k pt va false = .ok (k, pt, o) ∧
      ∀ level j, o = some (level, j) → (pt.ent level j).v = false) ∧
    sv39 pt va = none
  pointers : ∀ level j, (level = 1 ∨ level = 2) → (pt.ent level j).v = true →
    (pt.ent level j).leaf = false → (pt.ent level j).s = false

theorem Tree.agrees (h : Tree pt) {m : Nat → Option (Nat × Pte)}
    (hm : ∀ q, m q = seen pt q) : Agrees pt m := by
  have hseen : ∀ va, seen pt (vpn 0 va) =
      if superAt pt (vpn 1 va) then some (1, pt.ent 1 (vpn 1 va))
      else if (pt.ent 0 (vpn 0 va)).v then some (0, pt.ent 0 (vpn 0 va)) else none := by
    intro va
    rw [vpn_one_eq]
    rfl
  refine ⟨fun k va level e hva hmq => ?_, fun k va hva hmq => ?_, ?_⟩
  · rw [hm] at hmq
    refine ⟨?_, ?_, by rw [h.sv39, hmq]; rfl⟩
    · rw [hseen] at hmq
      rw [h.walk k hva]
      split at hmq
      · rename_i hs
        simp only [Option.some.injEq, Prod.mk.injEq] at hmq
        rw [if_pos hs, ← hmq.1]
      · rename_i hs
        split at hmq
        · rename_i hv
          simp only [Option.some.injEq, Prod.mk.injEq] at hmq
          have ht := (h.bot _ hv).1
          rw [← vpn_one_eq] at ht
          rw [if_neg hs, if_pos ht, ← hmq.1]
        · cases hmq
    · rw [hseen] at hmq
      split at hmq
      · simp only [Option.some.injEq, Prod.mk.injEq] at hmq
        rw [← hmq.1, ← hmq.2]
      · split at hmq
        · simp only [Option.some.injEq, Prod.mk.injEq] at hmq
          rw [← hmq.1, ← hmq.2]
        · cases hmq
  · rw [hm] at hmq
    refine ⟨⟨_, h.walk k hva, fun level j ho => ?_⟩, by rw [h.sv39, hmq]; rfl⟩
    rw [hseen] at hmq
    split at hmq
    · cases hmq
    rename_i hs
    split at hmq
    · cases hmq
    rename_i hv
    rw [if_neg hs] at ho
    split at ho
    · simp only [Option.some.injEq, Prod.mk.injEq] at ho
      rw [← ho.1, ← ho.2]
      simpa using hv
    · cases ho
  · rintro level j (rfl | rfl) hv hl
    · rw [(h.mid j hv).2, hl]
    · exact (h.top j hv).1

/-! ## Level-2 entries stay -/

def TopKept (pt pt' : PageTable) : Prop :=
  ∀ i, (pt.ent 2 i).v = true → pt'.ent 2 i = pt.ent 2 i

theorem TopKept.refl (pt : PageTable) : TopKept pt pt := fun _ _ => rfl

theorem TopKept.trans {pt'' : PageTable} (h : TopKept pt pt')
    (h' : TopKept pt' pt'') : TopKept pt pt'' := fun i hi => by
  rw [h' i (by rw [h i hi]; exact hi), h i hi]

theorem topKept_set (pt : PageTable) {level : Nat} (j : Nat) (e : Pte)
    (h : level ≠ 2 ∨ (pt.ent level j).v = false) : TopKept pt (pt.set level j e) := by
  intro i hi
  refine pt.set_ent_of_ne e (fun hh => ?_)
  rcases h with h | h
  · exact h hh.1.symm
  · rw [← hh.1, ← hh.2, hi] at h
    cases h

theorem walk_topKept {va : Nat} {alloc : Bool} {o : Option PtePtr}
    (hw : Super.walk k pt va alloc = .ok (k', pt', o)) : TopKept pt pt' := by
  have hround : ∀ {k k' : Kernel} {pt pt' : PageTable} {d : Descent} (level : Nat),
      walkLevel k pt va alloc level = (k', pt', d) → (level = 1 ∨ level = 2) →
      TopKept pt pt' := by
    intro k k' pt pt' d level hl hlevel
    rcases walkLevel_cases hl with ⟨-, -, rfl, -⟩ |
      ⟨hv, ⟨-, rfl, -⟩ | ⟨-, r, k₁, -, -, rfl, -⟩⟩
    · exact .refl _
    · exact .refl _
    · intro i hi
      refine pt.newTable_ent_of_ne _ (fun hh => ?_) (by omega)
      obtain ⟨rfl, rfl⟩ := hh
      rw [hi] at hv
      cases hv
  unfold Super.walk at hw
  split at hw
  · cases hw
  cases hlev : walkLevel k pt va alloc 2 with
  | mk k₂ rest =>
      obtain ⟨pt₂, d⟩ := rest
      have h₂ := hround 2 hlev (.inr rfl)
      rw [hlev] at hw
      cases d with
      | found =>
          simp only [Except.ok.injEq, Prod.mk.injEq] at hw
          rw [← hw.2.1]
          exact h₂
      | null =>
          simp only [Except.ok.injEq, Prod.mk.injEq] at hw
          rw [← hw.2.1]
          exact h₂
      | below =>
          cases hlev₁ : walkLevel k₂ pt₂ va alloc 1 with
          | mk k₁ rest =>
              obtain ⟨pt₁, d⟩ := rest
              have h₁ := h₂.trans (hround 1 hlev₁ (.inl rfl))
              simp only [hlev₁] at hw
              cases d with
              | found | null | below =>
                  simp only [Except.ok.injEq, Prod.mk.injEq] at hw
                  rw [← hw.2.1]
                  exact h₁

theorem superwalk_topKept {va : Nat} {o : Option PtePtr}
    (hw : superwalk k pt va true = .ok (k', pt', o)) : TopKept pt pt' := by
  obtain ⟨-, ⟨-, -, rfl, -⟩ | ⟨hv, ⟨-, rfl, -⟩ | ⟨r, k₁, -, -, rfl, -⟩⟩⟩ :=
    superwalk_cases hw
  · exact .refl _
  · exact .refl _
  · intro i hi
    refine pt.newTable_ent_of_ne _ (fun hh => ?_) (by omega)
    rw [hh.2, hv] at hi
    cases hi

theorem mappagesLoop_topKept {perm : Flags} {ret : Int} :
    ∀ (n a pa : Nat) {k : Kernel} {pt : PageTable},
    mappagesLoop k pt a pa perm n = .ok (k', pt', ret) → TopKept pt pt'
  | 0, a, pa, k, pt, h => by
      simp only [mappagesLoop, Except.ok.injEq, Prod.mk.injEq] at h
      rw [← h.2.1]
      exact .refl pt
  | n + 1, a, pa, k, pt, h => by
      simp only [mappagesLoop] at h
      split at h
      · cases h
      · rename_i hw
        simp only [Except.ok.injEq, Prod.mk.injEq] at h
        rw [← h.2.1]
        exact walk_topKept hw
      · rename_i hw
        split at h
        · cases h
        rename_i hv
        exact (walk_topKept hw).trans ((topKept_set _ _ _ (.inr (by simpa using hv))).trans
          (mappagesLoop_topKept n _ _ h))

theorem supermappagesLoop_topKept {perm : Flags} {ret : Int} :
    ∀ (n a pa : Nat) {k : Kernel} {pt : PageTable},
    supermappagesLoop k pt a pa perm n = .ok (k', pt', ret) → TopKept pt pt'
  | 0, a, pa, k, pt, h => by
      simp only [supermappagesLoop, Except.ok.injEq, Prod.mk.injEq] at h
      rw [← h.2.1]
      exact .refl pt
  | n + 1, a, pa, k, pt, h => by
      simp only [supermappagesLoop] at h
      split at h
      · cases h
      · rename_i hw
        simp only [Except.ok.injEq, Prod.mk.injEq] at h
        rw [← h.2.1]
        exact superwalk_topKept hw
      · rename_i hw
        split at h
        · cases h
        rename_i hv
        exact (superwalk_topKept hw).trans
          ((topKept_set _ _ _ (.inr (by simpa using hv))).trans
            (supermappagesLoop_topKept n _ _ h))

/-! ## The loops on a tree -/

def Spans (a n i : Nat) : Prop := ∃ q, a ≤ q ∧ q < a + n ∧ region q = i

theorem spans_succ (a n i : Nat) :
    Spans a (n + 1) i ↔ region a = i ∨ Spans (a + 1) n i := by
  constructor
  · rintro ⟨q, h₁, h₂, h₃⟩
    by_cases hq : q = a
    · exact .inl (by rw [← hq]; exact h₃)
    · exact .inr ⟨q, by omega, by omega, h₃⟩
  · rintro (h | ⟨q, h₁, h₂, h₃⟩)
    · exact ⟨a, by omega, by omega, h⟩
    · exact ⟨q, by omega, by omega, h₃⟩

theorem vpn_two_region (va : Nat) : vpn 2 va = region (va / 4096) := by
  rw [vpn_two_eq, vpn_zero, region, Nat.div_div_eq_div_mul]

/-- **`mappages` keeps the tree**, installs its pages and touches their
regions. -/
theorem Tree.mappagesLoop {perm : Flags} (hleaf : (perm.r || perm.w || perm.x) = true)
    (hs : perm.s = false) : ∀ (n a pa : Nat) {k : Kernel} {pt : PageTable},
    Tree pt → a % 4096 = 0 →
    Super.mappagesLoop k pt a pa perm n = .ok (k', pt', 0) →
    Tree pt' ∧
      (∀ q, seen pt' q = if a / 4096 ≤ q ∧ q < a / 4096 + n then
        some (0, PA2PTE (pa + (q - a / 4096) * PGSIZE) { perm with v := true })
        else seen pt q) ∧
      (∀ i, (pt'.ent 2 i).v = true ↔ (pt.ent 2 i).v = true ∨ Spans (a / 4096) n i)
  | 0, a, pa, k, pt, h, _, hm => by
      simp only [Super.mappagesLoop, Except.ok.injEq, Prod.mk.injEq] at hm
      obtain ⟨-, rfl, -⟩ := hm
      refine ⟨h, fun q => ?_, fun i => ?_⟩
      · rw [if_neg (by omega)]
      · refine ⟨.inl, fun hh => hh.resolve_right ?_⟩
        rintro ⟨q, h₁, h₂, -⟩
        omega
  | n + 1, a, pa, k, pt, h, ha, hm => by
      simp only [Super.mappagesLoop] at hm
      split at hm
      · cases hm
      · simp at hm
      rename_i k₁ pt₁ level j hw
      obtain ⟨hva, ht, hseen, hkeep, hother, ho⟩ := h.walk_alloc hw
      split at hm
      · cases hm
      rename_i hv
      -- a superpage here would have been a remap
      rcases ho with ho | ⟨hv₂, ⟨hsup, ho⟩ | ⟨htab, ho⟩⟩
      · cases ho
      · simp only [Option.some.injEq, Prod.mk.injEq] at ho
        obtain ⟨rfl, rfl⟩ := ho
        exact absurd (superAt_iff.mp hsup).1 hv
      simp only [Option.some.injEq, Prod.mk.injEq] at ho
      obtain ⟨rfl, rfl⟩ := ho
      rw [vpn_one_eq] at htab
      obtain ⟨ht', hseen'⟩ := ht.set_bot
        (e := PA2PTE pa { perm with v := true }) htab (fun _ => ⟨hs, hleaf⟩)
      obtain ⟨hT, hS, hR⟩ := Tree.mappagesLoop hleaf hs n (a + 4096) (pa + PGSIZE) ht'
        (by omega) hm
      have hdiv : (a + 4096) / 4096 = a / 4096 + 1 := by omega
      rw [hdiv] at hS hR
      refine ⟨hT, fun q => ?_, fun i => ?_⟩
      · rw [hS q, hseen' q, hseen q, vpn_zero]
        by_cases hq : q = a / 4096
        · subst hq
          have hin : a / 4096 ≤ a / 4096 ∧ a / 4096 < a / 4096 + (n + 1) := by omega
          rw [if_neg (by omega), if_pos rfl, if_pos hin]
          simp [PA2PTE]
        · by_cases hq' : a / 4096 + 1 ≤ q ∧ q < a / 4096 + 1 + n
          · rw [if_pos hq', if_pos (by omega)]
            have hoff : pa + PGSIZE + (q - (a / 4096 + 1)) * PGSIZE =
                pa + (q - a / 4096) * PGSIZE := by
              simp only [PGSIZE]
              omega
            rw [hoff]
          · rw [if_neg hq', if_neg hq, if_neg (by omega)]
      · rw [hR i, PageTable.set_ent_other_level _ _ _ _ (by omega), spans_succ,
          ← vpn_two_region]
        by_cases hi : vpn 2 a = i
        · subst hi
          simp [hv₂]
        · rw [hother i (fun hh => hi hh.symm)]
          simp [hi]

/-- **`supermappages` keeps the tree** when the level-2 entries of its pages
are in place. -/
theorem Tree.supermappagesLoop {perm : Flags}
    (hleaf : (perm.r || perm.w || perm.x) = true) :
    ∀ (n a pa : Nat) {k : Kernel} {pt : PageTable},
    Tree pt → a % 2097152 = 0 →
    (∀ i, Spans (a / 4096) (n * 512) i → (pt.ent 2 i).v = true) →
    Super.supermappagesLoop k pt a pa perm n = .ok (k', pt', 0) →
    Tree pt' ∧
      (∀ q, seen pt' q = if a / 4096 ≤ q ∧ q < a / 4096 + n * 512 then
        some (1, PA2PTE (pa + (q - a / 4096) / 512 * SUPERPGSIZE)
          { perm with v := true, s := true })
        else seen pt q) ∧
      (∀ i, pt'.ent 2 i = pt.ent 2 i)
  | 0, a, pa, k, pt, h, _, _, hm => by
      simp only [Super.supermappagesLoop, Except.ok.injEq, Prod.mk.injEq] at hm
      obtain ⟨-, rfl, -⟩ := hm
      refine ⟨h, fun q => ?_, fun i => rfl⟩
      rw [if_neg (by omega)]
  | n + 1, a, pa, k, pt, h, ha, hreg, hm => by
      have hv₂ : (pt.ent 2 (vpn 2 a)).v = true := by
        refine hreg _ ⟨a / 4096, by omega, by omega, ?_⟩
        rw [vpn_two_region]
      simp only [Super.supermappagesLoop] at hm
      split at hm
      · cases hm
      · simp at hm
      rename_i k₁ pt₁ level j hw
      obtain ⟨hva, ⟨-, rfl, rfl, ho⟩ | ⟨hno, -⟩⟩ := superwalk_cases hw
      swap
      · rw [hv₂] at hno
        cases hno
      simp only [Option.some.injEq, Prod.mk.injEq] at ho
      obtain ⟨rfl, rfl⟩ := ho
      split at hm
      · cases hm
      rename_i hv
      have hnt : tableAt pt₁ (vpn 1 a) = false := by
        simp only [tableAt, Bool.and_eq_false_iff]
        exact .inl (by simpa using hv)
      obtain ⟨ht', hseen'⟩ := h.set_mid
        (e := PA2PTE pa { perm with v := true, s := true }) hnt
        (fun _ => ⟨by rw [← vpn_succ]; exact hv₂, rfl, hleaf⟩)
      have hdiv : (a + 2097152) / 4096 = a / 4096 + 512 := by omega
      have hslot : ∀ q, q / 512 = vpn 1 a ↔ a / 4096 ≤ q ∧ q < a / 4096 + 512 := by
        intro q
        rw [vpn_one]
        omega
      obtain ⟨hT, hS, hR⟩ := Tree.supermappagesLoop hleaf n (a + 2097152)
        (pa + SUPERPGSIZE) ht' (by omega) (fun i hi => by
          rw [PageTable.set_ent_other_level _ _ _ _ (by omega)]
          obtain ⟨q, h₁, h₂, h₃⟩ := hi
          exact hreg i ⟨q, by omega, by omega, h₃⟩) hm
      rw [hdiv] at hS
      refine ⟨hT, fun q => ?_, fun i => ?_⟩
      · rw [hS q, hseen' q]
        by_cases hq : q / 512 = vpn 1 a
        · have hin := (hslot q).mp hq
          have hin' : a / 4096 ≤ q ∧ q < a / 4096 + (n + 1) * 512 := by omega
          have hz : (q - a / 4096) / 512 = 0 := by omega
          rw [if_neg (by omega), if_pos hq, if_pos hin', hz]
          simp [PA2PTE]
        · have hout : ¬ (a / 4096 ≤ q ∧ q < a / 4096 + 512) := fun hh =>
            hq ((hslot q).mpr hh)
          by_cases hq' : a / 4096 + 512 ≤ q ∧ q < a / 4096 + 512 + n * 512
          · have hin' : a / 4096 ≤ q ∧ q < a / 4096 + (n + 1) * 512 := by omega
            rw [if_pos hq', if_pos hin']
            have hoff : pa + SUPERPGSIZE +
                (q - (a / 4096 + 512)) / 512 * SUPERPGSIZE =
                pa + (q - a / 4096) / 512 * SUPERPGSIZE := by
              simp only [SUPERPGSIZE]
              omega
            rw [hoff]
          · rw [if_neg hq', if_neg hq, if_neg (by omega)]
      · rw [hR i, PageTable.set_ent_other_level _ _ _ _ (by omega)]

/-- A `supermappages` into an untouched region leaves a pointer with `PTE_S`. -/
theorem supermappagesLoop_marks {perm : Flags} :
    ∀ (n a pa : Nat) {k : Kernel} {pt : PageTable}, a % 2097152 = 0 →
    (∃ i, Spans (a / 4096) (n * 512) i ∧ (pt.ent 2 i).v = false) →
    Super.supermappagesLoop k pt a pa perm n = .ok (k', pt', 0) →
    ∃ i, (pt'.ent 2 i).v = true ∧ (pt'.ent 2 i).s = true ∧
      (pt'.ent 2 i).leaf = false
  | 0, a, pa, k, pt, _, ⟨i, ⟨q, h₁, h₂, _⟩, _⟩, _ => by omega
  | n + 1, a, pa, k, pt, ha, hreg, hm => by
      simp only [Super.supermappagesLoop] at hm
      split at hm
      · cases hm
      · simp at hm
      rename_i k₁ pt₁ level j hw
      split at hm
      · cases hm
      rename_i hv
      have hkept := (topKept_set pt₁ j (PA2PTE pa { perm with v := true, s := true })
        (.inr (by simpa using hv))).trans (supermappagesLoop_topKept n _ _ hm)
      obtain ⟨hva, ⟨hv₂, rfl, rfl, ho⟩ | ⟨hno, ⟨-, -, ho⟩ | ⟨r, k₂, -, -, rfl, ho⟩⟩⟩ :=
        superwalk_cases hw
      · -- this superpage was fine; a later one is not
        simp only [Option.some.injEq, Prod.mk.injEq] at ho
        obtain ⟨rfl, rfl⟩ := ho
        refine supermappagesLoop_marks n (a + SUPERPGSIZE) _
          (by simp only [SUPERPGSIZE]; omega) ?_ hm
        obtain ⟨i, ⟨q, h₁, h₂, h₃⟩, hi⟩ := hreg
        refine ⟨i, ⟨q, ?_, ?_, h₃⟩, ?_⟩
        · by_contra hlt
          have hsame : region q = vpn 2 a := by
            rw [vpn_two_region]
            simp only [region, SUPERPGSIZE] at *
            omega
          rw [← h₃, hsame, hv₂] at hi
          cases hi
        · simp only [SUPERPGSIZE]
          omega
        · rwa [PageTable.set_ent_other_level _ _ _ _ (by omega)]
      · cases ho
      · refine ⟨vpn 2 a, ?_⟩
        have hself := (newTable_two_ent pt (vpn 2 a) r { v := true, s := true }).1
        have := hkept (vpn 2 a) (by rw [hself]; rfl)
        rw [this, hself]
        exact ⟨rfl, rfl, rfl⟩

/-! ## The exact condition -/

/-- The regions touched so far are those with a level-2 entry, and the tree
shows what was installed. -/
structure TreeRun (pt : PageTable) (old : Nat → Prop)
    (m : Nat → Option (Nat × Pte)) : Prop where
  tree : Tree pt
  shows : ∀ q, m q = seen pt q
  regions : ∀ i, (pt.ent 2 i).v = true ↔ old i

theorem mappages_ok {va size pa : Nat} {perm : Flags}
    (h : Super.mappages k pt va size pa perm = .ok (k', pt', 0)) :
    va % 4096 = 0 ∧ Super.mappagesLoop k pt va pa perm (size / 4096) =
      .ok (k', pt', 0) := by
  unfold Super.mappages at h
  split at h
  · cases h
  rename_i hva
  split at h
  · cases h
  split at h
  · cases h
  exact ⟨by simpa [PGSIZE] using hva, h⟩

theorem supermappages_ok {va size pa : Nat} {perm : Flags}
    (h : Super.supermappages k pt va size pa perm = .ok (k', pt', 0)) :
    va % 2097152 = 0 ∧ size / 4096 = size / 2097152 * 512 ∧
      Super.supermappagesLoop k pt va pa perm (size / 2097152) =
        .ok (k', pt', 0) := by
  unfold Super.supermappages at h
  split at h
  · cases h
  rename_i hva
  split at h
  · cases h
  rename_i hsize
  split at h
  · cases h
  simp only [SUPERPGSIZE, ne_eq, not_not] at hva hsize
  exact ⟨hva, by omega, h⟩

/-- **One call**: on a tree, `mappages` keeps it, and `supermappages` keeps it
if the regions of its pages were touched before. -/
theorem TreeRun.step {c : Call} {old : Nat → Prop} {m : Nat → Option (Nat × Pte)}
    (h : TreeRun pt old m) (hs : CallStep pt c pt') :
    match c with
    | .mappages va size _ _ =>
        TreeRun pt' (fun i => old i ∨ Call.touches va size i) (c.install m)
    | .supermappages va size _ _ =>
        (∀ i, Call.touches va size i → old i) → TreeRun pt' old (c.install m) := by
  cases c with
  | mappages va size pa perm =>
      obtain ⟨⟨hleaf, hns⟩, k, k', hm⟩ := hs
      obtain ⟨hva, hloop⟩ := mappages_ok hm
      obtain ⟨hT, hS, hR⟩ := Tree.mappagesLoop hleaf hns _ _ _ h.tree hva hloop
      refine ⟨hT, fun q => ?_, fun i => ?_⟩
      · rw [hS q]
        simp only [Call.install, h.shows q]
      · rw [hR i, h.regions i]
        rfl
  | supermappages va size pa perm =>
      obtain ⟨hleaf, k, k', hm⟩ := hs
      obtain ⟨hva, hsize, hloop⟩ := supermappages_ok hm
      intro htouch
      obtain ⟨hT, hS, hR⟩ := Tree.supermappagesLoop hleaf _ _ _ h.tree hva
        (fun i hi => (h.regions i).mpr (htouch i (by
          rw [← hsize] at hi
          exact hi))) hloop
      refine ⟨hT, fun q => ?_, fun i => by rw [hR i, h.regions i]⟩
      rw [hS q]
      simp only [Call.install, h.shows q, hsize]

/-- A pointer with `PTE_S` is never taken away again. -/
theorem Run.pointer_stays {cs : List Call} (hr : Run CallStep pt cs pt') {i : Nat}
    (hv : (pt.ent 2 i).v = true) : pt'.ent 2 i = pt.ent 2 i := by
  have hkept : TopKept pt pt' := by
    refine Run.invariant (I := fun p => TopKept pt p) ?_ hr (.refl pt)
    rintro p c p' hp ⟨-, k, k', hm⟩
    refine hp.trans ?_
    cases c with
    | mappages va size pa perm => exact mappagesLoop_topKept _ _ _ (mappages_ok hm).2
    | supermappages va size pa perm =>
        exact supermappagesLoop_topKept _ _ _ (supermappages_ok hm).2.2
  exact hkept i hv

theorem TreeRun.agrees_iff {pt' : PageTable} : ∀ {cs : List Call} {pt : PageTable}
    {old : Nat → Prop} {m : Nat → Option (Nat × Pte)},
    TreeRun pt old m → Run CallStep pt cs pt' →
    (Agrees pt' (cs.foldl Call.install m) ↔ TouchedFirst old cs)
  | [], pt, old, m, h, hr => by
      cases hr
      exact ⟨fun _ => trivial, fun _ => h.tree.agrees h.shows⟩
  | .mappages va size pa perm :: cs, pt, old, m, h, hr => by
      cases hr with
      | cons hs hr =>
          have hrest := TreeRun.agrees_iff (h.step hs) hr
          exact hrest
  | .supermappages va size pa perm :: cs, pt, old, m, h, hr => by
      cases hr with
      | cons hs hr =>
          by_cases htouch : ∀ i, Call.touches va size i → old i
          · have hrest := TreeRun.agrees_iff (h.step hs htouch) hr
            refine hrest.trans ?_
            exact ⟨fun hh => ⟨htouch, hh⟩, fun hh => hh.2⟩
          · -- an untouched region: its level-2 pointer is marked for good
            refine ⟨fun hag => ?_, fun hh => absurd hh.1 htouch⟩
            simp only [not_forall] at htouch
            obtain ⟨i, hi, hno⟩ := htouch
            obtain ⟨-, k, k', hm⟩ := hs
            obtain ⟨hva, hsize, hloop⟩ := supermappages_ok hm
            obtain ⟨i', hv, hS, hl⟩ := supermappagesLoop_marks _ _ _ hva
              ⟨i, by rw [← hsize]; exact hi, by
                simpa using fun hv => hno ((h.regions i).mp hv)⟩ hloop
            have hstay := Run.pointer_stays hr hv
            have := hag.pointers 2 i' (.inr rfl) (by rw [hstay]; exact hv)
              (by rw [hstay]; exact hl)
            rw [hstay, hS] at this
            cases this

/-- **When the two descents agree.** For every sequence of successful mapping
calls from an empty page table: `walk` finds for every address the entry that
was installed for it, the one the hardware uses, and no pointer carries
`PTE_S`, if and only if every `supermappages` stays inside 1 GB regions that an
earlier `mappages` has touched. -/
theorem walk_agrees_iff {root : Nat} {cs : List Call}
    (hr : Run CallStep (.empty root) cs pt) :
    Agrees pt (cs.foldl Call.install (fun _ => none)) ↔
      TouchedFirst (fun _ => False) cs := by
  refine TreeRun.agrees_iff ⟨⟨?_, ?_, ?_⟩, fun q => ?_, fun i => ?_⟩ hr
  · intro i hv
    cases hv
  · intro j hv
    cases hv
  · intro q hv
    cases hv
  · simp [seen, superAt, PageTable.empty, Pte.zero]
  · simp [PageTable.empty, Pte.zero]

/-- A 4 KB page first, then a superpage in the same region. -/
theorem walk_agrees_page_then_superpage :
    ∃ pt, Run CallStep (.empty 0)
        [.mappages 0 4096 4096 userPerm, .supermappages 2097152 2097152 0 userPerm] pt ∧
      Agrees pt ([Call.mappages 0 4096 4096 userPerm,
        .supermappages 2097152 2097152 0 userPerm].foldl Call.install
          (fun _ => none)) := by
  obtain ⟨pt, hr⟩ : ∃ pt, Run CallStep (.empty 0)
      [.mappages 0 4096 4096 userPerm, .supermappages 2097152 2097152 0 userPerm] pt :=
    ⟨_, .cons ⟨⟨rfl, rfl⟩, ⟨[8192, 12288], [], fun _ => 0⟩, _, rfl⟩
      (.cons ⟨rfl, ⟨[], [], fun _ => 0⟩, _, rfl⟩ (.nil _))⟩
  refine ⟨pt, hr, (walk_agrees_iff hr).mpr ⟨fun i hi => .inr ?_, trivial⟩⟩
  obtain ⟨q, h₁, h₂, rfl⟩ := hi
  exact ⟨0, by omega, by omega, by simp only [region]; omega⟩

/-- A superpage first: `walk` stops at the level-2 pointer, which carries
`PTE_S`. -/
theorem walk_disagrees_superpage_first :
    ∃ pt, Run CallStep (.empty 0) [.supermappages 0 2097152 4194304 userPerm] pt ∧
      ¬ Agrees pt ([Call.supermappages 0 2097152 4194304 userPerm].foldl Call.install
        (fun _ => none)) := by
  refine ⟨_, .cons ⟨rfl, ⟨[], [2097152], fun _ => 0⟩, _, rfl⟩ (.nil _), fun h => ?_⟩
  exact absurd (h.pointers 2 0 (.inr rfl) rfl rfl) (by decide)

end Xv6Labs.Super
