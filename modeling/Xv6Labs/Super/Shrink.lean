import Xv6Labs.Super.Grow

/-!
# Giving memory back

The shrink branch of `growproc` pops entries off the record and gives one chunk back for
each. Where it stops and with which size is a function of the record, the size and the
request alone (`shrinkEnd`). As long as no chunk begins inside a superpage (`Uncut`), the
pages above that size are unmapped and nothing else changes.
-/

namespace Xv6Labs.Super

open Xv6Labs.Lib

/-! ## The pops -/

def chunkSize (c : Char) : Nat := if c = '1' then SUPERPGSIZE else PGSIZE

/-- The size after a chunk of `c` bytes: `sz - c` that wraps leaves `sz`. -/
def lower (sz c : Nat) : Nat := if c ≤ sz then sz - c else sz

/-- How the loop of the shrink branch ends: out of entries, exactly at entry `i`, having
given back more than was asked for at a 4 KB entry `i`, or inside the superpage of entry
`i`, of which `m` bytes are to stay. -/
inductive ShrinkEnd where
  | ran (sz : Nat)
  | exact (i sz : Nat)
  | past (i sz : Nat)
  | split (i sz m : Nat)

def ShrinkEnd.sz : ShrinkEnd → Nat
  | ran sz => sz
  | exact _ sz => sz
  | past _ sz => sz
  | split _ sz _ => sz

/-- The end of the loop with the entries below `i` still to visit. -/
def shrinkEnd (record : Nat → Char) (sz : Nat) (n : Int) : Nat → ShrinkEnd
  | 0 => .ran sz
  | i + 1 =>
      if n + chunkSize (record i) > 0 then
        if record i = '1' then
          .split i (lower sz (chunkSize (record i))) (n + chunkSize (record i)).toNat
        else .past i (lower sz (chunkSize (record i)))
      else if n + chunkSize (record i) = 0 then .exact i (lower sz (chunkSize (record i)))
      else shrinkEnd record (lower sz (chunkSize (record i))) (n + chunkSize (record i)) i

/-- No chunk the loop gives back begins strictly inside a superpage. -/
def Uncut (pt : PageTable) (record : Nat → Char) (sz : Nat) (n : Int) : Nat → Prop
  | 0 => True
  | i + 1 => OnBoundary pt (pages (lower sz (chunkSize (record i)))) ∧
      (n + chunkSize (record i) < 0 →
        Uncut pt record (lower sz (chunkSize (record i))) (n + chunkSize (record i)) i)

/-- What the branch does after the pops, `k` and `p` being the kernel and the process then:
`p.pagetable` is mapped up to `e.sz`. -/
def ShrinkEnd.finish (kend : Nat) (k : Kernel) (p : Proc) :
    ShrinkEnd → Except String (Kernel × Proc)
  | ran sz => .ok (k, { p with sz := sz })
  | exact i sz => .ok (k, { p with sz := sz, next := i })
  | past i sz => .ok (k, { p with sz := sz, next := i - 1 })
  | split i sz m =>
      match Super.uvmalloc kend k p.pagetable sz (sz + m) { w := true } with
      | .error e => .error e
      | .ok (k, pt, sz) => .ok (k, {
          pagetable := pt
          sz := sz
          record := Function.update p.record i '0'
          next := p.next - 1 + m / PGSIZE })

variable {kend : Nat} {k k' : Kernel} {pt pt' : PageTable} {record : Nat → Char} {sz : Nat}
  {n : Int}

theorem chunkSize_pos (c : Char) : 0 < chunkSize c := by
  unfold chunkSize SUPERPGSIZE PGSIZE
  split <;> omega

theorem chunkSize_le (c : Char) : chunkSize c ≤ 2097152 := by
  unfold chunkSize SUPERPGSIZE PGSIZE
  split <;> omega

theorem lower_le (sz c : Nat) : lower sz c ≤ sz := by
  unfold lower
  split <;> omega

theorem shrinkEnd_le (record : Nat → Char) (i : Nat) : ∀ (sz : Nat) (n : Int),
    (shrinkEnd record sz n i).sz ≤ sz := by
  induction i with
  | zero =>
      intro sz n
      exact Nat.le_refl sz
  | succ i ih =>
      intro sz n
      have hle := lower_le sz (chunkSize (record i))
      unfold shrinkEnd
      split_ifs
      · exact hle
      · exact hle
      · exact hle
      · exact (ih _ _).trans hle

/-- What a split leaves of its superpage is less than the whole. -/
theorem shrinkEnd_split {i j S m : Nat} : ∀ {sz : Nat} {n : Int}, n < 0 →
    shrinkEnd record sz n i = .split j S m → 0 < m ∧ m < 2097152 ∧ j < i := by
  induction i with
  | zero =>
      intro sz n _ h
      cases h
  | succ i ih =>
      intro sz n hn h
      unfold shrinkEnd at h
      split_ifs at h with h₁ h₂ h₃
      · obtain ⟨rfl, -, rfl⟩ := ShrinkEnd.split.inj h
        have hsize := chunkSize_le (record i)
        omega
      · obtain ⟨h₄, h₅, h₆⟩ := ih (by omega) h
        exact ⟨h₄, h₅, by omega⟩

/-! ## Unmapping -/

theorem Unmapped.trans {k₁ : Kernel} {pt₁ : PageTable} {lo mid hi : Nat}
    (h : Unmapped kend k pt k₁ pt₁ mid hi) (h' : Unmapped kend k₁ pt₁ k' pt' lo mid)
    (h₁ : lo ≤ mid) (h₂ : mid ≤ hi) : Unmapped kend k pt k' pt' lo hi := by
  constructor
  · exact h'.space
  · intro q
    rw [h'.seen, h.seen]
    by_cases hq : lo ≤ q ∧ q < mid
    · rw [if_pos hq, if_pos (by omega)]
    · rw [if_neg hq]
      by_cases hq' : mid ≤ q ∧ q < hi
      · rw [if_pos hq', if_pos (by omega)]
      · rw [if_neg hq', if_neg (by omega)]
  · intro j
    rw [h'.table, h.table]
  · have hcongr : smallPages pt₁ lo mid = smallPages pt lo mid :=
      smallPages_congr (fun q _ hq => superAt_congr (by rw [h.seen, if_neg (by omega)]))
    rw [h'.free, h.free, hcongr, smallPages_split pt h₁ h₂]
    omega
  · intro va hva hup
    rw [h'.kept va (by omega) hup, h.kept va (by omega) hup]

/-- The first page of a superpage is no different after pages above it are unmapped. -/
theorem Unmapped.onBoundary {lo hi q : Nat} (h : Unmapped kend k pt k' pt' lo hi)
    (hq : OnBoundary pt q) (hle : q ≤ lo) (hend : Layout pt' lo) (hlo : lo ≤ 32768) :
    OnBoundary pt' q := by
  intro hs
  have hle' := hend.super_le (hlo.trans (by decide)) hs
  have hseen : Super.seen pt' q = Super.seen pt q := by
    rw [h.seen, if_neg (by omega)]
  apply hq
  rw [← superAt_congr hseen]
  exact hs

/-- **One chunk** of `uvmdealloc`. -/
theorem Space.dealloc_chunk (h : Space kend k pt) {c : Nat} (hc : 0 < c)
    (hsmall : c ≤ 2097152) (hL : Layout pt (pages sz))
    (hon : OnBoundary pt (pages (lower sz c))) :
    ∃ k' pt', Super.uvmdealloc kend k pt sz (minus sz c) = .ok (k', pt', lower sz c) ∧
      Unmapped kend k pt k' pt' (pages (lower sz c)) (pages sz) ∧
      Layout pt' (pages (lower sz c)) := by
  have hmax := h.layout_le hL
  have hsz : sz ≤ 134217728 := by
    unfold pages at hmax
    omega
  by_cases hle : c ≤ sz
  · have hminus : minus sz c = sz - c := by
      unfold minus
      omega
    have hlower : lower sz c = sz - c := if_pos hle
    have hpages : ∀ x, PGROUNDUP x / 4096 = pages x := fun x => by
      unfold PGROUNDUP pages
      omega
    rw [hlower] at hon ⊢
    obtain ⟨k', pt', hok, hU, hL'⟩ := h.uvmdealloc hL (PGROUNDUP_eq sz)
      (show sz - c < sz by omega) (by rw [hpages]; exact hon)
    rw [hpages] at hU hL'
    rw [hminus]
    exact ⟨k', pt', hok, hU, hL'⟩
  · have hlower : lower sz c = sz := if_neg hle
    have hge : sz ≤ minus sz c := by
      unfold minus
      omega
    rw [hlower]
    exact ⟨k, pt, if_pos hge, (h.freed_nothing (Nat.le_refl _)).toUnmapped, hL⟩

theorem Uncut.unmapped {lo hi i : Nat} (h : Unmapped kend k pt k' pt' lo hi)
    (hL : Layout pt' lo) (hlo : lo ≤ 32768) : ∀ {sz : Nat} {n : Int}, pages sz ≤ lo →
    Uncut pt record sz n i → Uncut pt' record sz n i := by
  induction i with
  | zero =>
      intro sz n _ _
      trivial
  | succ i ih =>
      intro sz n hsz hu
      obtain ⟨hon, hrest⟩ := hu
      have hle := pages_mono (lower_le sz (chunkSize (record i)))
      exact ⟨h.onBoundary hon (hle.trans hsz) hL hlo,
        fun hn => ih (hle.trans hsz) (hrest hn)⟩

/-- **The loop of the shrink branch**, as long as it cuts no superpage. -/
theorem Space.shrinkLoop (i : Nat) : ∀ {k : Kernel} {p : Proc} {n : Int},
    Space kend k p.pagetable → Layout p.pagetable (pages p.sz) → n < 0 → i ≤ 10000 →
    Uncut p.pagetable p.record p.sz n i →
    ∃ k' pt', Unmapped kend k p.pagetable k' pt' (pages (shrinkEnd p.record p.sz n i).sz)
        (pages p.sz) ∧ Layout pt' (pages (shrinkEnd p.record p.sz n i).sz) ∧
      Super.shrinkLoop kend k p n i =
        (shrinkEnd p.record p.sz n i).finish kend k' { p with pagetable := pt' } := by
  induction i with
  | zero =>
      intro k p n h hL _ _ _
      exact ⟨k, p.pagetable, (h.freed_nothing (Nat.le_refl _)).toUnmapped, hL, rfl⟩
  | succ i ih =>
      intro k p n h hL hn hi hu
      obtain ⟨hon, hrest⟩ := hu
      obtain ⟨k₁, pt₁, hok, hU, hL₁⟩ := h.dealloc_chunk (chunkSize_pos (p.record i))
        (chunkSize_le (p.record i)) hL hon
      have hmax := hU.space.layout_le hL₁
      have hle := pages_mono (lower_le p.sz (chunkSize (p.record i)))
      have hrec : n + chunkSize (p.record i) < 0 →
          ∃ k' pt', Unmapped kend k p.pagetable k' pt' (pages (shrinkEnd p.record
              (lower p.sz (chunkSize (p.record i))) (n + chunkSize (p.record i)) i).sz)
            (pages p.sz) ∧ Layout pt' (pages (shrinkEnd p.record
              (lower p.sz (chunkSize (p.record i))) (n + chunkSize (p.record i)) i).sz) ∧
            Super.shrinkLoop kend k₁ { p with
                pagetable := pt₁, sz := lower p.sz (chunkSize (p.record i)) }
                (n + chunkSize (p.record i)) i =
              (shrinkEnd p.record (lower p.sz (chunkSize (p.record i)))
                (n + chunkSize (p.record i)) i).finish kend k' { p with pagetable := pt' } := by
        intro hneg
        obtain ⟨k', pt', hU', hL', hloop⟩ := ih (k := k₁) (p := { p with
          pagetable := pt₁, sz := lower p.sz (chunkSize (p.record i)) }) hU.space hL₁ hneg
          (by omega) ((hrest hneg).unmapped hU hL₁ hmax (Nat.le_refl _))
        refine ⟨k', pt', hU.trans hU' (pages_mono (shrinkEnd_le ..)) hle, hL', hloop.trans ?_⟩
        cases shrinkEnd p.record (lower p.sz (chunkSize (p.record i)))
          (n + chunkSize (p.record i)) i <;> rfl
      rw [Super.shrinkLoop, if_neg (by omega)]
      unfold shrinkEnd
      by_cases hone : p.record i = '1'
      · have hchunk : chunkSize (p.record i) = SUPERPGSIZE := if_pos hone
        rw [hchunk] at hok hU hL₁ hrec ⊢
        rw [if_pos hone, hok]
        simp only [if_pos hone]
        split_ifs with hpos hzero
        · have hm : ((n + (SUPERPGSIZE : Int)).toNat : Int) = n + (SUPERPGSIZE : Int) :=
            Int.toNat_of_nonneg (by omega)
          refine ⟨k₁, pt₁, hU, hL₁, ?_⟩
          unfold ShrinkEnd.finish
          dsimp only
          cases Super.uvmalloc kend k₁ pt₁ (lower p.sz SUPERPGSIZE)
            (lower p.sz SUPERPGSIZE + (n + (SUPERPGSIZE : Int)).toNat) { w := true } with
          | error e => rfl
          | ok r => simp only [hm]
        · exact ⟨k₁, pt₁, hU, hL₁, rfl⟩
        · exact hrec (by omega)
      · have hchunk : chunkSize (p.record i) = PGSIZE := if_neg hone
        rw [hchunk] at hok hU hL₁ hrec ⊢
        rw [if_neg hone, hok]
        simp only [if_neg hone]
        split_ifs with hpos hzero
        · exact ⟨k₁, pt₁, hU, hL₁, rfl⟩
        · exact ⟨k₁, pt₁, hU, hL₁, rfl⟩
        · exact hrec (by omega)

end Xv6Labs.Super
