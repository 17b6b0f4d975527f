import Xv6Labs.Super.Growproc

/-!
# The record of the chunks

`p->record` lists the chunks that `growproc` has added above the image, and `p->next` how
many there are. `Matches` ties the list to the page table: the chunks lie end to end, they
reach up to the size, and the entries '1' are the superpages. A call keeps it unless one of
the rules that update `next` is wrong about the chunk it ends in.
-/

namespace Xv6Labs.Super

open Xv6Labs.Lib

/-! ## Chunks end to end -/

def chunkPages (c : Char) : Nat := if c = '1' then 512 else 1

/-- The page at which chunk `i` begins, the first one beginning at page `b`. -/
def chunkStart (record : Nat → Char) (b : Nat) : Nat → Nat
  | 0 => b
  | i + 1 => chunkStart record b i + chunkPages (record i)

/-- The first `i` entries are '1' exactly for the superpages. -/
def Ones (pt : PageTable) (record : Nat → Char) (b i : Nat) : Prop :=
  ∀ l, l < i → (record l = '1' ↔ superAt pt (chunkStart record b l / 512) = true) ∧
    (record l = '1' → chunkStart record b l % 512 = 0)

/-- Record and page table agree. -/
structure Matches (b : Nat) (p : Proc) : Prop where
  nonneg : 0 ≤ p.next
  room : p.next ≤ 10000
  covers : chunkStart p.record b p.next.toNat = pages p.sz
  ones : Ones p.pagetable p.record b p.next.toNat

variable {kend b i c : Nat} {k k' : Kernel} {pt pt' : PageTable} {p p' : Proc} {t t₀ : Task}
  {n ret : Int} {es : List Event} {record record' : Nat → Char}

theorem chunkSize_eq (c : Char) : chunkSize c = chunkPages c * 4096 := by
  unfold chunkSize chunkPages
  split <;> rfl

theorem chunkPages_pos (c : Char) : 0 < chunkPages c := by
  unfold chunkPages
  split <;> decide

theorem chunkStart_congr (h : ∀ l, l < i → record' l = record l) :
    chunkStart record' b i = chunkStart record b i := by
  induction i with
  | zero => rfl
  | succ i ih =>
      show chunkStart record' b i + chunkPages (record' i) = _
      rw [ih (fun l hl => h l (by omega)), h i (Nat.lt_succ_self i)]
      rfl

theorem le_chunkStart : b ≤ chunkStart record b i := by
  induction i with
  | zero => exact Nat.le_refl b
  | succ i ih => exact ih.trans (Nat.le_add_right _ _)

theorem chunkStart_lt {l : Nat} (h : l < i) :
    chunkStart record b l < chunkStart record b i := by
  induction i with
  | zero => exact absurd h (Nat.not_lt_zero l)
  | succ i ih =>
      have hpos := chunkPages_pos (record i)
      show _ < chunkStart record b i + chunkPages (record i)
      by_cases hl : l = i
      · subst hl
        omega
      · have := ih (by omega)
        omega

theorem chunkStart_zeros {d : Nat} (h : ∀ l, i ≤ l → l < i + d → record l ≠ '1') :
    chunkStart record b (i + d) = chunkStart record b i + d := by
  induction d with
  | zero => rfl
  | succ d ih =>
      have hone : chunkPages (record (i + d)) = 1 := if_neg (h _ (by omega) (by omega))
      show chunkStart record b (i + d) + chunkPages (record (i + d)) = _
      rw [ih (fun l h₁ h₂ => h l h₁ (by omega)), hone]
      omega

theorem chunkStart_ones {d : Nat} (h : ∀ l, i ≤ l → l < i + d → record l = '1') :
    chunkStart record b (i + d) = chunkStart record b i + d * 512 := by
  induction d with
  | zero => rw [Nat.zero_mul, Nat.add_zero, Nat.add_zero]
  | succ d ih =>
      have hone : chunkPages (record (i + d)) = 512 := if_pos (h _ (by omega) (by omega))
      show chunkStart record b (i + d) + chunkPages (record (i + d)) = _
      rw [ih (fun l h₁ h₂ => h l h₁ (by omega)), hone]
      omega

theorem Ones.congr (h : Ones pt record b i) (hrec : ∀ l, l < i → record' l = record l)
    (hseen : ∀ q, q < chunkStart record b i → seen pt' q = seen pt q) :
    Ones pt' record' b i := by
  intro l hl
  have hstart : chunkStart record' b l = chunkStart record b l :=
    chunkStart_congr (fun l' hl' => hrec l' (by omega))
  rw [hrec l hl, hstart, superAt_congr (hseen _ (chunkStart_lt hl))]
  exact h l hl

theorem Ones.zeros {d : Nat} (h : Ones pt record b i)
    (hrec : ∀ l, i ≤ l → l < i + d → record l ≠ '1')
    (hno : ∀ q, chunkStart record b i ≤ q → q < chunkStart record b i + d →
      superAt pt (q / 512) = false) : Ones pt record b (i + d) := by
  intro l hl
  by_cases hold : l < i
  · exact h l hold
  · have hne := hrec l (by omega) hl
    obtain ⟨e, rfl⟩ : ∃ e, l = i + e := ⟨l - i, by omega⟩
    have hstart : chunkStart record b (i + e) = chunkStart record b i + e :=
      chunkStart_zeros (fun l h₁ h₂ => hrec l h₁ (by omega))
    have hsuper := hno (chunkStart record b i + e) (by omega) (by omega)
    rw [hstart, hsuper]
    exact ⟨iff_of_false hne Bool.false_ne_true, fun hone => absurd hone hne⟩

theorem Ones.ones {d s : Nat} (h : Ones pt record b i)
    (hrec : ∀ l, i ≤ l → l < i + d → record l = '1')
    (hstart : 0 < d → chunkStart record b i = s * 512)
    (hsuper : ∀ j, s ≤ j → j < s + d → superAt pt j = true) : Ones pt record b (i + d) := by
  intro l hl
  by_cases hold : l < i
  · exact h l hold
  · obtain ⟨e, rfl⟩ : ∃ e, l = i + e := ⟨l - i, by omega⟩
    have hat : chunkStart record b (i + e) = (s + e) * 512 := by
      rw [chunkStart_ones (fun l h₁ h₂ => hrec l h₁ (by omega)), hstart (by omega), Nat.add_mul]
    rw [hat, Nat.mul_div_cancel _ (by decide), hsuper (s + e) (by omega) (by omega)]
    exact ⟨iff_of_true (hrec _ (by omega) hl) rfl, fun _ => Nat.mul_mod_left _ _⟩

/-! ## Shrinking -/

/-- Where the pops end when the record matches and the image stays: not by running out of
entries, and at the beginning of a chunk. -/
def ShrinkEnd.AtChunk (record : Nat → Char) (b i : Nat) : ShrinkEnd → Prop
  | ran _ => False
  | exact j S => j < i ∧ pages S = chunkStart record b j
  | past _ _ => True
  | split j S _ => j < i ∧ pages S = chunkStart record b j

theorem Ones.stop (hb : 0 < b) (i : Nat) : ∀ {sz : Nat} {n : Int}, Ones pt record b i →
    chunkStart record b i = pages sz → n < 0 → (b * 4096 : Nat) ≤ sz + n →
    Uncut pt record sz n i ∧ (shrinkEnd record sz n i).AtChunk record b i := by
  induction i with
  | zero =>
      intro sz n _ hcovers hn hB
      have hpages : b = pages sz := hcovers
      unfold pages at hpages
      omega
  | succ i ih =>
      intro sz n hones hcovers hn hB
      obtain ⟨hiff, hal⟩ := hones i (Nat.lt_succ_self i)
      have hsize := chunkSize_eq (record i)
      have hstart : b ≤ chunkStart record b i := le_chunkStart
      have hsum : chunkStart record b i + chunkPages (record i) = pages sz := hcovers
      have hle : chunkSize (record i) ≤ sz := by
        rw [hsize]
        unfold pages at hsum
        omega
      have hlower : lower sz (chunkSize (record i)) = sz - chunkSize (record i) := if_pos hle
      have hpages : pages (sz - chunkSize (record i)) = chunkStart record b i := by
        rw [hsize] at hle ⊢
        unfold pages at hsum ⊢
        omega
      have hon : OnBoundary pt (chunkStart record b i) := fun hs => hal (hiff.mpr hs)
      have hrest : n + chunkSize (record i) < 0 →
          Uncut pt record (sz - chunkSize (record i)) (n + chunkSize (record i)) i ∧
            (shrinkEnd record (sz - chunkSize (record i)) (n + chunkSize (record i)) i).AtChunk
              record b i :=
        fun hneg => ih (fun l hl => hones l (by omega)) hpages.symm hneg (by omega)
      constructor
      · unfold Uncut
        rw [hlower, hpages]
        exact ⟨hon, fun hneg => (hrest hneg).1⟩
      · unfold shrinkEnd
        rw [hlower]
        split_ifs with hpos hone hzero
        · exact ⟨Nat.lt_succ_self i, hpages⟩
        · trivial
        · exact ⟨Nat.lt_succ_self i, hpages⟩
        · have hat := (hrest (by omega)).2
          generalize shrinkEnd record (sz - chunkSize (record i))
            (n + chunkSize (record i)) i = e at hat ⊢
          cases e with
          | ran S => exact hat
          | exact j S => exact ⟨Nat.lt_succ_of_lt hat.1, hat.2⟩
          | past j S => trivial
          | split j S m => exact ⟨Nat.lt_succ_of_lt hat.1, hat.2⟩

/-! ## One call -/

/-- A call that leaves the record right: what it appends fits, what it takes off does not end
in the middle of a 4 KB chunk, and if it splits a superpage there is memory for the part
that stays, `next` comes out as the number of entries below it plus the pages of that part,
and none of the entries it uncovers is '1'. -/
structure Task.RecordedCall (t : Task) (n : Int) : Prop where
  room : 0 < n → Clear t.k t.p.pagetable (pages t.p.sz) (t.p.sz + n.toNat) →
    Enough t.k t.p.pagetable (pages t.p.sz) (t.p.sz + n.toNat) →
    t.p.Fits (newEntries t.p.sz (t.p.sz + n.toNat))
  whole : n < 0 → ∀ i S, t.p.stop n ≠ .past i S
  memory : n < 0 → ∀ i S m, t.p.stop n = .split i S m → EnoughSplit t.k t.p S m
  next : n < 0 → ∀ i S m, t.p.stop n = .split i S m →
    t.p.next - 1 + m / PGSIZE = i + (pages (S + m) - pages S : Nat) ∧
      t.p.next - 1 + m / PGSIZE ≤ 10000
  stale : n < 0 → ∀ i S m, t.p.stop n = .split i S m → ∀ l : Nat, i < l →
    l < t.p.next - 1 + m / PGSIZE → t.p.record l ≠ '1'

theorem needs_add (N newsz : Nat) (hle : N ≤ pages newsz) :
    N + startNeed N newsz + superNeed N newsz * 512 +
      (smallNeed N newsz - startNeed N newsz) = pages newsz ∧
    (0 < superNeed N newsz → N + startNeed N newsz = (N + 511) / 512 * 512) ∧
    (superNeed N newsz = 0 → smallNeed N newsz - startNeed N newsz = 0) := by
  have hstart := startNeed_le N newsz
  have hfit : superNeed N newsz * 512 ≤ pages newsz - N := by
    unfold superNeed pages
    omega
  refine ⟨?_, fun hpos => ?_, fun hzero => ?_⟩
  · unfold smallNeed at hstart ⊢
    omega
  · unfold startNeed
    rw [if_neg (by omega)]
    omega
  · unfold startNeed
    rw [if_pos hzero]
    omega

/-- `a` pages, the slots from `s` on and `c` pages follow the first `i` entries. -/
theorem Ones.appended {a d s c : Nat} (h : Ones pt record b i)
    (hseen : ∀ q, q < chunkStart record b i → seen pt' q = seen pt q)
    (hrec : ∀ l, record' l = if i ≤ l ∧ l < i + (a + d + c) then
      if i + a ≤ l ∧ l < i + (a + d) then '1' else '0' else record l)
    (hslot : 0 < d → chunkStart record b i + a = s * 512)
    (hfirst : ∀ q, chunkStart record b i ≤ q → q < chunkStart record b i + a →
      superAt pt' (q / 512) = false)
    (hsuper : ∀ j, s ≤ j → j < s + d → superAt pt' j = true)
    (hlast : ∀ q, chunkStart record b i + a + d * 512 ≤ q →
      q < chunkStart record b i + a + d * 512 + c → superAt pt' (q / 512) = false) :
    Ones pt' record' b (i + (a + d + c)) ∧
      chunkStart record' b (i + (a + d + c)) = chunkStart record b i + a + d * 512 + c := by
  have hold : ∀ l, l < i → record' l = record l := fun l hl => by
    rw [hrec, if_neg (by omega)]
  have hzeros : ∀ l, i ≤ l → l < i + a → record' l ≠ '1' := fun l h₁ h₂ => by
    rw [hrec, if_pos (by omega), if_neg (by omega)]
    decide
  have hones : ∀ l, i + a ≤ l → l < i + a + d → record' l = '1' := fun l h₁ h₂ => by
    rw [hrec, if_pos (by omega), if_pos (by omega)]
  have hzeros' : ∀ l, i + a + d ≤ l → l < i + a + d + c → record' l ≠ '1' :=
    fun l h₁ h₂ => by
      rw [hrec, if_pos (by omega), if_neg (by omega)]
      decide
  have hat₀ : chunkStart record' b i = chunkStart record b i := chunkStart_congr hold
  have hat₁ : chunkStart record' b (i + a) = chunkStart record b i + a := by
    rw [chunkStart_zeros hzeros, hat₀]
  have hat₂ : chunkStart record' b (i + a + d) = chunkStart record b i + a + d * 512 := by
    rw [chunkStart_ones hones, hat₁]
  have h₀ : Ones pt' record' b i := h.congr hold hseen
  have h₁ : Ones pt' record' b (i + a) := h₀.zeros hzeros (fun q hq hq' => by
    rw [hat₀] at hq hq'
    exact hfirst q hq hq')
  have h₂ : Ones pt' record' b (i + a + d) :=
    h₁.ones hones (fun hpos => hat₁.trans (hslot hpos)) hsuper
  have h₃ : Ones pt' record' b (i + a + d + c) := h₂.zeros hzeros' (fun q hq hq' => by
    rw [hat₂] at hq hq'
    exact hlast q hq hq')
  have hsum : i + (a + d + c) = i + a + d + c := by omega
  rw [hsum]
  exact ⟨h₃, by rw [chunkStart_zeros hzeros', hat₂]⟩

/-- **The three appends** describe what was mapped. -/
theorem Matches.grown {newsz : Nat} (h : Matches b p) (hle : p.sz ≤ newsz)
    (hG : Grown kend k p.pagetable k' pt' (pages p.sz) newsz)
    (hfits : p.Fits (newEntries p.sz newsz)) : Matches b (p.afterGrowth pt' newsz) := by
  obtain ⟨hsum, hslot, hrest⟩ := needs_add (pages p.sz) newsz (pages_mono hle)
  have hstart := startNeed_le (pages p.sz) newsz
  have hnonneg := h.nonneg
  have hroom := h.room
  have hcovers := h.covers
  have hnext : (p.afterGrowth pt' newsz).next = p.next + (startNeed (pages p.sz) newsz +
      superNeed (pages p.sz) newsz +
      (smallNeed (pages p.sz) newsz - startNeed (pages p.sz) newsz) : Nat) := rfl
  have htop : (p.afterGrowth pt' newsz).next.toNat = p.next.toNat +
      (startNeed (pages p.sz) newsz + superNeed (pages p.sz) newsz +
        (smallNeed (pages p.sz) newsz - startNeed (pages p.sz) newsz)) := by
    rw [hnext]
    omega
  have hneed : superNeed (pages p.sz) newsz = newsz / 2097152 - (pages p.sz + 511) / 512 := rfl
  have hrec : ∀ l, (p.afterGrowth pt' newsz).record l =
      if p.next.toNat ≤ l ∧ l < p.next.toNat + (startNeed (pages p.sz) newsz +
          superNeed (pages p.sz) newsz +
          (smallNeed (pages p.sz) newsz - startNeed (pages p.sz) newsz)) then
        if p.next.toNat + startNeed (pages p.sz) newsz ≤ l ∧ l < p.next.toNat +
          (startNeed (pages p.sz) newsz + superNeed (pages p.sz) newsz) then '1' else '0'
      else p.record l := by
    intro l
    unfold Proc.afterGrowth Proc.grown
    simp only
    split_ifs <;> first | rfl | omega
  -- before the first superpage and behind the last one
  have hsmall : ∀ q, pages p.sz ≤ q → q < pages newsz →
      (0 < superNeed (pages p.sz) newsz → q < (pages p.sz + 511) / 512 * 512 ∨
        newsz / 2097152 * 512 ≤ q) → superAt pt' (q / 512) = false := by
    intro q hlo hhi hout
    by_contra hne
    have hin := (hG.super q hlo hhi).mp (by simpa using hne)
    have := hout (by omega)
    omega
  have hsuper : ∀ j, (pages p.sz + 511) / 512 ≤ j →
      j < (pages p.sz + 511) / 512 + superNeed (pages p.sz) newsz → superAt pt' j = true := by
    intro j h₁ h₂
    have hat := hslot (by omega)
    have hj := (hG.super (j * 512) (by omega) (by omega)).mpr (by omega)
    rwa [Nat.mul_div_cancel _ (by decide)] at hj
  have hseen : ∀ q, q < chunkStart p.record b p.next.toNat →
      seen pt' q = seen p.pagetable q := fun q hq => hG.seen q (by omega)
  obtain ⟨hones, hend⟩ := h.ones.appended (s := (pages p.sz + 511) / 512) hseen hrec
    (fun hpos => by rw [hcovers]; exact hslot hpos)
    (fun q h₁ h₂ => hsmall q (by omega) (by omega) (fun hpos => by
      have := hslot hpos
      omega))
    hsuper
    (fun q h₁ h₂ => hsmall q (by omega) (by omega) (fun hpos => by
      have := hslot hpos
      omega))
  constructor
  · rw [hnext]
    omega
  · unfold newEntries Proc.Fits at hfits
    rw [hnext]
    omega
  · rw [htop, hend, hcovers]
    exact hsum
  · rw [htop]
    exact hones

/-- Where a shrinking call stops that leaves the image alone. -/
theorem Matches.stop (h : Matches b p) (hb : 0 < b) (hn : n < 0)
    (hB : (b * 4096 : Nat) ≤ p.sz + n) : Uncut p.pagetable p.record p.sz n p.next.toNat ∧
      (p.stop n).AtChunk p.record b p.next.toNat :=
  Ones.stop hb p.next.toNat h.ones h.covers hn hB

theorem Matches.dropped {j S : Nat} (h : Matches b p) (hj : j < p.next.toNat)
    (hat : pages S = chunkStart p.record b j)
    (hseen : ∀ q, q < pages S → seen pt' q = seen p.pagetable q) :
    Matches b { p with pagetable := pt', sz := S, next := j } := by
  have hroom := h.room
  constructor
  · exact Int.natCast_nonneg j
  · show (j : Int) ≤ 10000
    omega
  · exact hat.symm
  · have hones : Ones p.pagetable p.record b j := fun l hl => h.ones l (by omega)
    exact hones.congr (fun _ _ => rfl) (fun q hq => hseen q (by omega))

/-- **The split rule**, when `next` comes out right and uncovers no '1'. -/
theorem Matches.split {k₁ : Kernel} {pt₁ : PageTable} {j S m : Nat} (h : Matches b p)
    (hj : j < p.next.toNat) (hat : pages S = chunkStart p.record b j) (hm : m < 2097152)
    (hU : Unmapped kend k p.pagetable k₁ pt₁ (pages S) (pages p.sz))
    (hG : Grown kend k₁ pt₁ k' pt' (pages S) (S + m))
    (hnext : p.next - 1 + m / PGSIZE = j + (pages (S + m) - pages S : Nat))
    (hmax : p.next - 1 + m / PGSIZE ≤ 10000)
    (hstale : ∀ l : Nat, j < l → l < p.next - 1 + m / PGSIZE → p.record l ≠ '1') :
    Matches b {
      pagetable := pt'
      sz := S + m
      record := Function.update p.record j '0'
      next := p.next - 1 + m / PGSIZE } := by
  have hmono := pages_mono (Nat.le_add_right S m)
  have hnone := superNeed_short (S := S) hm
  have htop : (p.next - 1 + m / PGSIZE).toNat = j + (pages (S + m) - pages S) := by
    rw [hnext]
    exact Int.toNat_natCast _
  have hold : ∀ l, l < j → Function.update p.record j '0' l = p.record l := fun l hl =>
    Function.update_of_ne (Nat.ne_of_lt hl) _ _
  have hzeros : ∀ l, j ≤ l → l < j + (pages (S + m) - pages S) →
      Function.update p.record j '0' l ≠ '1' := by
    intro l h₁ h₂
    by_cases hl : l = j
    · rw [hl, Function.update_self]
      decide
    · rw [Function.update_of_ne hl]
      exact hstale l (by omega) (by omega)
  have hstart : chunkStart (Function.update p.record j '0') b j = pages S := by
    rw [chunkStart_congr hold, hat]
  have hseen : ∀ q, q < pages S → seen pt' q = seen p.pagetable q := fun q hq => by
    rw [hG.seen q hq, hU.seen, if_neg (by omega)]
  have hones : Ones p.pagetable p.record b j := fun l hl => h.ones l (by omega)
  have hbelow : Ones pt' (Function.update p.record j '0') b j :=
    hones.congr hold (fun q hq => hseen q (by omega))
  constructor
  · show 0 ≤ p.next - 1 + m / PGSIZE
    omega
  · exact hmax
  · show chunkStart _ b (p.next - 1 + m / PGSIZE).toNat = pages (S + m)
    rw [htop, chunkStart_zeros hzeros, hstart]
    omega
  · show Ones pt' _ b (p.next - 1 + m / PGSIZE).toNat
    rw [htop]
    refine hbelow.zeros hzeros (fun q h₁ h₂ => ?_)
    by_contra hne
    have hin := (hG.super q (by omega) (by omega)).mp (by simpa using hne)
    unfold superNeed at hnone
    omega

/-- **One call** that leaves the image alone and meets `RecordedCall`. -/
theorem Called.matches (hC : Called kend k p n k' p' ret) (h : Matches b p) (hb : 0 < b)
    (hB : (b * 4096 : Nat) ≤ p.sz + n) (hcall : Task.RecordedCall ⟨k, p⟩ n) :
    Matches b p' := by
  cases hC with
  | nothing _ => exact h
  | grown hn hG hfits => exact h.grown (Nat.le_add_right _ _) hG hfits
  | undone hn hU =>
      have hcovers := h.covers
      exact ⟨h.nonneg, h.room, h.covers,
        h.ones.congr (fun _ _ => rfl) (fun q hq => hU.seen q (by omega))⟩
  | dropped hn hstop hU hL =>
      have hat := (h.stop hb hn hB).2
      have hwhole := hcall.whole hn
      simp only at hwhole
      generalize p.stop n = e at hat hstop hwhole hU
      cases e with
      | ran S => exact hat.elim
      | exact i S =>
          refine h.dropped hat.1 hat.2 (fun q hq => ?_)
          have hlow : q < pages S := hq
          have hU' : Unmapped kend k p.pagetable _ _ (pages S) (pages p.sz) := hU
          rw [hU'.seen, if_neg (by omega)]
      | past i S => exact absurd rfl (hwhole i S)
      | split i S m => exact absurd rfl (hstop i S m)
  | split hn hstop hm _ hU hG =>
      have hat := (h.stop hb hn hB).2
      rw [hstop] at hat
      obtain ⟨hnext, hmax⟩ := hcall.next hn _ _ _ hstop
      exact h.split hat.1 hat.2 hm.2 hU hG hnext hmax (hcall.stale hn _ _ _ hstop)
  | lost hn hstop hE _ _ => exact absurd (hcall.memory hn _ _ _ hstop) hE

/-! ## Sequences of calls -/

def OneSuperpage (pt : PageTable) (lo hi : Nat) : Prop :=
  ∃ c, (pt.ent c.1 c.2).s = true ∧ ∀ q, lo ≤ q → q < hi → sv39 pt (q * 4096) = some c

/-- The chunks of the record, laid end to end from page `b`, are what is mapped there. -/
structure Recorded (b : Nat) (p : Proc) : Prop where
  range : 0 ≤ p.next ∧ p.next ≤ 10000
  covers : chunkStart p.record b p.next.toNat = pages p.sz
  ones : ∀ i : Nat, i < p.next → (p.record i = '1' ↔
    OneSuperpage p.pagetable (chunkStart p.record b i) (chunkStart p.record b (i + 1)))

theorem Tree.oneSuperpage (h : Tree pt) {lo : Nat} (hal : lo % 512 = 0)
    (hs : superAt pt (lo / 512) = true) : OneSuperpage pt lo (lo + 512) := by
  refine ⟨(1, lo / 512), (superAt_iff.mp hs).2, fun q h₁ h₂ => ?_⟩
  have hslot : q / 512 = lo / 512 := by omega
  rw [h.sv39, (vpn_page q).1, seen_super (by rw [hslot]; exact hs), Option.map_some,
    (vpn_page q).2.1, hslot]

theorem Tree.super_of_one (h : Tree pt) {lo hi : Nat} (hlt : lo < hi)
    (hone : OneSuperpage pt lo hi) : superAt pt (lo / 512) = true := by
  obtain ⟨c, hs, hmap⟩ := hone
  have hlo := hmap lo (Nat.le_refl lo) hlt
  rw [h.sv39, (vpn_page lo).1] at hlo
  by_contra hne
  unfold seen at hlo
  rw [if_neg hne] at hlo
  by_cases hv : (pt.ent 0 lo).v = true
  · rw [if_pos hv, Option.map_some, (vpn_page lo).1, Option.some.injEq] at hlo
    rw [← hlo, (h.bot lo hv).2.1] at hs
    cases hs
  · rw [if_neg hv] at hlo
    cases hlo

theorem Matches.recorded (h : Matches b p) (hT : Tree p.pagetable) : Recorded b p := by
  refine ⟨⟨h.nonneg, h.room⟩, h.covers, fun i hi => ?_⟩
  obtain ⟨hiff, hal⟩ := h.ones i (by omega)
  rw [hiff]
  constructor
  · intro hs
    have hrec := hiff.mpr hs
    have hend : chunkStart p.record b (i + 1) = chunkStart p.record b i + 512 := by
      show chunkStart p.record b i + chunkPages (p.record i) = _
      rw [hrec]
      rfl
    rw [hend]
    exact hT.oneSuperpage (hal hrec) hs
  · exact hT.super_of_one (chunkStart_lt (Nat.lt_succ_self i))

/-- Calls above page `b` that meet `RecordedCall`. -/
def Task.Above (b : Nat) (t : Task) (n : Int) : Prop :=
  (b * 4096 : Nat) ≤ t.p.sz + n ∧ t.RecordedCall n

theorem Covered.recorded_step {t' : Task} {e : Event} (h : Covered kend t ∧ Matches b t.p)
    (hb : 0 < b) (hQ : t.Meets (Task.Above b) e) (hstep : Task.Step kend t e t') :
    Covered kend t' ∧ Matches b t'.p := by
  obtain ⟨hcov, hM⟩ := h
  cases hstep with
  | others hS => exact ⟨⟨hS, hcov.layout⟩, hM⟩
  | growproc _ _ hok =>
      obtain ⟨hB, hcall⟩ : Task.Above b _ _ := hQ
      have hC := hcov.growproc_cases (fun hn => (hM.stop hb hn hB).1) hok
      exact ⟨hC.covered hcov (fun hn i S m hs => .inl (hcall.memory hn i S m hs)),
        hC.matches hM hb hB hcall⟩

/-- **Sequences of calls that meet `RecordedCall`** keep record and page table together, and
the next such call stays inside the record. -/
theorem record_matches_when (h : Exec kend t₀)
    (heach : Each (Task.Step kend) (Task.Meets (Task.Above (pages t₀.p.sz))) t₀ es)
    (hrun : Run (Task.Step kend) t₀ es t) :
    Recorded (pages t₀.p.sz) t.p ∧ ∀ n, t.Above (pages t₀.p.sz) n →
      growproc kend t.k t.p n ≠ .error "record: out of bounds" := by
  have hb : 0 < pages t₀.p.sz := by
    have := page_lt h.pos
    omega
  have hstart : Matches (pages t₀.p.sz) t₀.p := by
    have hzero : t₀.p.next.toNat = 0 := by
      rw [h.next]
      rfl
    refine ⟨by rw [h.next], by rw [h.next]; decide, by rw [hzero]; rfl, ?_⟩
    rw [hzero]
    exact fun l hl => absurd hl (Nat.not_lt_zero l)
  have hstep : ∀ s e u, Covered kend s ∧ Matches (pages t₀.p.sz) s.p →
      s.Meets (Task.Above (pages t₀.p.sz)) e → Task.Step kend s e u →
      Covered kend u ∧ Matches (pages t₀.p.sz) u.p :=
    fun _ _ _ hI hQ hs => Covered.recorded_step hI hb hQ hs
  obtain ⟨hcov, hM⟩ := (always_of_each hstep ⟨h.toCovered, hstart⟩ heach).last hrun
  refine ⟨hM.recorded hcov.space.toTree, fun n hcall herr => ?_⟩
  rcases lt_trichotomy n 0 with hn | hn | hn
  · obtain ⟨k', p', hok, -⟩ := Covered.shrink_called hcov hn hM.room (hM.stop hb hn hcall.1).1
    rw [hok] at herr
    cases herr
  · unfold growproc at herr
    rw [if_neg (by omega), if_neg (by omega)] at herr
    cases herr
  · rcases Covered.grow hcov hn with ⟨-, hok⟩ | ⟨-, -, _, _, hok, -⟩ | ⟨hC, hE, hfits, -⟩ |
      ⟨-, -, -, _, _, hok, -⟩
    · rw [hok, Except.error.injEq] at herr
      exact absurd herr (by decide)
    · rw [hok] at herr
      cases herr
    · exact hfits (hcall.2.room hn hC hE)
    · rw [hok] at herr
      cases herr

/-- A superpage has one entry, and the entry goes with it. -/
theorem record_matches_when_tinyImage : ∃ s t,
    Run (Task.Step 0x80200000) tinyImageTask [.growproc 4190208] s ∧
      superAt s.p.pagetable 1 = true ∧ Recorded 1 s.p ∧
      Run (Task.Step 0x80200000) tinyImageTask [.growproc 4190208, .growproc (-2097152)] t ∧
      Recorded 1 t.p := by
  obtain ⟨s, hgrow, hrun, hcov, hsz, hnext, hlast, hsuper, hon⟩ := tinyImage_superpage
  obtain ⟨k₂, pt₂, hok₂, -, -⟩ := hcov.shrink_chunk hlast hnext (by decide) hsz hon
  have hfirst : tinyImageTask.Above (pages tinyImageTask.p.sz) 4190208 :=
    ⟨by decide, fun _ _ _ => tinyImage_fits 4194304 (by decide) (by decide),
      fun h => absurd h (by decide), fun h => absurd h (by decide),
      fun h => absurd h (by decide), fun h => absurd h (by decide)⟩
  have hnone : ∀ i S m, s.p.stop (-2097152) ≠ .split i S m := by
    intro i S m hstop
    rw [Proc.stop_chunk hlast hnext hsz] at hstop
    cases hstop
  have hsecond : s.Above (pages tinyImageTask.p.sz) (-2097152) := by
    refine ⟨?_, fun h => absurd h (by decide), fun _ i S hstop => ?_,
      fun _ i S m hstop => absurd hstop (hnone i S m),
      fun _ i S m hstop => absurd hstop (hnone i S m),
      fun _ i S m hstop => absurd hstop (hnone i S m)⟩
    · have hpage : pages tinyImageTask.p.sz = 1 := by decide
      rw [hpage]
      omega
    · rw [Proc.stop_chunk hlast hnext hsz] at hstop
      cases hstop
  have honce : Each (Task.Step 0x80200000)
      (Task.Meets (Task.Above (pages tinyImageTask.p.sz))) tinyImageTask
      [.growproc 4190208] := ⟨hfirst, fun _ _ => trivial⟩
  have heach : Each (Task.Step 0x80200000)
      (Task.Meets (Task.Above (pages tinyImageTask.p.sz))) tinyImageTask
      [.growproc 4190208, .growproc (-2097152)] := by
    refine ⟨hfirst, fun u hu => ⟨?_, fun _ _ => trivial⟩⟩
    obtain rfl := hu.det hgrow
    exact hsecond
  have hstep : Task.Step 0x80200000 s (.growproc (-2097152))
      ⟨k₂, { s.p with pagetable := pt₂, sz := 2097152, next := (511 : Nat) }⟩ :=
    .growproc ⟨by decide, by decide⟩ (by rw [hsz]; omega) hok₂
  have hall := hrun.append (.cons hstep (.nil _))
  exact ⟨s, _, hrun, hsuper,
    (record_matches_when tinyImage_exec honce hrun).1, hall,
    (record_matches_when tinyImage_exec heach hall).1⟩

/-- **One entry too few**: a page is added and one byte is asked back. -/
theorem record_loses_entry : Exec 0x80200000 tinyImageTask ∧ ∃ t,
    Run (Task.Step 0x80200000) tinyImageTask [.growproc 4096, .growproc (-1)] t ∧
      PGROUNDUP tinyImageTask.p.sz ≤ 8191 ∧ t.p.next = -1 ∧
      ¬ Recorded (pages tinyImageTask.p.sz) t.p := by
  obtain ⟨t, hrun, hcov, hsz, hnext, hrec, hon⟩ := tinyImage_second
  obtain ⟨k', pt', hok, -, -⟩ := hcov.shrink_last (n := -1) (by decide) (by decide) hnext
    (by decide) hrec hsz hon
  have hstep : Task.Step 0x80200000 t (.growproc (-1))
      ⟨k', { t.p with pagetable := pt', sz := 4096, next := -1 }⟩ :=
    .growproc ⟨by decide, by decide⟩ (by rw [hsz]; decide) hok
  refine ⟨tinyImage_exec, _, hrun.append (.cons hstep (.nil _)), by decide, rfl, fun hR => ?_⟩
  have hneg : (0 : Int) ≤ -1 := hR.range.1
  exact absurd hneg (by decide)

end Xv6Labs.Super
