import Xv6Labs.Cow.Entries
import Mathlib.Order.Interval.Finset.Nat

/-!
# What `copyout` may write

The kernel writes through the physical address, so no hardware check stands in
its way. `copyout` asks for V and U only and lets `cowhandle` make a marked page
writable, so a page its owner created without `PTE_W` is written like any other.
`Refused` lists the pages it does turn away, from the state before the call;
`copyout` writes the range up to the first of them (`Inv.copyout_written`), and
it spares the protected pages exactly when each of them lies behind one
(`copyout_spares_protected_iff`).
-/

namespace Xv6Labs.Cow

open Xv6Labs.Lib

variable {n kend : Nat} {km km' : Kmem} {pts : Tables n} {kern : List Nat}
  {p q : Fin n} {pt pt' : PageTable} {s t : Sys n}

/-! ## Frames of one process are distinct -/

def AllDistinct (s : Sys n) : Prop :=
  ∀ q qr, s.proc q = some qr → Distinct qr.pagetable

theorem AllDistinct.step {l : Op n × Effect n} (h : SysInv kend s)
    (hd : AllDistinct s) (hs : Step kend s l t) : AllDistinct t := by
  intro q qr' hq
  rcases (Sys.exec_moves h hs q).entries qr' hq with
    ⟨qr, hqr, hev⟩ | ⟨-, hbare | ⟨p, pr, -, hpr, hmarked⟩⟩
  · exact hev.distinct (hd q qr hqr)
  · intro k l hk
    rw [hbare _ rfl k] at hk
    cases hk
  · -- the child's frames are the parent's, page by page
    intro k l hk hl heq
    have hmk := hmarked k hk
    have hml := hmarked l hl
    rw [hmk.v] at hk
    rw [hml.v] at hl
    rw [hmk.frame, hml.frame] at heq
    exact hd p pr hpr k l hk hl heq

theorem allDistinct_of_run {mem : Mem} {ls : List (Op n × Effect n)}
    (hk : kinit kend mem = .ok km) (hr : Run (Step kend) (Sys.init n km) ls s) :
    SysInv kend s ∧ AllDistinct s := by
  refine Run.invariant (I := fun s => SysInv kend s ∧ AllDistinct s)
    (fun s l t hI hs => ⟨(Sys.exec_refines hI.1 hs).1, hI.2.step hI.1 hs⟩) hr
    ⟨SysInv.init hk, ?_⟩
  intro q qr hq
  cases hq

/-! ## Pages that are turned away -/

/-- Making page `i` private takes a page from the free list for good: it is marked
and its frame is shared. -/
def cowShared (km : Kmem) (pt : PageTable) (i : Nat) : Prop :=
  (pt.ent 0 i).v = true ∧ (pt.ent 0 i).cow = true ∧
    2 ≤ km.count (PTE2PA (pt.ent 0 i) / 4096)

instance (km : Kmem) (pt : PageTable) (i : Nat) : Decidable (cowShared km pt i) :=
  inferInstanceAs (Decidable (_ ∧ _ ∧ _))

/-- A `copyout` that starts in page `first` turns page `j` away: it is not mapped
for the user, or it is marked and is page 0 or finds the free list used up by the
shared pages before it. -/
def Refused (km : Kmem) (pt : PageTable) (first j : Nat) : Prop :=
  (pt.ent 0 j).v = false ∨ (pt.ent 0 j).u = false ∨
    ((pt.ent 0 j).cow = true ∧ (j = 0 ∨
      km.freelist.length ≤ ((Finset.Ico first j).filter (cowShared km pt)).card))

/-- **The free list after `cowhandle`** has lost a page exactly when the frame was
shared. -/
theorem Inv.cowhandle_room {va : Nat} (h : Inv kend km pts kern) (hp : pts p = some pt)
    (hc : Cow.cowhandle kend km pt va = .ok (km', pt', 0)) :
    km'.freelist.length + (if 2 ≤ km.count (PTE2PA (pt.ent 0 (vpn 0 va)) / 4096) then 1
      else 0) = km.freelist.length := by
  obtain ⟨-, ⟨hret, -⟩ | ⟨-, -, hv, -, -, r, km₁, hk, -, hf⟩⟩ := cowhandle_cases hc
  · exact absurd hret (by decide)
  obtain ⟨hr0, hmr, -⟩ := h.ledger.kalloc hk
  obtain ⟨rest, hl, rfl⟩ := kalloc_eq_some hk
  have hne : PTE2PA (pt.ent 0 (vpn 0 va)) / 4096 ≠ r / 4096 := fun hh =>
    h.ne_of_free hp hv (userRefs_of_refs hr0) ((h.managed hp hv).eq_of_div hmr hh)
  obtain ⟨-, hlist⟩ := kfree_cases hf
  simp only [refcadd, Function.update_of_ne hne] at hlist
  rw [hl, List.length_cons]
  rcases hlist with ⟨hcount, hfl, -⟩ | ⟨hcount, hfl, -⟩
  · rw [hfl, if_pos (by omega)]
  · rw [hfl, if_neg (by omega)]
    rfl

theorem Inv.cowShared_cowhandle {va i : Nat} (h : Inv kend km pts kern)
    (hp : pts p = some pt) (hd : Distinct pt)
    (hc : Cow.cowhandle kend km pt va = .ok (km', pt', 0)) (hi : i ≠ vpn 0 va) :
    cowShared km' pt' i ↔ cowShared km pt i := by
  obtain ⟨old, new, hm⟩ := h.cowhandle_moved hp hc
  have hent : pt'.ent 0 i = pt.ent 0 i := hm.entries 0 i (fun hh => hi hh.2)
  unfold cowShared
  rw [hent]
  refine and_congr_right (fun hvi => ?_)
  obtain ⟨hv, hold⟩ := Pte.frame_eq_some.mp hm.before
  have hmi := h.managed hp hvi
  have hmo : Managed kend old := by
    rw [← hold]
    exact h.managed hp hv
  have hmn := h.ledger.inside new hm.fresh.1
  have hcount : km'.count (PTE2PA (pt.ent 0 i) / 4096) =
      km.count (PTE2PA (pt.ent 0 i) / 4096) := by
    refine hm.counts _ (fun hdiv => ?_) (fun hdiv => ?_)
    · have heq := hmi.eq_of_div hmo hdiv
      rw [← hold] at heq
      exact hi (hd i _ hvi hv heq)
    · -- a frame in use is not the free one
      have heq := hmi.eq_of_div hmn hdiv
      have hfree := (h.ledger.free new hmn).mp hm.fresh.1
      exact h.ne_of_free hp hvi (userRefs_of_refs hfree) heq
  rw [hcount]

/-- **One round moves the window**: after a page that was let through, the pages
behind it are turned away as they were before. -/
theorem Inv.refused_copyoutPage {k : Nat} {o : Option Nat} (h : Inv kend km pts kern)
    (hp : pts p = some pt) (hd : Distinct pt)
    (hc : Cow.copyoutPage kend km pt (k * 4096) = .ok (km', pt', o)) :
    (o = none ↔ Refused km pt k k) ∧
      (o ≠ none → ∀ j, k < j → (Refused km' pt' (k + 1) j ↔ Refused km pt k j)) := by
  have hvpn : vpn 0 (k * 4096) = k := by
    rw [vpn_zero]
    omega
  have hcases := copyoutPage_cases hc
  rw [hvpn] at hcases
  have hself : Refused km pt k k ↔ (pt.ent 0 k).v = false ∨ (pt.ent 0 k).u = false ∨
      ((pt.ent 0 k).cow = true ∧ (k = 0 ∨ km.freelist = [])) := by
    unfold Refused
    rw [Finset.Ico_self, Finset.filter_empty, Finset.card_empty, Nat.le_zero,
      List.length_eq_zero_iff]
  rcases hcases with ⟨rfl, rfl, rfl, hwhy⟩ | ⟨-, hno, hu, hv, hcase⟩
  · refine ⟨⟨fun _ => hself.mpr ?_, fun _ => rfl⟩, fun hno => absurd rfl hno⟩
    by_cases hv : (pt'.ent 0 k).v = true
    · have hbound := (h.wf p _ hp).bound k hv
      have hlk : lookup pt' (k * 4096) = some k := by
        have hv' : (pt'.ent 0 (vpn 0 (k * 4096))).v = true := by
          rw [hvpn]
          exact hv
        rw [(h.wf p _ hp).lookup hv', hvpn]
      rw [hlk] at hwhy
      rcases hwhy with hwhy | hwhy | hwhy | hwhy | ⟨hcow, hwhy⟩
      · simp only [entries, vpn_zero, MAXVA] at *
        omega
      · cases hwhy
      · exact .inr (.inl hwhy)
      · exact .inl hwhy
      · exact .inr (.inr ⟨hcow, hwhy.imp_left (fun hz => by omega)⟩)
    · exact .inl (by simpa using hv)
  · have hlet : ¬ Refused km pt k k := by
      rw [hself, hv, hu]
      rintro (hbad | hbad | ⟨hcow, hbad⟩)
      · cases hbad
      · cases hbad
      · rcases hcase with ⟨hcow', -⟩ | ⟨-, hz, hch⟩
        · rw [hcow] at hcow'
          cases hcow'
        · rcases hbad with hz' | hnil
          · exact hz (by rw [hz', Nat.zero_mul])
          · obtain ⟨-, ⟨hret, -⟩ | ⟨-, -, -, -, -, r, km₁, hk, -⟩⟩ := cowhandle_cases hch
            · exact absurd hret (by decide)
            · obtain ⟨rest, hl, -⟩ := kalloc_eq_some hk
              rw [hnil] at hl
              cases hl
    refine ⟨⟨fun hn => absurd hn hno, fun hr => absurd hr hlet⟩, fun _ j hj => ?_⟩
    have hsplit : Finset.Ico k j = insert k (Finset.Ico (k + 1) j) := by
      ext i
      simp only [Finset.mem_insert, Finset.mem_Ico]
      omega
    rcases hcase with ⟨hcow, rfl, rfl⟩ | ⟨hcow, -, hch⟩
    · -- a private page takes nothing from the free list
      have hns : ¬ cowShared km' pt' k := fun hs => by
        have := hs.2.1
        rw [hcow] at this
        cases this
      unfold Refused
      rw [hsplit, Finset.filter_insert, if_neg hns]
    · obtain ⟨old, new, hm⟩ := h.cowhandle_moved hp hch
      rw [hvpn] at hm
      have hent : pt'.ent 0 j = pt.ent 0 j := hm.entries 0 j (fun hh => by omega)
      have hroom := h.cowhandle_room hp hch
      rw [hvpn] at hroom
      have hfilter : (Finset.Ico (k + 1) j).filter (cowShared km' pt') =
          (Finset.Ico (k + 1) j).filter (cowShared km pt) := by
        refine Finset.filter_congr (fun i hi => ?_)
        have hi' := Finset.mem_Ico.mp hi
        exact h.cowShared_cowhandle hp hd hch (by rw [hvpn]; omega)
      have hshared : cowShared km pt k ↔ 2 ≤ km.count (PTE2PA (pt.ent 0 k) / 4096) := by
        simp [cowShared, hv, hcow]
      have hcard : km'.freelist.length ≤
            ((Finset.Ico (k + 1) j).filter (cowShared km' pt')).card ↔
          km.freelist.length ≤ ((Finset.Ico k j).filter (cowShared km pt)).card := by
        rw [hfilter, hsplit, Finset.filter_insert]
        by_cases hs : cowShared km pt k
        · rw [if_pos (hshared.mp hs)] at hroom
          rw [if_pos hs, Finset.card_insert_of_notMem (by simp)]
          omega
        · rw [if_neg (fun hh => hs (hshared.mpr hh))] at hroom
          rw [if_neg hs]
          omega
      unfold Refused
      rw [hent, hcard]

/-! ## How far `copyout` gets -/

/-- **`copyout` writes up to the first page it turns away**: the byte at `dstva + d`
is written if and only if no page from the first one to its own is refused. -/
theorem Inv.copyout_written (N : Nat) : ∀ {km km' : Kmem} {pts : Tables n}
    {pt pt' : PageTable} {dstva : Nat} {src left : List UInt8} {ret : Int},
    src.length ≤ N → Inv kend km pts kern → pts p = some pt → Distinct pt →
    Cow.copyout kend km pt dstva src = .ok (km', pt', ret, left) →
    ∀ d, d < src.length → (d < src.length - left.length ↔
      ∀ j, dstva / 4096 ≤ j → j ≤ (dstva + d) / 4096 →
        ¬ Refused km pt (dstva / 4096) j) := by
  induction N with
  | zero =>
      intro km km' pts pt pt' dstva src left ret hN _ _ _ _ d hd
      omega
  | succ N ih =>
      intro km km' pts pt pt' dstva src left ret hN h hp hdist hc d hd
      rw [Cow.copyout, if_neg (by omega)] at hc
      simp only at hc
      have hva0 : PGROUNDDOWN dstva = dstva / 4096 * 4096 := rfl
      obtain ⟨⟨km₁, pt₁, o⟩, hpage⟩ := h.copyoutPage_total hp (PGROUNDDOWN dstva)
      obtain ⟨hnone, hnext⟩ := h.refused_copyoutPage hp hdist (hva0 ▸ hpage)
      rw [hpage] at hc
      cases o with
      | none =>
          simp only [Except.ok.injEq, Prod.mk.injEq] at hc
          obtain ⟨-, -, -, rfl⟩ := hc
          refine ⟨fun hlt => by omega, fun hall => ?_⟩
          exact absurd (hnone.mp rfl) (hall _ (Nat.le_refl _)
            (Nat.div_le_div_right (Nat.le_add_right dstva d)))
      | some pa0 =>
          simp only at hc
          have hfirst : ¬ Refused km pt (dstva / 4096) (dstva / 4096) :=
            fun hr => by cases hnone.mpr hr
          obtain ⟨hq, -⟩ := h.copyoutPage hp hpage
          have hdist₁ : Distinct pt₁ := by
            obtain ⟨hno, -⟩ | ⟨-, -, -, -, ⟨-, -, rfl⟩ | ⟨-, -, hch⟩⟩ :=
              copyoutPage_cases hpage
            · cases hno
            · exact hdist
            · exact (h.cowhandle_evolves (K := fun _ => True) hp hch).distinct hdist
          -- this round copies `m` bytes, up to the end of the page or of `src`
          have hoff : dstva - PGROUNDDOWN dstva = dstva % 4096 := by
            rw [hva0]
            omega
          rw [hoff] at hc
          generalize hm : min (PGSIZE - dstva % 4096) src.length = m at hc
          simp only [PGSIZE] at hm
          have hlt : dstva % 4096 < 4096 := Nat.mod_lt _ (by omega)
          obtain ⟨m', hleft, -⟩ := (hq.inv.mem _).copyout _ (Nat.le_refl _)
            (Function.update_self ..) hc
          have hlen : left.length ≤ src.length - m := by
            rw [hleft, List.length_drop, List.length_drop]
            omega
          by_cases hdm : d < m
          · -- the byte is in the first page
            refine ⟨fun _ j h₁ h₂ => ?_, fun _ => by omega⟩
            obtain rfl : j = dstva / 4096 := by omega
            exact hfirst
          · have hfull : m = 4096 - dstva % 4096 := by omega
            have hdrop : d - m < (src.drop m).length := by
              rw [List.length_drop]
              omega
            have hrest := ih (by rw [List.length_drop]; omega) (hq.inv.mem _)
              (Function.update_self ..) hdist₁ hc (d - m) hdrop
            have hk : (PGROUNDDOWN dstva + PGSIZE) / 4096 = dstva / 4096 + 1 := by
              simp only [hva0, PGSIZE]
              omega
            have hd' : (PGROUNDDOWN dstva + PGSIZE + (d - m)) / 4096 =
                (dstva + d) / 4096 := by
              simp only [hva0, PGSIZE]
              omega
            rw [hk, hd', List.length_drop] at hrest
            have hgoal : d < src.length - left.length ↔
                d - m < src.length - m - left.length := by omega
            rw [hgoal, hrest]
            constructor
            · intro hall j h₁ h₂
              by_cases hj : j = dstva / 4096
              · rw [hj]
                exact hfirst
              · exact fun hr => hall j (by omega) h₂
                  ((hnext (by simp) j (by omega)).mpr hr)
            · intro hall j h₁ h₂ hr
              exact hall j (by omega) h₂ ((hnext (by simp) j (by omega)).mp hr)

/-! ## Protected pages -/

/-- Which pages were mapped with `PTE_W` when they were created, by the process or
the ancestor it has them from. -/
abbrev Grants (n : Nat) := Fin n → Nat → Bool

/-- A new page brings its permission; a child has its parent's. -/
def Grants.apply (g : Grants n) (l : Op n × Effect n) : Grants n :=
  match l with
  | (.grow _ w _, .grow p va) =>
      Function.update g p (Function.update (g p) (va / 4096) w)
  | (_, .fork p c) => Function.update g c (g p)
  | _ => g

def grants (ls : List (Op n × Effect n)) : Grants n :=
  ls.foldl Grants.apply (fun _ _ => false)

def ReadOnly (g : Grants n) (s : Sys n) (q : Fin n) (k : Nat) : Prop :=
  g q k = false ∧ ∃ qr, s.proc q = some qr ∧ (qr.pagetable.ent 0 k).v = true

/-- This call of `copyout` returns, changes no byte of a read-only page of any
process, and returns -1 if the range touches one. -/
def Spares (kend : Nat) (g : Grants n) (s : Sys n) (p : Fin n) (pr : Proc) (dstva : Nat)
    (src : List UInt8) : Prop :=
  ∃ km' pt' ret left,
    copyout kend s.km pr.pagetable dstva src = .ok (km', pt', ret, left) ∧
    (∀ q y, ReadOnly g s q (y / 4096) →
      read km'.mem (Function.update s.tables p (some pt') q) y = s.view q y) ∧
    ((∃ y, dstva ≤ y ∧ y < dstva + src.length ∧ ReadOnly g s p (y / 4096)) → ret = -1)

/-- **When `copyout` spares the read-only pages.** In every reachable state, for
every process, destination and length: `copyout` writes no read-only page and
fails on a range that touches one, whatever bytes it is given, if and only if
every read-only page of the range has a page at or before it, in the range, that
is refused. -/
theorem copyout_spares_protected_iff {mem : Mem} {ls : List (Op n × Effect n)}
    {pr : Proc} (hk : kinit kend mem = .ok km)
    (hr : Run (Step kend) (Sys.init n km) ls s) (hp : s.proc p = some pr)
    (dstva len : Nat) :
    (∀ src, src.length = len → Spares kend (grants ls) s p pr dstva src) ↔
      ∀ y, dstva ≤ y → y < dstva + len → ReadOnly (grants ls) s p (y / 4096) →
        ∃ j, dstva / 4096 ≤ j ∧ j ≤ y / 4096 ∧
          Refused s.km pr.pagetable (dstva / 4096) j := by
  obtain ⟨h, hdist⟩ := allDistinct_of_run hk hr
  have hpT := Sys.tables_some hp
  have hcall : ∀ src, ∃ km' pt' ret left m,
      copyout kend s.km pr.pagetable dstva src = .ok (km', pt', ret, left) ∧
      CopiedOut kend s.kern p s.km s.tables dstva src km'
        (Function.update s.tables p (some pt')) ret m ∧
      ∀ d, d < src.length → (d < m ↔ ∀ j, dstva / 4096 ≤ j → j ≤ (dstva + d) / 4096 →
        ¬ Refused s.km pr.pagetable (dstva / 4096) j) := by
    intro src
    obtain ⟨⟨km', pt', ret, left⟩, hc⟩ :=
      h.inv.copyout_total src.length (Nat.le_refl _) hpT
    obtain ⟨m, hleft, hm⟩ := h.inv.copyout src.length (Nat.le_refl _) hpT hc
    refine ⟨km', pt', ret, left, m, hc, hm, fun d hd => ?_⟩
    have hwritten := h.inv.copyout_written src.length (Nat.le_refl _) hpT
      (hdist p pr hp) hc d hd
    have hlen : src.length - left.length = m := by
      have := hm.le
      rw [hleft, List.length_drop]
      omega
    rwa [hlen] at hwritten
  constructor
  · -- bytes that differ from what is there show that the page was written
    intro hall y h₁ h₂ hro
    by_contra hno
    obtain ⟨hgrant, pr₀, hpr₀, hv⟩ := hro
    rw [hp] at hpr₀
    obtain rfl := Option.some.inj hpr₀
    have hview : ∃ b, s.view p y = some b := by
      simp only [Sys.view]
      rw [hpT, read_some (h.inv.wf p _ hpT), vpn_zero, if_pos hv]
      exact ⟨_, rfl⟩
    obtain ⟨b, hb⟩ := hview
    obtain ⟨km', pt', ret, left, m, hc, hm, hwritten⟩ := hcall (List.replicate len (b + 1))
    obtain ⟨km₁, pt₁, ret₁, left₁, hc₁, hspare, -⟩ :=
      hall (List.replicate len (b + 1)) (by simp)
    rw [hc] at hc₁
    simp only [Except.ok.injEq, Prod.mk.injEq] at hc₁
    obtain ⟨rfl, rfl, -, -⟩ := hc₁
    have hyd : dstva + (y - dstva) = y := by omega
    have hlt : y - dstva < m := by
      refine (hwritten (y - dstva) (by simp; omega)).mpr (fun j hj₁ hj₂ hrf => ?_)
      rw [hyd] at hj₂
      exact hno ⟨j, hj₁, hj₂, hrf⟩
    have hread := hspare p y ⟨hgrant, pr, hp, hv⟩
    rw [hm.reads p y, if_pos ⟨rfl, h₁, by omega⟩, hb] at hread
    have hget : (List.replicate len (b + 1)).getD (y - dstva) 0 = b + 1 := by
      rw [List.getD_eq_getElem?_getD, List.getElem?_replicate, if_pos (by omega)]
      rfl
    rw [hget, Option.some.injEq, UInt8.add_eq_left] at hread
    exact absurd hread (by decide)
  · intro hcond src hsrc
    obtain ⟨km', pt', ret, left, m, hc, hm, hwritten⟩ := hcall src
    -- a read-only page of the range is never reached
    have hspared : ∀ y, dstva ≤ y → y < dstva + src.length →
        ReadOnly (grants ls) s p (y / 4096) → ¬ y - dstva < m := by
      intro y h₁ h₂ hro hlt
      obtain ⟨j, hj₁, hj₂, hrf⟩ := hcond y h₁ (by omega) hro
      have hyd : dstva + (y - dstva) = y := by omega
      refine (hwritten (y - dstva) (by omega)).mp hlt j hj₁ ?_ hrf
      rw [hyd]
      exact hj₂
    have hle := hm.le
    refine ⟨km', pt', ret, left, hc, fun q y hro => ?_, ?_⟩
    · rw [hm.reads q y]
      refine if_neg ?_
      rintro ⟨rfl, h₁, h₂⟩
      exact hspared y h₁ (by omega) hro (by omega)
    · rintro ⟨y, h₁, h₂, hro⟩
      have hnot := hspared y h₁ h₂ hro
      rcases hm.ret with ⟨-, hall⟩ | ⟨hret, -⟩
      · exact absurd (by omega) hnot
      · exact hret

/-- A text page 0 shared with a child: `copyout` refuses marked page 0. -/
theorem copyout_spares_marked_page_zero :
    ∃ (km : Kmem) (s : Sys 2) (pr : Proc),
      kinit (PHYSTOP - 36864) (fun _ => 0) = .ok km ∧
      Run (Step (PHYSTOP - 36864)) (Sys.init 2 km)
        (textRun ++ [(.fork 0 1, .fork 0 1)]) s ∧
      s.proc 0 = some pr ∧
      Spares (PHYSTOP - 36864) (grants (textRun ++ [(.fork 0 1, .fork 0 1)])) s 0 pr 1
        [7] := by
  obtain ⟨km, s, pr, hk, hr, hp, hcow⟩ : ∃ (km : Kmem) (s : Sys 2) (pr : Proc),
      kinit (PHYSTOP - 36864) (fun _ => 0) = .ok km ∧
      Run (Step (PHYSTOP - 36864)) (Sys.init 2 km)
        (textRun ++ [(.fork 0 1, .fork 0 1)]) s ∧
      s.proc 0 = some pr ∧ (pr.pagetable.ent 0 0).cow = true :=
    ⟨_, _, _, rfl, .cons rfl (.cons rfl (.cons rfl (.nil _))), rfl, rfl⟩
  refine ⟨km, s, pr, hk, hr, hp, ?_⟩
  refine (copyout_spares_protected_iff hk hr hp 1 1).mpr (fun y _ _ _ => ?_) [7] rfl
  exact ⟨0, by decide, Nat.zero_le _, .inr (.inr ⟨hcow, .inl rfl⟩)⟩

/-- A text page, R and X only, never forked: `copyout` writes it and returns 0. -/
theorem copyout_writes_text_page :
    ∃ (km km' : Kmem) (s : Sys 2) (pr : Proc) (pt' : PageTable) (left : List UInt8),
      kinit (PHYSTOP - 36864) (fun _ => 0) = .ok km ∧
      Run (Step (PHYSTOP - 36864)) (Sys.init 2 km) textRun s ∧
      s.proc 0 = some pr ∧ ReadOnly (grants textRun) s 0 (1 / 4096) ∧
      copyout (PHYSTOP - 36864) s.km pr.pagetable 1 [7] = .ok (km', pt', 0, left) ∧
      s.view 0 1 = some 0 ∧
      read km'.mem (Function.update s.tables 0 (some pt') 0) 1 = some 7 ∧
      ¬ Spares (PHYSTOP - 36864) (grants textRun) s 0 pr 1 [7] := by
  have hreach : ∃ (km : Kmem) (s : Sys 2) (pr : Proc),
        kinit (PHYSTOP - 36864) (fun _ => 0) = .ok km ∧
        Run (Step (PHYSTOP - 36864)) (Sys.init 2 km) textRun s ∧
        s.proc 0 = some pr ∧ ReadOnly (grants textRun) s 0 (1 / 4096) ∧
        (pr.pagetable.ent 0 0).v = true ∧ (pr.pagetable.ent 0 0).u = true ∧
        (pr.pagetable.ent 0 0).cow = false :=
    ⟨_, _, _, rfl, .cons rfl (.cons rfl (.nil _)), rfl, ⟨rfl, _, rfl, rfl⟩, rfl, rfl, rfl⟩
  obtain ⟨km, s, pr, hk, hr, hp, hro, hv, hu, hcow⟩ := hreach
  obtain ⟨h, hview⟩ := Sys.run_refines hk hr
  have hpT := Sys.tables_some hp
  obtain ⟨pa0, hpage⟩ : ∃ pa0, copyoutPage (PHYSTOP - 36864) s.km pr.pagetable
      (PGROUNDDOWN 1) = .ok (s.km, pr.pagetable, some pa0) := by
    have hz : PGROUNDDOWN 1 = 0 := rfl
    have hlk : lookup pr.pagetable 0 = some (vpn 0 0) := (h.inv.wf 0 _ hpT).lookup hv
    obtain ⟨⟨km₁, pt₁, o⟩, hpage⟩ := h.inv.copyoutPage_total hpT (PGROUNDDOWN 1)
    have hcases := copyoutPage_cases hpage
    rw [hz, hlk, show vpn 0 0 = 0 from rfl, hv, hu, hcow] at hcases
    rcases hcases with ⟨-, -, -, hwhy⟩ | ⟨-, hno, -, -, ⟨-, rfl, rfl⟩ | ⟨hbad, -⟩⟩
    · simp [MAXVA] at hwhy
    · obtain ⟨pa0, rfl⟩ := Option.ne_none_iff_exists'.mp hno
      exact ⟨pa0, hpage⟩
    · cases hbad
  obtain ⟨km', hc⟩ : ∃ km', copyout (PHYSTOP - 36864) s.km pr.pagetable 1 [7] =
      .ok (km', pr.pagetable, 0, []) := by
    have hdrop : List.drop (min (PGSIZE - (1 - PGROUNDDOWN 1)) [(7 : UInt8)].length)
        [(7 : UInt8)] = [] := by
      simp [PGSIZE, PGROUNDDOWN]
    rw [copyout, if_neg (by decide)]
    simp only [hpage]
    rw [hdrop, copyout, if_pos (by simp)]
    exact ⟨_, rfl⟩
  have hbefore : s.view 0 1 = some 0 := by
    rw [hview]
    rfl
  obtain ⟨m, -, hm⟩ := h.inv.copyout 1 (Nat.le_refl _) hpT hc
  have hafter := hm.reads 0 1
  rcases hm.ret with ⟨-, rfl⟩ | ⟨hret, -⟩
  swap
  · exact absurd hret (by decide)
  rw [if_pos (by decide)] at hafter
  refine ⟨km, km', s, pr, _, _, hk, hr, hp, hro, hc, hbefore, hafter, ?_⟩
  rintro ⟨km₁, pt₁, ret₁, left₁, hc₁, -, hret⟩
  rw [hc] at hc₁
  simp only [Except.ok.injEq, Prod.mk.injEq] at hc₁
  have := hret ⟨1, Nat.le_refl _, by decide, hro⟩
  rw [← hc₁.2.2.1] at this
  exact absurd this (by decide)

end Xv6Labs.Cow
