import Xv6Labs.Super.Moves
import Xv6Labs.Super.Proc

/-!
# A page table goes

`proc_freepagetable` unmaps the pages of the process and gives the tables back. If it
ends without a panic, every page the table counted is on a free list again, and no page
of anyone else has changed. The panic of `freewalk` at a leaf is what makes this
unconditional: a page that `uvmunmap` has not reached would stop it.
-/

namespace Xv6Labs.Super

open Xv6Labs.Lib

variable {kend : Nat} {k k' k₁ : Kernel} {pt pt' : PageTable} {hand superhand : List Nat}

/-! ## `freewalk` -/

/-- Pages of the tables are back on the list, `count x` times the page `x`. -/
structure Freeing (pt : PageTable) (k k' : Kernel) (count : Nat → Nat) : Prop where
  small : ∀ x, k'.freelist.count x = k.freelist.count x + count x
  super : k'.superfreelist = k.superfreelist
  mem : ∀ x, (∀ f, 0 < tableCount pt f → ¬ Block.has (f, PGSIZE) x) → k'.mem x = k.mem x

variable {c c' : Nat → Nat}

theorem Freeing.refl (pt : PageTable) (k : Kernel) : Freeing pt k k (fun _ => 0) :=
  ⟨fun _ => rfl, rfl, fun _ _ => rfl⟩

theorem Freeing.trans (h : Freeing pt k k₁ c) (h' : Freeing pt k₁ k' c') :
    Freeing pt k k' (fun x => c x + c' x) := by
  refine ⟨fun x => ?_, h'.super.trans h.super, fun x hx => ?_⟩
  · rw [h'.small, h.small]
    omega
  · rw [h'.mem x hx, h.mem x hx]

theorem Freeing.congr (h : Freeing pt k k' c) (heq : ∀ x, c' x = c x) :
    Freeing pt k k' c' :=
  ⟨fun x => by rw [h.small, heq], h.super, h.mem⟩

theorem freeing_page {f : Nat} (hf : 0 < tableCount pt f) (hok : kfree kend k f = .ok k') :
    Freeing pt k k' (fun x => if f = x then 1 else 0) := by
  obtain rfl := kfree_eq hok
  refine ⟨fun x => ?_, rfl, fun x hx => Mem.fill_of_notMem (hx f hf)⟩
  rw [List.count_cons]
  simp only [beq_iff_eq]

theorem freewalk_zero {path page : Nat} (hpage : 0 < tableCount pt page)
    (hok : freewalk kend pt 0 path page k = .ok k') :
    (∀ q, q / 512 = path → (pt.ent 0 q).v = false) ∧
      Freeing pt k k' (fun x => if page = x then 1 else 0) := by
  unfold freewalk at hok
  split at hok
  · cases hok
  rename_i k₁ hloop
  unfold forEntries at hloop
  obtain ⟨rfl, hnone⟩ := foldlM_range_ok
    (P := fun n k₁ => k₁ = k ∧ ∀ i < n, (pt.ent 0 (path * 512 + i)).v = false) 512
    (fun i s t _ hP hstep => by
      obtain ⟨rfl, hnone⟩ := hP
      split at hstep
      · cases hstep
      rename_i hv
      obtain rfl := Except.ok.inj hstep
      refine ⟨rfl, fun j hj => ?_⟩
      by_cases hji : j = i
      · rw [hji]
        simpa using hv
      · exact hnone j (by omega)) ⟨rfl, fun i hi => absurd hi (Nat.not_lt_zero i)⟩ hloop
  refine ⟨fun q hq => ?_, freeing_page hpage hok⟩
  have h := hnone (q % 512) (Nat.mod_lt _ (by decide))
  rwa [show path * 512 + q % 512 = q by omega] at h

/-- Below slot `j` nothing is mapped. -/
def Empty (pt : PageTable) (j : Nat) : Prop :=
  superAt pt j = false ∧ ∀ q, q / 512 = j → (pt.ent 0 q).v = false

theorem freewalk_one (h : Tree pt) {path page : Nat} (hpath : path < 512)
    (hpage : 0 < tableCount pt page) (hok : freewalk kend pt 1 path page k = .ok k') :
    (∀ j, j / 512 = path → Empty pt j) ∧
      Freeing pt k k' (fun x => hits 512 (fun i => tablePage pt (path * 512 + i)) x +
        if page = x then 1 else 0) := by
  unfold freewalk at hok
  split at hok
  · cases hok
  rename_i k₁ hloop
  unfold forEntries at hloop
  obtain ⟨hF, hempty⟩ := foldlM_range_ok
    (P := fun n k₁ => Freeing pt k k₁ (hits n (fun i => tablePage pt (path * 512 + i))) ∧
      ∀ i < n, Empty pt (path * 512 + i)) 512
    (fun i s t hi hP hstep => by
      obtain ⟨hF, hempty⟩ := hP
      simp only at hstep
      have hnext : Empty pt (path * 512 + i) → ∀ l < i + 1, Empty pt (path * 512 + l) := by
        intro he l hl
        by_cases hli : l = i
        · rw [hli]
          exact he
        · exact hempty l (by omega)
      by_cases hv : (pt.ent 1 (path * 512 + i)).v = true
      · rw [hv] at hstep
        by_cases hleaf : (pt.ent 1 (path * 512 + i)).leaf = true
        · simp [hleaf] at hstep
        -- a table: it is freed in turn
        have hs : (pt.ent 1 (path * 512 + i)).s = false := by
          rw [(h.mid _ hv).2]
          simpa using hleaf
        have htab : tableAt pt (path * 512 + i) = true := tableAt_iff.mpr ⟨hv, hs⟩
        have hpt : tablePage pt (path * 512 + i) =
            some (PTE2PA (pt.ent 1 (path * 512 + i))) := if_pos htab
        have hcount : 0 < tableCount pt (PTE2PA (pt.ent 1 (path * 512 + i))) := by
          have := hits_pos_iff.mpr ⟨path * 512 + i, show _ < 262144 by omega, hpt⟩
          unfold tableCount
          omega
        have hbelow : freewalk kend pt 0 (path * 512 + i)
            (PTE2PA (pt.ent 1 (path * 512 + i))) s = .ok t := by
          simpa [hleaf] using hstep
        obtain ⟨hnone, hF'⟩ := freewalk_zero hcount hbelow
        refine ⟨(hF.trans hF').congr (fun x => ?_), hnext ⟨not_super_of_table htab, hnone⟩⟩
        rw [hits_succ, hpt]
        simp only [Option.some.injEq]
      · have hv : (pt.ent 1 (path * 512 + i)).v = false := by simpa using hv
        rw [hv] at hstep
        simp only [Bool.false_and, Bool.false_eq_true, if_false] at hstep
        obtain rfl := Except.ok.inj hstep
        have hnt := not_table_of_invalid hv
        refine ⟨hF.congr (fun x => ?_), hnext ⟨not_super_of_invalid hv,
          fun q hq => h.bot_none hnt hq⟩⟩
        rw [hits_succ, tablePage_none hnt]
        simp)
    ⟨(Freeing.refl pt k).congr (fun x => hits_zero _ x),
      fun i hi => absurd hi (Nat.not_lt_zero i)⟩ hloop
  refine ⟨fun j hj => ?_, hF.trans (freeing_page hpage hok)⟩
  have he := hempty (j % 512) (Nat.mod_lt _ (by decide))
  rwa [show path * 512 + j % 512 = j by omega] at he

/-- **`freewalk`** of the whole table gives back exactly its tables, and only when nothing
is mapped any more. -/
theorem freewalk_root (h : Tree pt)
    (hok : freewalk kend pt 2 0 (pt.tables.getLastD 0) k = .ok k') :
    (∀ j < 262144, Empty pt j) ∧ Freeing pt k k' (tableCount pt) := by
  unfold freewalk at hok
  split at hok
  · cases hok
  rename_i k₁ hloop
  unfold forEntries at hloop
  obtain ⟨hF, hempty⟩ := foldlM_range_ok
    (P := fun n k₁ => Freeing pt k k₁ (fun x => hits n (fun i => (pt.ent 2 i).frame) x +
        hits (n * 512) (tablePage pt) x) ∧ ∀ j < n * 512, Empty pt j) 512
    (fun i s t hi hP hstep => by
      obtain ⟨hF, hempty⟩ := hP
      simp only [Nat.zero_mul, Nat.zero_add] at hstep
      have hnext : (∀ j, j / 512 = i → Empty pt j) → ∀ j < (i + 1) * 512, Empty pt j := by
        intro he j hj
        rw [Nat.add_mul, Nat.one_mul] at hj
        by_cases hji : j / 512 = i
        · exact he j hji
        · exact hempty j (lt_slot hj hji)
      have hmid : ∀ x, hits ((i + 1) * 512) (tablePage pt) x =
          hits (i * 512) (tablePage pt) x +
            hits 512 (fun l => tablePage pt (i * 512 + l)) x := fun x => by
        rw [Nat.add_mul, Nat.one_mul, hits_add]
      by_cases hv : (pt.ent 2 i).v = true
      · have hleaf := (h.top i hv).2
        have hframe : (pt.ent 2 i).frame = some (PTE2PA (pt.ent 2 i)) := Pte.frame_of_v hv
        have hcount : 0 < tableCount pt (PTE2PA (pt.ent 2 i)) := by
          have hpos : 0 < hits 512 (fun i => (pt.ent 2 i).frame) (PTE2PA (pt.ent 2 i)) :=
            hits_pos_iff.mpr ⟨i, hi, hframe⟩
          unfold tableCount
          omega
        rw [hv, hleaf] at hstep
        obtain ⟨he, hF'⟩ := freewalk_one h hi hcount hstep
        refine ⟨(hF.trans hF').congr (fun x => ?_), hnext he⟩
        rw [hits_succ, hmid, hframe]
        simp only [Option.some.injEq]
        omega
      · have hv : (pt.ent 2 i).v = false := by simpa using hv
        rw [hv] at hstep
        simp only [Bool.false_and, Bool.false_eq_true, if_false] at hstep
        obtain rfl := Except.ok.inj hstep
        refine ⟨hF.congr (fun x => ?_), hnext (fun j hj => ?_)⟩
        · have hnone : hits 512 (fun l => tablePage pt (i * 512 + l)) x = 0 :=
            hits_none (fun l hl => tablePage_none (not_table_of_invalid
              (h.mid_none hv (by omega)))) x
          rw [hits_succ, hmid, hnone, frame_none hv]
          simp
        · have hinv := h.mid_none hv hj
          exact ⟨not_super_of_invalid hinv,
            fun q hq => h.bot_none (not_table_of_invalid hinv) hq⟩)
    ⟨(Freeing.refl pt k).congr (fun x => by simp),
      fun j hj => absurd hj (by omega)⟩ hloop
  have hroot : 0 < tableCount pt (pt.tables.getLastD 0) := by
    unfold tableCount
    rw [if_pos rfl]
    omega
  refine ⟨hempty, (hF.trans (freeing_page hroot hok)).congr (fun x => ?_)⟩
  have hall : 512 * 512 = 262144 := rfl
  unfold tableCount
  rw [hall]
  omega

/-! ## `uvmfree` and `proc_freepagetable` -/

/-- The table is gone: its pages are free or in hand. -/
structure Reclaimed (b : Books) (k' : Kernel) : Prop where
  small : ∀ x, b.hand.count x + k'.freelist.count x = b.small x
  super : ∀ x, b.superhand.count x + k'.superfreelist.count x = b.super x
  mem : ∀ x, ¬ b.owns x → k'.mem x = b.k.mem x

theorem Moves.reclaimed (h : Moves kend ⟨k, pt, hand, superhand⟩ ⟨k₁, pt', hand, superhand⟩)
    (h' : Reclaimed ⟨k₁, pt', hand, superhand⟩ k') :
    Reclaimed ⟨k, pt, hand, superhand⟩ k' := by
  refine ⟨fun x => (h'.small x).trans (h.small x), fun x => (h'.super x).trans (h.super x),
    fun x hx => ?_⟩
  rw [h'.mem x (fun ho => hx ((h.owns x).mp ho)), h.mem x hx]

/-- **`freewalk`** of a table that owns no user page any more. -/
theorem Kept.freewalk (h : Kept kend ⟨k, pt, hand, superhand⟩)
    (hok : freewalk kend pt 2 0 (pt.tables.getLastD 0) k = .ok k') :
    Reclaimed ⟨k, pt, hand, superhand⟩ k' := by
  obtain ⟨hempty, hF⟩ := freewalk_root h.tree hok
  have hU := UPAGES_eq
  have hpages : ∀ x, pageCount pt x = 0 := fun x =>
    hits_none (fun q hq => frame_none ((hempty (q / 512) (by omega)).2 q rfl)) x
  have hsupers : ∀ x, superCount pt x = 0 := fun x =>
    hits_none (fun j hj => superPage_none (hempty j hj).1) x
  refine ⟨fun x => ?_, fun x => ?_, fun x hx => ?_⟩
  · simp only [Books.small, hpages, hF.small]
    omega
  · simp only [Books.super, hsupers, hF.super]
    omega
  · refine hF.mem x (fun f hf hin => hx (.inl ⟨f, ?_, hin⟩))
    have hf : 0 < tableCount pt f := hf
    simp only [Books.small]
    omega

/-- **`uvmfree`.** -/
theorem Kept.uvmfree (h : Kept kend ⟨k, pt, hand, superhand⟩) {sz : Nat}
    (hmax : sz ≤ 2 ^ 30) (hok : uvmfree kend k pt sz = .ok k') :
    Reclaimed ⟨k, pt, hand, superhand⟩ k' := by
  unfold Super.uvmfree at hok
  split at hok
  · cases hok
  rename_i k₁ pt₁ hun
  have hM : Moves kend ⟨k, pt, hand, superhand⟩ ⟨k₁, pt₁, hand, superhand⟩ := by
    split at hun
    · refine h.uvmunmap ?_ hun
      have hU := UPAGES_eq
      have hsys := USYSCALL_eq
      simp only [PGROUNDUP_eq, PGSIZE]
      unfold pages
      omega
    · simp only [Except.ok.injEq, Prod.mk.injEq] at hun
      obtain ⟨rfl, rfl⟩ := hun
      exact .refl h
  exact hM.reclaimed (hM.kept.freewalk hok)

/-- **`uvmunmap`** of a page of the kernel, without `do_free`. -/
theorem Kept.unmapHigh (h : Kept kend ⟨k, pt, hand, superhand⟩) {q : Nat} (hq : UPAGES ≤ q)
    (hmax : q < UPAGES + 3) (htop : tableAt pt 131071 = true)
    (hok : Super.uvmunmap kend k pt (q * 4096) 1 false = .ok (k', pt')) :
    k' = k ∧ Kept kend ⟨k, pt', hand, superhand⟩ ∧ tableAt pt' 131071 = true ∧
      (∀ x, Books.small ⟨k, pt', hand, superhand⟩ x =
        Books.small ⟨k, pt, hand, superhand⟩ x) ∧
      ∀ x, Books.super ⟨k, pt', hand, superhand⟩ x =
        Books.super ⟨k, pt, hand, superhand⟩ x := by
  have hU := UPAGES_eq
  have hslot : q / 512 = 131071 := by omega
  obtain ⟨hp₀, hp₁, -⟩ := vpn_page q
  have hlt : q * 4096 < q * 4096 + 1 * PGSIZE := by
    simp only [PGSIZE]
    omega
  have hva : q * 4096 < MAXVA := by
    simp only [MAXVA]
    omega
  unfold Super.uvmunmap at hok
  split at hok
  · cases hok
  rw [Super.uvmunmapLoop, if_pos hlt, h.tree.walk k hva, hp₀, hp₁, hslot,
    if_neg (by rw [not_super_of_table htop]; exact Bool.false_ne_true), if_pos htop] at hok
  simp only at hok
  split at hok
  · cases hok
  split at hok
  · cases hok
  simp only [Bool.false_eq_true, if_false, Super.uvmunmapLoop, Except.ok.injEq,
    Prod.mk.injEq] at hok
  obtain ⟨rfl, rfl⟩ := hok
  obtain ⟨hK, hcounts⟩ := h.set_high (e := .zero) hq (by rw [hslot]; exact htop)
    (fun hz => by cases hz)
  refine ⟨rfl, hK, ?_, fun x => ?_, fun x => ?_⟩
  · unfold tableAt at htop ⊢
    simpa using htop
  · simp only [Books.small, (hcounts x).1, (hcounts x).2.1]
  · simp only [Books.super, (hcounts x).2.2]

/-- **`proc_freepagetable`.** -/
theorem Kept.proc_freepagetable (h : Kept kend ⟨k, pt, hand, superhand⟩) {sz : Nat}
    (htop : tableAt pt 131071 = true) (hmax : sz ≤ 2 ^ 30)
    (hok : proc_freepagetable kend k pt sz = .ok k') :
    Reclaimed ⟨k, pt, hand, superhand⟩ k' := by
  unfold Super.proc_freepagetable at hok
  rw [show TRAMPOLINE = (UPAGES + 2) * 4096 by decide,
    show TRAPFRAME = (UPAGES + 1) * 4096 by decide, USYSCALL_eq] at hok
  split at hok
  · cases hok
  rename_i hun₁
  obtain ⟨rfl, h₁, htop₁, hs₁, hS₁⟩ := h.unmapHigh (by omega) (by omega) htop hun₁
  split at hok
  · cases hok
  rename_i hun₂
  obtain ⟨rfl, h₂, htop₂, hs₂, hS₂⟩ := h₁.unmapHigh (by omega) (by omega) htop₁ hun₂
  split at hok
  · cases hok
  rename_i hun₃
  obtain ⟨rfl, h₃, -, hs₃, hS₃⟩ := h₂.unmapHigh (by omega) (by omega) htop₂ hun₃
  have hR := h₃.uvmfree hmax hok
  refine ⟨fun x => ?_, fun x => ?_, fun x hx => hR.mem x (fun ho => hx ?_)⟩
  · rw [← hs₁, ← hs₂, ← hs₃]
    exact hR.small x
  · rw [← hS₁, ← hS₂, ← hS₃]
    exact hR.super x
  · unfold Books.owns at ho ⊢
    simp only [hs₁, hs₂, hs₃, hS₁, hS₂, hS₃] at ho
    exact ho

end Xv6Labs.Super
