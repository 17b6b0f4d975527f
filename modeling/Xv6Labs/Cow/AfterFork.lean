import Xv6Labs.Cow.Entries

/-!
# Writing a page after a fork

A page that a fork has met is `Legit` in parent and child, and stays so until it
is unmapped (`legit_kept`). While it is marked, the kernel may still refuse a
write to it: `usertrap` takes the two pages around the stack pointer for the
guard page, `cowhandle` refuses address 0 and `copyout` page 0. These are the
only refusals (`write_after_fork_iff`).
-/

namespace Xv6Labs.Cow

open Xv6Labs.Lib

variable {n kend : Nat} {s t : Sys n} {p c q : Fin n} {pr qr : Proc} {k va : Nat}

/-- The addresses `usertrap` takes for the guard page, from the saved `sp`. -/
def InGuard (va sp : Nat) : Prop :=
  (PGROUNDDOWN sp + 2 ^ 64 - PGSIZE) % 2 ^ 64 ≤ va ∧ va ≤ PGROUNDDOWN sp

/-! ## The page stays legitimate -/

def LegitAt (q : Fin n) (k : Nat) (s : Sys n) : Prop :=
  ∃ qr, s.proc q = some qr ∧ Legit (qr.pagetable.ent 0 k)

theorem LegitAt.step {l : Op n × Effect n} (h : SysInv kend s) (hl : LegitAt q k s)
    (hkeep : l.2.keeps q k) (hs : Step kend s l t) : LegitAt q k t := by
  obtain ⟨qr, hq, hlegit⟩ := hl
  have hmoves := Sys.exec_moves h hs q
  have hslot : t.proc q ≠ none := by
    rcases hmoves.slot (by rw [hq]; simp) with hno | hexit
    · exact hno
    · rw [hexit] at hkeep
      exact absurd rfl hkeep
  obtain ⟨qr', hq'⟩ := Option.ne_none_iff_exists'.mp hslot
  rcases hmoves.entries qr' hq' with ⟨qr₀, hq₀, hev⟩ | ⟨hnone, -⟩
  · rw [hq] at hq₀
    obtain rfl := Option.some.inj hq₀
    exact ⟨qr', hq', hev.legit k hkeep hlegit⟩
  · rw [hq] at hnone
    cases hnone

/-- **The run rule**: until page `k` of `q` is unmapped, it stays legitimate. -/
theorem legit_kept {ls : List (Op n × Effect n)} (h : SysInv kend s)
    (hl : LegitAt q k s) (hkeep : ∀ l ∈ ls, l.2.keeps q k)
    (hr : Run (Step kend) s ls t) : SysInv kend t ∧ LegitAt q k t := by
  have halways : Always (Step kend) (fun s => SysInv kend s ∧ LegitAt q k s) s ls :=
    always_of_each (Q := fun _ l => l.2.keeps q k) (fun s l t hI hQ hs => ⟨(Sys.exec_refines hI.1 hs).1, hI.2.step hI.1 hQ hs⟩)
      ⟨h, hl⟩ (each_of_forall hkeep)
  exact halways.last hr

/-! ## One store -/

theorem userStore_of_legit (km : Kmem) {pt : PageTable} (b : UInt8) (hwf : WF pt)
    (hv : (pt.ent 0 (vpn 0 va)).v = true) (hu : (pt.ent 0 (vpn 0 va)).u = true)
    (hw : (pt.ent 0 (vpn 0 va)).w = true) : ∃ km', userStore km pt va b = some km' := by
  unfold userStore
  rw [hwf.lookup hv]
  simp only [hv, hu, hw, Bool.and_self, if_true]
  exact ⟨_, rfl⟩

theorem userStore_of_not_w {km : Kmem} {pt : PageTable} {b : UInt8}
    (hw : (pt.ent 0 (vpn 0 va)).w = false) : userStore km pt va b = none := by
  unfold userStore
  cases hl : lookup pt va with
  | none => rfl
  | some j =>
      obtain rfl : j = vpn 0 va := (lookup_eq_some.mp hl).2.2
      simp [hw]

/-- **A fault on a legitimate marked page**: with a page free, the process is
killed exactly when the address is 0 or taken for the guard page; otherwise the
entry becomes writable. -/
theorem Inv.pagefault_legit {km : Kmem} {pts : Tables n} {kern : List Nat}
    {pt : PageTable} (h : Inv kend km pts kern) (hp : pts p = some pt)
    (hlegit : Legit (pt.ent 0 (vpn 0 va))) (hcow : (pt.ent 0 (vpn 0 va)).cow = true)
    (hroom : km.freelist ≠ []) (sp : Nat) :
    ((va = 0 ∨ InGuard va sp) ∧
        ∃ km' pt', Cow.pagefault kend km pt va sp = .ok (km', pt', true)) ∨
      (¬ (va = 0 ∨ InGuard va sp) ∧
        ∃ (km' : Kmem) (e : Pte), e.v = true ∧ e.u = true ∧ e.w = true ∧
          Cow.pagefault kend km pt va sp = .ok (km', pt.set 0 (vpn 0 va) e, false)) := by
  have hva : va < MAXVA := by
    have := (h.wf p pt hp).bound _ hlegit.v
    simp only [vpn_zero, entries, MAXVA] at *
    omega
  unfold Cow.pagefault
  simp only
  by_cases hguard : InGuard va sp
  · rw [if_pos (.inr hguard)]
    exact .inl ⟨.inr hguard, km, pt, rfl⟩
  have hno : ¬ (MAXVA ≤ va ∨ InGuard va sp) := by
    rintro (hge | hg)
    · omega
    · exact hguard hg
  rw [InGuard] at hno
  rw [if_neg hno]
  obtain ⟨⟨km₁, pt₁, ret⟩, hc⟩ := h.cowhandle_total hp hva
  rw [hc]
  obtain ⟨-, ⟨rfl, rfl, rfl, hwhy⟩ | ⟨rfl, -, -, -, hz, r, km₂, -, rfl, -⟩⟩ :=
    cowhandle_cases hc
  · -- of the reasons to refuse only address 0 is left
    refine .inl ⟨.inl ?_, km₁, pt₁, rfl⟩
    rw [(h.wf p _ hp).lookup hlegit.v] at hwhy
    rcases hwhy with hwhy | ⟨-, hwhy | hwhy | hwhy | hwhy⟩
    · cases hwhy
    · rw [hlegit.v] at hwhy
      cases hwhy
    · rw [hcow] at hwhy
      cases hwhy
    · exact hwhy
    · exact absurd hwhy hroom
  · refine .inr ⟨?_, km₁, PA2PTE r
      { (pt.ent 0 (vpn 0 va)).toFlags with cow := false, w := true },
      hlegit.v, hlegit.u, rfl, rfl⟩
    rintro (hz' | hg)
    · exact hz hz'
    · exact hguard hg

def StoreCompletes (kend : Nat) (s : Sys n) (q : Fin n) (va sp : Nat) (b : UInt8) : Prop :=
  ∃ t qr, s.exec kend (.store q va sp b) = .ok (t, .write q va [b]) ∧ t.live q = some qr

theorem storeCompletes_iff (h : SysInv kend s) (hl : s.live q = some qr)
    (hlegit : Legit (qr.pagetable.ent 0 (vpn 0 va))) (hroom : s.km.freelist ≠ [])
    (sp : Nat) (b : UInt8) :
    StoreCompletes kend s q va sp b ↔
      (qr.pagetable.ent 0 (vpn 0 va)).cow = false ∨ (va ≠ 0 ∧ ¬ InGuard va sp) := by
  have hq := Sys.live_some hl
  have hqT := Sys.tables_some hq
  have hwf := h.inv.wf q _ hqT
  unfold StoreCompletes
  simp only [Sys.exec, hl, Sys.store]
  cases hcow : (qr.pagetable.ent 0 (vpn 0 va)).cow with
  | false =>
      obtain ⟨km₁, hst⟩ := userStore_of_legit s.km b hwf hlegit.v hlegit.u
        (by rw [hlegit.w, hcow]; rfl)
      simp only [hst, true_or, iff_true]
      exact ⟨_, qr, rfl, hl⟩
  | true =>
      have hw : (qr.pagetable.ent 0 (vpn 0 va)).w = false := by rw [hlegit.w, hcow]; rfl
      simp only [userStore_of_not_w hw, Bool.true_eq_false, false_or, Sys.fault]
      rcases h.inv.pagefault_legit hqT hlegit hcow hroom sp with
        ⟨hbad, km₁, pt₁, hpf⟩ | ⟨hgood, km₁, e, hev, heu, hew, hpf⟩
      · rw [hpf]
        constructor
        · rintro ⟨t, qr', he, -⟩
          simp at he
        · rintro ⟨hz, hg⟩
          rcases hbad with hz' | hg'
          · exact absurd hz' hz
          · exact absurd hg' hg
      · rw [hpf]
        have hinv := (h.inv.pagefault hqT hpf).inv
        have hself : ((qr.pagetable.set 0 (vpn 0 va) e).ent 0 (vpn 0 va)) = e :=
          PageTable.set_ent_self ..
        obtain ⟨km₂, hst⟩ := userStore_of_legit km₁ b
          (hinv.wf q _ (Function.update_self ..)) (by rw [hself]; exact hev)
          (by rw [hself]; exact heu) (by rw [hself]; exact hew)
        simp only [Bool.false_eq_true, if_false, Sys.km_put, hst]
        refine ⟨fun _ => ⟨fun hz => hgood (.inl hz), fun hg => hgood (.inr hg)⟩, fun _ => ?_⟩
        exact ⟨_, ⟨qr.pagetable.set 0 (vpn 0 va) e, qr.sz, false⟩, rfl, by
          simp [Sys.live, Sys.put]⟩

/-! ## One `copyout` -/

def CopyoutCompletes (kend : Nat) (s : Sys n) (qr : Proc) (va : Nat) (src : List UInt8) :
    Prop :=
  ∃ km' pt' left, copyout kend s.km qr.pagetable va src = .ok (km', pt', 0, left)

theorem copyoutCompletes_iff {src : List UInt8} (h : SysInv kend s)
    (hq : s.proc q = some qr) (hlegit : Legit (qr.pagetable.ent 0 (vpn 0 va)))
    (hroom : s.km.freelist ≠ []) (hsrc : src ≠ [])
    (hlen : va % 4096 + src.length ≤ 4096) :
    CopyoutCompletes kend s qr va src ↔
      (qr.pagetable.ent 0 (vpn 0 va)).cow = false ∨ vpn 0 va ≠ 0 := by
  have hqT := Sys.tables_some hq
  have hdown : vpn 0 (PGROUNDDOWN va) = vpn 0 va := by
    simp only [vpn_zero, PGROUNDDOWN]
    omega
  have hva : PGROUNDDOWN va < MAXVA := by
    have := (h.inv.wf q _ hqT).bound _ hlegit.v
    simp only [vpn_zero, entries, MAXVA, PGROUNDDOWN] at *
    omega
  have hlk : lookup qr.pagetable (PGROUNDDOWN va) = some (vpn 0 (PGROUNDDOWN va)) :=
    (h.inv.wf q _ hqT).lookup (by rw [hdown]; exact hlegit.v)
  obtain ⟨⟨km₁, pt₁, o⟩, hpage⟩ := h.inv.copyoutPage_total hqT (PGROUNDDOWN va)
  unfold CopyoutCompletes
  rw [copyout, if_neg (by simpa using hsrc)]
  simp only [hpage]
  have hcases := copyoutPage_cases hpage
  rw [hdown, hlk] at hcases
  rcases hcases with ⟨rfl, rfl, rfl, hwhy⟩ | ⟨-, hno, -, -, hcase⟩
  · -- turned away: a marked page 0
    constructor
    · rintro ⟨km', pt', left, he⟩
      simp at he
    · intro hgood
      exfalso
      rcases hwhy with hwhy | hwhy | hwhy | hwhy | ⟨hcow, hwhy | hwhy⟩
      · omega
      · cases hwhy
      · rw [hlegit.u] at hwhy
        cases hwhy
      · rw [hlegit.v] at hwhy
        cases hwhy
      · rcases hgood with hgood | hgood
        · rw [hcow] at hgood
          cases hgood
        · simp only [vpn_zero, PGROUNDDOWN] at *
          omega
      · exact hroom hwhy
  · obtain ⟨pa0, rfl⟩ := Option.ne_none_iff_exists'.mp hno
    have hmin : min (PGSIZE - (va - PGROUNDDOWN va)) src.length = src.length := by
      simp only [PGSIZE, PGROUNDDOWN]
      omega
    simp only [hmin, List.drop_length]
    rw [copyout, if_pos (by simp)]
    refine ⟨fun _ => ?_, fun _ => ⟨_, _, _, rfl⟩⟩
    rcases hcase with ⟨hcow, -, -⟩ | ⟨-, hz, -⟩
    · exact .inl hcow
    · refine .inr (fun hzero => hz ?_)
      simp only [vpn_zero, PGROUNDDOWN] at *
      omega

/-! ## Writes after a fork -/

/-- **A write after a fork.** Take any reachable state, a fork of `p` into `c`
that succeeds, and a user page `k` of `p` mapped with V and U at that moment. In
every later state, as long as page `k` of the parent (or the child) was not
unmapped, the process lives and a page is free: a store at any address of the
page is completed without killing the process if and only if the entry is not
marked any more, or the address is neither 0 nor taken for the guard page; a
`copyout` inside the page succeeds if and only if the entry is not marked any
more or the page is not page 0. -/
theorem write_after_fork_iff {mem : Mem} {km : Kmem} {ls ls' : List (Op n × Effect n)}
    {s₁ s₂ : Sys n} (hk : kinit kend mem = .ok km)
    (hr : Run (Step kend) (Sys.init n km) ls s) (hp : s.proc p = some pr)
    (hv : (pr.pagetable.ent 0 k).v = true) (hu : (pr.pagetable.ent 0 k).u = true)
    (hf : Step kend s (.fork p c, .fork p c) s₁) (hq : q = p ∨ q = c)
    (hr' : Run (Step kend) s₁ ls' s₂) (hkeep : ∀ l ∈ ls', l.2.keeps q k)
    (hl : s₂.live q = some qr) (hroom : s₂.km.freelist ≠ []) (hva : vpn 0 va = k) :
    (∀ sp b, StoreCompletes kend s₂ q va sp b ↔
      (qr.pagetable.ent 0 k).cow = false ∨ (va ≠ 0 ∧ ¬ InGuard va sp)) ∧
    ∀ src, src ≠ [] → va % 4096 + src.length ≤ 4096 →
      (CopyoutCompletes kend s₂ qr va src ↔
        (qr.pagetable.ent 0 k).cow = false ∨ k ≠ 0) := by
  obtain ⟨h, -⟩ := Sys.run_refines hk hr
  have hs₁ := (Sys.exec_refines h hf).1
  have hfork : s.fork kend p c pr = .ok (s₁, .fork p c) ∧ s.proc c = none := by
    simp only [Step, Sys.exec] at hf
    split at hf
    · rename_i pr₀ hl₀ hc
      have hp₀ := Sys.live_some hl₀
      rw [hp] at hp₀
      obtain rfl := Option.some.inj hp₀
      exact ⟨hf, hc⟩
    · simp at hf
  obtain ⟨pr', prc, hp', hc', hmarked, -⟩ := Sys.fork_marked h hp hfork.2 hfork.1
  have hstart : LegitAt q k s₁ := by
    obtain ⟨hmp, hmc⟩ := hmarked k hv
    rcases hq with rfl | rfl
    · exact ⟨pr', hp', hmp.legit hv hu⟩
    · exact ⟨prc, hc', hmc.legit hv hu⟩
  obtain ⟨hs₂, qr₀, hq₀, hlegit⟩ := legit_kept hs₁ hstart hkeep hr'
  have hq₂ := Sys.live_some hl
  rw [hq₂] at hq₀
  obtain rfl := Option.some.inj hq₀
  subst hva
  exact ⟨fun sp b => storeCompletes_iff hs₂ hl hlegit hroom sp b,
    fun src hsrc hlen => copyoutCompletes_iff hs₂ hq₂ hlegit hroom hsrc hlen⟩

def threePages : List (Op 2 × Effect 2) :=
  let p : Fin 2 := ⟨0, Nat.two_pos⟩
  [(.create p, .silent), (.grow p true false, .grow p 0),
    (.grow p true false, .grow p 4096), (.grow p true false, .grow p 8192)]

/-- After the fork the child writes its stack, above the page boundary. -/
theorem write_after_fork_child_stack :
    ∃ (km : Kmem) (s s₁ : Sys 2),
      kinit (PHYSTOP - 49152) (fun _ => 0) = .ok km ∧
      Run (Step (PHYSTOP - 49152)) (Sys.init 2 km) threePages s ∧
      Step (PHYSTOP - 49152) s (.fork 0 1, .fork 0 1) s₁ ∧
      StoreCompletes (PHYSTOP - 49152) s₁ 1 8200 8208 7 := by
  obtain ⟨km, s, s₁, pr, qr, hk, hr, hp, hv, hu, hf, hl, hroom⟩ :
      ∃ (km : Kmem) (s s₁ : Sys 2) (pr qr : Proc),
        kinit (PHYSTOP - 49152) (fun _ => 0) = .ok km ∧
        Run (Step (PHYSTOP - 49152)) (Sys.init 2 km) threePages s ∧
        s.proc 0 = some pr ∧ (pr.pagetable.ent 0 2).v = true ∧
        (pr.pagetable.ent 0 2).u = true ∧
        Step (PHYSTOP - 49152) s (.fork 0 1, .fork 0 1) s₁ ∧
        s₁.live 1 = some qr ∧ s₁.km.freelist ≠ [] :=
    ⟨_, _, _, _, _, rfl, .cons rfl (.cons rfl (.cons rfl (.cons rfl (.nil _)))), rfl, rfl,
      rfl, rfl, rfl, List.cons_ne_nil _ _⟩
  refine ⟨km, s, s₁, hk, hr, hf, ?_⟩
  refine ((write_after_fork_iff hk hr hp hv hu hf (.inr rfl) (.nil s₁)
    (by simp) hl hroom (show vpn 0 8200 = 2 from rfl)).1 8208 7).mpr (.inr ⟨by decide, ?_⟩)
  unfold InGuard
  decide

/-- The parent writes the first byte of its stack page while `sp` points into
that page: `usertrap` takes the address for the guard page and the process is
killed, with pages free and the page writable before the fork. -/
theorem stack_store_after_fork_kills :
    ∃ (km : Kmem) (s s₁ t : Sys 2) (pr pr' : Proc),
      kinit (PHYSTOP - 49152) (fun _ => 0) = .ok km ∧
      Run (Step (PHYSTOP - 49152)) (Sys.init 2 km) threePages s ∧
      s.proc 0 = some pr ∧ (pr.pagetable.ent 0 2).v = true ∧
      (pr.pagetable.ent 0 2).u = true ∧ (pr.pagetable.ent 0 2).w = true ∧
      Step (PHYSTOP - 49152) s (.fork 0 1, .fork 0 1) s₁ ∧ s₁.km.freelist ≠ [] ∧
      s₁.exec (PHYSTOP - 49152) (.store 0 8192 8208 7) = .ok (t, .silent) ∧
      t.proc 0 = some pr' ∧ pr'.killed = true ∧
      ¬ StoreCompletes (PHYSTOP - 49152) s₁ 0 8192 8208 7 := by
  refine ⟨_, _, _, _, _, _, rfl, .cons rfl (.cons rfl (.cons rfl (.cons rfl (.nil _)))),
    rfl, rfl, rfl, rfl, rfl, List.cons_ne_nil _ _, rfl, rfl, rfl, ?_⟩
  rintro ⟨t, qr, he, -⟩
  simp only [Sys.exec] at he
  cases he

end Xv6Labs.Cow
