import Xv6Labs.Exec.Args
import Xv6Labs.Lib.Holds
import Xv6Labs.Super.Ledger

/-!
# A new program

`exec` builds a second page table beside the one the process runs on, and gives one of the
two back at the end: the new one when anything goes wrong, else the old one. `loadseg` and
`copyout` are parameters; all that matters here is that they write to the user pages of
the table they are given.
-/

namespace Xv6Labs.Super

open Xv6Labs.Lib

/-! ## The code -/

/-- `safestrcpy(s, t, n)`: at most `n - 1` bytes, up to the NUL, and one more NUL behind what
was copied. -/
def safestrcpy (s t : List UInt8) (n : Nat) : List UInt8 :=
  let copied := (t.take (n - 1)).takeWhile (· ≠ 0)
  let copied := if copied.length < n - 1 then copied ++ [0] else copied
  copied ++ 0 :: s.drop (copied.length + 1)

def MAXARG : Nat := 32

def USERSTACK : Nat := 1

/-- A program header of type `ELF_PROG_LOAD`; `w` and `x` are what `flags2perm` makes of its
flags. -/
structure Segment where
  vaddr : Nat
  memsz : Nat
  filesz : Nat
  off : Nat
  w : Bool
  x : Bool

/-- What `exec` finds in the file: the segments, `none` for a header that `readi` does not
read, and the entry point. -/
structure Elf where
  segments : List (Option Segment)
  entry : Nat

structure Loader where
  /-- `false` is -1 -/
  loadseg : Mem → PageTable → Segment → Except String (Mem × Bool)
  user : PageTable → Exec.UserMem Mem

section Code

variable (kend : Nat) (L : Loader)

/-- The loop over the program headers; `false` is `goto bad`. -/
def loadSegments (k : Kernel) (pt : PageTable) (sz : Nat) :
    List (Option Segment) → Except String (Kernel × PageTable × Nat × Bool)
  | [] => .ok (k, pt, sz, true)
  | none :: _ => .ok (k, pt, sz, false)
  | some ph :: rest =>
      if ph.memsz < ph.filesz ∨ 2 ^ 64 ≤ ph.vaddr + ph.memsz ∨ ph.vaddr % PGSIZE ≠ 0 then
        .ok (k, pt, sz, false)
      else
        match uvmalloc kend k pt sz (ph.vaddr + ph.memsz) { w := ph.w, x := ph.x } with
        | .error e => .error e
        | .ok (k, pt, sz1) =>
            if sz1 = 0 then .ok (k, pt, sz, false)
            else
              match L.loadseg k.mem pt ph with
              | .error e => .error e
              | .ok (mem, false) => .ok ({ k with mem := mem }, pt, sz1, false)
              | .ok (mem, true) => loadSegments { k with mem := mem } pt sz1 rest

def uvmclear (k : Kernel) (pt : PageTable) (va : Nat) : Except String PageTable :=
  match walk k pt va false with
  | .error e => .error e
  | .ok (_, _, none) => .error "uvmclear"
  | .ok (_, pt, some (level, j)) => .ok (pt.set level j { pt.ent level j with u := false })

/-- The new image with its stack; `none` is `goto bad`, else `sp` and `argc`. What a push
that fails has written to the stack does not show: these pages are freed. -/
def execImage (k : Kernel) (pt : PageTable) (elf : Elf) (argv : List Bytes) :
    Except String (Kernel × PageTable × Nat × Option (Nat × Nat)) :=
  match loadSegments kend L k pt 0 elf.segments with
  | .error e => .error e
  | .ok (k, pt, sz, false) => .ok (k, pt, sz, none)
  | .ok (k, pt, sz, true) =>
      let sz := PGROUNDUP sz
      match uvmalloc kend k pt sz (sz + (USERSTACK + 1) * PGSIZE) { w := true } with
      | .error e => .error e
      | .ok (k, pt, sz1) =>
          if sz1 = 0 then .ok (k, pt, sz, none)
          else
            let sz := sz1
            match uvmclear k pt (sz - (USERSTACK + 1) * PGSIZE) with
            | .error e => .error e
            | .ok pt =>
                match Exec.pushArgs (L.user pt) MAXARG (sz - USERSTACK * PGSIZE) k.mem sz
                  argv with
                | .error .outside => .error "exec: ustack"
                | .error .bad => .ok (k, pt, sz, none)
                | .ok (mem, sp, argc) => .ok ({ k with mem := mem }, pt, sz, some (sp, argc))

def lastName (path : List UInt8) : List UInt8 :=
  (path.reverse.takeWhile (· ≠ '/'.toUInt8)).reverse

def setRegisters (mem : Mem) (t sp entry : Nat) : Mem :=
  ((mem.store (t + 120) (le64 sp)).store (t + 24) (le64 entry)).store (t + 48) (le64 sp)

/-- `exec` of the process in slot `p`; `elf` is `none` when there is no such file or it is no
program. -/
def exec (trampoline : Nat) (k : Kernel) (p : Slot) (path : List UInt8) (elf : Option Elf)
    (argv : List Bytes) : Except String (Kernel × Slot × Int) :=
  match elf with
  | none => .ok (k, p, -1)
  | some elf =>
      match p.trapframe, p.usyscall, p.pagetable with
      | some t, some u, some oldpagetable =>
          match proc_pagetable kend k trampoline t u with
          | .error e => .error e
          | .ok (k, none) => .ok (k, p, -1)
          | .ok (k, some pt) =>
              match execImage kend L k pt elf argv with
              | .error e => .error e
              | .ok (k, pt, sz, none) =>
                  match proc_freepagetable kend k pt sz with
                  | .error e => .error e
                  | .ok k => .ok (k, p, -1)
              | .ok (k, pt, sz, some (sp, argc)) =>
                  let k := { k with mem := setRegisters k.mem t sp elf.entry }
                  match proc_freepagetable kend k oldpagetable p.sz with
                  | .error e => .error e
                  | .ok k => .ok (k, { p with
                      name := safestrcpy p.name (lastName path ++ [0]) 16
                      pagetable := some pt
                      sz := sz }, argc)
      | _, _, _ => .error "exec: null pointer"

end Code

/-! ## What it relies on -/

/-- Bytes change in the user pages of the table only. -/
def UserPagesOnly (pt : PageTable) (mem mem' : Mem) : Prop :=
  ∀ x, mem' x ≠ mem x → Covers (pageCount pt) (superCount pt) x

/-- A table in which the program cannot write above the user part. -/
structure Guarded (pt : PageTable) : Prop where
  tree : Tree pt
  range : ∀ i, (pt.ent 2 i).v = true → i < 512
  high : ∀ q, UPAGES ≤ q → (pt.ent 0 q).v = true → (pt.ent 0 q).w = true →
    (pt.ent 0 q).u = false

/-- `copyout` and `loadseg` write where the program may write, or below `USYSCALL`. -/
structure Loader.Inside (L : Loader) : Prop where
  loadseg : ∀ mem pt ph mem' ok, Guarded pt → ph.vaddr + ph.filesz ≤ USYSCALL →
    L.loadseg mem pt ph = .ok (mem', ok) → UserPagesOnly pt mem mem'
  copyout : ∀ pt mem va bs mem', Guarded pt → (L.user pt).copyout mem va bs = some mem' →
    UserPagesOnly pt mem mem'

/-- Where the image has to end for it and its stack to fit below the first superpage. -/
def IMAGETOP : Nat := SUPERPGSIZE - (USERSTACK + 2) * PGSIZE

def Elf.Low (elf : Elf) : Prop :=
  ∀ ph, some ph ∈ elf.segments → ph.vaddr + ph.memsz ≤ IMAGETOP

variable {kend trampoline : Nat} {L : Loader} {k k' k₀ : Kernel} {pt pt' : PageTable}
  {hand superhand : List Nat} {mem mem' mem'' : Mem} {sz sz' : Nat}

theorem UserPagesOnly.refl (pt : PageTable) (mem : Mem) : UserPagesOnly pt mem mem :=
  fun _ hne => absurd rfl hne

theorem UserPagesOnly.trans (h : UserPagesOnly pt mem mem') (h' : UserPagesOnly pt mem' mem'') :
    UserPagesOnly pt mem mem'' := by
  intro x hne
  by_cases hx : mem' x = mem x
  · exact h' x (fun hx' => hne (hx'.trans hx))
  · exact h x hx

theorem Kept.within (h : Kept kend ⟨k, pt, hand, superhand⟩) (hm : UserPagesOnly pt k.mem mem) :
    Moves kend ⟨k, pt, hand, superhand⟩ ⟨{ k with mem := mem }, pt, hand, superhand⟩ := by
  refine h.write (fun x hx => (hm x hx).mono (fun f => ?_) (fun f => ?_))
  · exact Nat.le_add_left _ _
  · exact Nat.le_add_left _ _

/-- Files without data, and a `copyout` within one page. -/
def stackLoader : Loader where
  loadseg := fun mem _ ph => .ok (mem, decide (ph.filesz = 0))
  user := fun pt =>
    { mem := fun mem va => (read mem pt va).getD 0
      writable := fun _ va => ∃ q, sv39 pt va = some (0, q) ∧ (pt.ent 0 q).w = true ∧
        (pt.ent 0 q).u = true
      copyout := fun mem va bs =>
        match sv39 pt va with
        | some (0, q) =>
            if (pt.ent 0 q).w ∧ (pt.ent 0 q).u ∧ va % PGSIZE + bs.length ≤ PGSIZE then
              some (mem.store (PTE2PA (pt.ent 0 q) + va % PGSIZE) bs)
            else none
        | _ => none }

theorem stackLoader_inside : stackLoader.Inside := by
  refine ⟨fun mem pt ph mem' ok _ _ hok => ?_, fun pt mem va bs mem' hG hok x hne => ?_⟩
  · simp only [stackLoader, Except.ok.injEq, Prod.mk.injEq] at hok
    rw [← hok.1]
    exact .refl pt mem
  · simp only [stackLoader] at hok
    split at hok
    swap
    · cases hok
    rename_i q hleaf
    split at hok
    swap
    · cases hok
    rename_i hwrite
    obtain ⟨hw, hu, hfit⟩ := hwrite
    obtain rfl := Option.some.inj hok
    have hv : (pt.ent 0 q).v = true := by
      rw [hG.tree.sv39] at hleaf
      obtain ⟨e, hs, heq⟩ := Option.map_eq_some_iff.mp hleaf
      obtain ⟨h₁, h₂⟩ := Prod.mk.inj heq
      rw [h₁] at h₂
      subst h₂
      unfold seen at hs
      split at hs
      · rw [← Option.some.inj hs] at h₁
        cases h₁
      · split at hs
        · assumption
        · cases hs
    have hq : q < UPAGES := by
      by_contra hge
      rw [hG.high q (Nat.not_lt.mp hge) hv hw] at hu
      cases hu
    refine .inl ⟨PTE2PA (pt.ent 0 q), hits_pos_iff.mpr ⟨q, hq, Pte.frame_of_v hv⟩, ?_⟩
    by_contra hout
    refine hne (Mem.store_of_notMem (fun hin => hout ?_))
    simp only [Block.has]
    omega

/-! ## The arguments -/

theorem pushStrings_within {U : Exec.UserMem Mem}
    (hU : ∀ mem va bs mem', U.copyout mem va bs = some mem' → UserPagesOnly pt mem mem')
    {n stackbase : Nat} (argv : List Bytes) : ∀ {mem mem' : Mem} {sp sp' : Nat}
    {ustack ustack' : List Nat},
    Exec.pushStrings U n stackbase argv mem sp ustack = .ok (mem', sp', ustack') →
    UserPagesOnly pt mem mem' := by
  induction argv with
  | nil =>
      intro mem mem' sp sp' ustack ustack' hok
      simp only [Exec.pushStrings, Except.ok.injEq, Prod.mk.injEq] at hok
      obtain ⟨rfl, -⟩ := hok
      exact .refl pt mem
  | cons s argv ih =>
      intro mem mem' sp sp' ustack ustack' hok
      rw [Exec.pushStrings] at hok
      split at hok
      · cases hok
      simp only at hok
      split at hok
      · cases hok
      split at hok
      · cases hok
      rename_i hcopy
      exact (hU _ _ _ _ hcopy).trans (ih hok)

theorem pushArgs_within {U : Exec.UserMem Mem}
    (hU : ∀ mem va bs mem', U.copyout mem va bs = some mem' → UserPagesOnly pt mem mem')
    {n stackbase sp argc : Nat} {argv : List Bytes}
    (hok : Exec.pushArgs U n stackbase mem sz argv = .ok (mem', sp, argc)) :
    UserPagesOnly pt mem mem' := by
  unfold Exec.pushArgs at hok
  split at hok
  · cases hok
  rename_i hstrings
  refine (pushStrings_within hU argv hstrings).trans ?_
  unfold Exec.pushVector at hok
  simp only at hok
  split at hok
  · cases hok
  split at hok
  · cases hok
  split at hok
  · cases hok
  rename_i hcopy
  simp only [Except.ok.injEq, Prod.mk.injEq] at hok
  obtain ⟨rfl, -⟩ := hok
  exact hU _ _ _ _ hcopy

/-! ## The image -/

theorem IMAGETOP_eq : IMAGETOP = 2084864 := by decide

theorem Layout.first_table {N : Nat} (h : Layout pt N) (hT : Tree pt) (hN : 0 < N)
    (hfirst : superAt pt 0 = false) : tableAt pt 0 = true := by
  have hs := (h 0).mpr (.inl hN)
  unfold seen at hs
  rw [Nat.zero_div, if_neg (by rw [hfirst]; exact Bool.false_ne_true)] at hs
  split at hs
  · rename_i hv
    exact (hT.bot 0 hv).1
  · cases hs

/-- **`uvmalloc` below the first superpage**: the pages of the new part are mapped, or the
result is 0. -/
theorem Kept.uvmalloc_low (h : Kept kend ⟨k, pt, hand, superhand⟩) {newsz sz1 : Nat}
    {xperm : Flags} (hx : xperm.s = false) (hnew : newsz < SUPERPGSIZE)
    (hok : Super.uvmalloc kend k pt sz newsz xperm = .ok (k', pt', sz1)) :
    Moves kend ⟨k, pt, hand, superhand⟩ ⟨k', pt', hand, superhand⟩ ∧
      (sz1 = 0 ∨ newsz < sz ∧ sz1 = sz ∧ pt' = pt ∨
        sz1 = newsz ∧ sz ≤ newsz ∧ Extended pt pt' (pages sz) (pages newsz) xperm) := by
  have hnew' := hnew
  simp only [SUPERPGSIZE] at hnew'
  have hreach : Reaches pt sz newsz := by
    refine ⟨by omega, .inl ?_⟩
    simp only [SUPERPGSIZE]
    omega
  obtain ⟨hM, hext⟩ := h.uvmalloc hx hreach hok
  refine ⟨hM, ?_⟩
  by_cases h0 : sz1 = 0
  · exact .inl h0
  right
  unfold Super.uvmalloc at hok
  split at hok
  · rename_i hlt
    simp only [Except.ok.injEq, Prod.mk.injEq] at hok
    exact .inl ⟨hlt, hok.2.2.symm, hok.2.1.symm⟩
  · rename_i hle
    have hsize := (uvmallocLoop_size _ hok).resolve_right h0
    exact .inr ⟨hsize, Nat.not_lt.mp hle, hext (Nat.not_lt.mp hle) h0 hnew⟩

theorem pages_le {sz n : Nat} (h : sz ≤ n * 4096) : pages sz ≤ n := by
  unfold pages
  omega

theorem Layout.guarded {N t u : Nat} (h : Layout pt N) (hK : Kept kend ⟨k, pt, hand, superhand⟩)
    (hF : Fixed pt trampoline t u) (hN : N ≤ UPAGES) : Guarded pt := by
  refine ⟨hK.tree, hK.range, fun q hq hv hw => ?_⟩
  have hs : (seen pt q).isSome = true := by
    unfold seen
    rw [hv]
    split
    · rfl
    · rfl
  -- only the page of `usyscall` is for the program, and it lacks `PTE_W`
  obtain rfl | rfl | rfl : q = UPAGES ∨ q = UPAGES + 1 ∨ q = UPAGES + 2 := by
    have := (h q).mp hs
    omega
  · rw [hF.usyscall] at hw
    cases hw
  · rw [hF.trapframe]
    rfl
  · rw [hF.trampoline]
    rfl

/-- **The segments**: the pages of what they cover are mapped, if all went well. -/
theorem Kept.loadSegments (hL : L.Inside) {t u : Nat} (segments : List (Option Segment)) :
    ∀ {k : Kernel} {pt : PageTable} {sz : Nat} {ok : Bool},
    Kept kend ⟨k, pt, hand, superhand⟩ → Fixed pt trampoline t u →
    (∀ ph, some ph ∈ segments → ph.vaddr + ph.memsz ≤ IMAGETOP) → sz ≤ IMAGETOP →
    Layout pt (pages sz) →
    loadSegments kend L k pt sz segments = .ok (k', pt', sz', ok) →
    Moves kend ⟨k, pt, hand, superhand⟩ ⟨k', pt', hand, superhand⟩ ∧ sz' ≤ IMAGETOP ∧
      (ok = true → Layout pt' (pages sz')) := by
  have hU := UPAGES_eq
  have htop := IMAGETOP_eq
  induction segments with
  | nil =>
      intro k pt sz ok h _ _ hsz hlay hok
      simp only [Super.loadSegments, Except.ok.injEq, Prod.mk.injEq] at hok
      obtain ⟨rfl, rfl, rfl, -⟩ := hok
      exact ⟨.refl h, hsz, fun _ => hlay⟩
  | cons ph rest ih =>
      intro k pt sz ok h hF hlow hsz hlay hok
      cases ph with
      | none =>
          simp only [Super.loadSegments, Except.ok.injEq, Prod.mk.injEq] at hok
          obtain ⟨rfl, rfl, rfl, rfl⟩ := hok
          exact ⟨.refl h, hsz, fun hf => absurd hf Bool.false_ne_true⟩
      | some ph =>
          have hph := hlow ph List.mem_cons_self
          rw [Super.loadSegments] at hok
          split at hok
          · simp only [Except.ok.injEq, Prod.mk.injEq] at hok
            obtain ⟨rfl, rfl, rfl, rfl⟩ := hok
            exact ⟨.refl h, hsz, fun hf => absurd hf Bool.false_ne_true⟩
          rename_i hheader
          have hfile : ph.vaddr + ph.filesz ≤ USYSCALL := by
            have hsize := (not_or.mp hheader).1
            rw [USYSCALL_eq]
            omega
          split at hok
          · cases hok
          rename_i k₁ pt₁ sz1 hal
          have hbelow : ph.vaddr + ph.memsz < SUPERPGSIZE := by
            simp only [SUPERPGSIZE]
            omega
          obtain ⟨hM, hres⟩ := h.uvmalloc_low rfl hbelow hal
          split at hok
          · simp only [Except.ok.injEq, Prod.mk.injEq] at hok
            obtain ⟨rfl, rfl, rfl, rfl⟩ := hok
            exact ⟨hM, hsz, fun hf => absurd hf Bool.false_ne_true⟩
          rename_i hne
          obtain ⟨hsz1, hlay₁⟩ : sz1 ≤ IMAGETOP ∧ Layout pt₁ (pages sz1) := by
            rcases hres with h0 | ⟨-, rfl, rfl⟩ | ⟨rfl, hle, hext⟩
            · exact absurd h0 hne
            · exact ⟨hsz, hlay⟩
            · exact ⟨hph, hext.layout hlay (pages_mono hle)
                ((pages_le (n := 509) (by omega)).trans (by omega))⟩
          have hG := hlay₁.guarded hM.kept (hF.moves hM)
            ((pages_le (n := 509) (by omega)).trans (by omega))
          split at hok
          · cases hok
          · rename_i mem hload
            simp only [Except.ok.injEq, Prod.mk.injEq] at hok
            obtain ⟨rfl, rfl, rfl, rfl⟩ := hok
            exact ⟨hM.trans (hM.kept.within (hL.loadseg _ _ _ _ _ hG hfile hload)), hsz1,
              fun hf => absurd hf Bool.false_ne_true⟩
          · rename_i mem hload
            have hM' := hM.trans (hM.kept.within (hL.loadseg _ _ _ _ _ hG hfile hload))
            obtain ⟨hR, hrest⟩ := ih hM'.kept (hF.moves hM')
              (fun ph hmem => hlow ph (List.mem_cons_of_mem _ hmem)) hsz1 hlay₁ hok
            exact ⟨hM'.trans hR, hrest⟩

/-- **`uvmclear`** in the first slot takes `PTE_U` from a page. -/
theorem Kept.uvmclear (h : Kept kend ⟨k, pt, hand, superhand⟩) {q : Nat} {e : Pte}
    (hq : q < 512) (hseen : seen pt q = some (0, e))
    (hok : uvmclear k pt (q * 4096) = .ok pt') :
    Moves kend ⟨k, pt, hand, superhand⟩ ⟨k, pt', hand, superhand⟩ ∧
      Shows pt pt' q { e with u := false } := by
  have hU := UPAGES_eq
  have hmax : q * 4096 < MAXVA := by
    simp only [MAXVA]
    omega
  obtain ⟨hp₀, hp₁, -⟩ := vpn_page q
  have hslot : q / 512 = 0 := Nat.div_eq_of_lt hq
  obtain ⟨hv, rfl⟩ : (pt.ent 0 q).v = true ∧ pt.ent 0 q = e := by
    unfold seen at hseen
    rw [hslot, if_neg (by rw [h.first]; exact Bool.false_ne_true)] at hseen
    split at hseen
    · rename_i hv
      simp only [Option.some.injEq, Prod.mk.injEq, true_and] at hseen
      exact ⟨hv, hseen⟩
    · cases hseen
  obtain ⟨htab, hbot⟩ := h.tree.bot q hv
  unfold Super.uvmclear at hok
  rw [h.tree.walk k hmax, hp₀, hp₁, hslot,
    if_neg (by rw [h.first]; exact Bool.false_ne_true), if_pos (hslot ▸ htab)] at hok
  obtain rfl := Except.ok.inj hok
  have hleaf : ∀ b : Bool, ({ pt.ent 0 q with u := b } : Pte).v = true →
      ({ pt.ent 0 q with u := b } : Pte).s = false ∧
        ({ pt.ent 0 q with u := b } : Pte).leaf = true := fun _ _ => hbot
  refine ⟨h.set_bot (by omega) htab (hleaf false) (fun x => rfl), fun p => ?_⟩
  obtain ⟨-, hset⟩ := h.tree.set_bot (q := q) (e := { pt.ent 0 q with u := false }) htab
    (hleaf false)
  rw [hset, if_pos hv]

/-- An image as `exec` builds it: all pages below the end, with a page on top for the stack
and one below that the program cannot touch. -/
structure Image (pt : PageTable) (sz : Nat) : Prop where
  layout : Layout pt (pages sz)
  whole : sz % PGSIZE = 0
  low : sz ≤ SUPERPGSIZE
  two : 2 * PGSIZE ≤ sz
  guard : ∃ e, seen pt (pages sz - 2) = some (0, e) ∧
    e.toFlags = { v := true, r := true, w := true }
  stack : ∃ e, seen pt (pages sz - 1) = some (0, e) ∧
    e.toFlags = { v := true, r := true, w := true, u := true }

/-- **The stack pages** go on top. -/
theorem Extended.image {pt₁ pt₂ : PageTable} {P : Nat} {e : Pte}
    (hext : Extended pt pt₁ P (P + 2) { w := true }) (hL : Layout pt P) (hP : P ≤ 509)
    (hseen : seen pt₁ P = some (0, e)) (hshow : Shows pt₁ pt₂ P { e with u := false }) :
    Image pt₂ ((P + 2) * 4096) := by
  have hU := UPAGES_eq
  have hpages : Super.pages ((P + 2) * 4096) = P + 2 := by
    unfold Super.pages
    omega
  have hL₁ := hext.layout hL (by omega) (by omega)
  refine ⟨fun q => ?_, Nat.mul_mod_left _ _, ?_, ?_, ?_, ?_⟩
  · rw [hpages, hshow q]
    split
    · simp only [Option.isSome_some, true_iff]
      omega
    · exact hL₁ q
  · simp only [SUPERPGSIZE]
    omega
  · simp only [PGSIZE]
    omega
  · rw [hpages, Nat.add_sub_cancel]
    obtain ⟨e', hs, hflags⟩ := hext.pages P (Nat.le_refl P) (by omega)
    obtain rfl : e = e' := by
      rw [hseen] at hs
      simp only [Option.some.injEq, Prod.mk.injEq, true_and] at hs
      exact hs
    refine ⟨_, (hshow P).trans (if_pos rfl), ?_⟩
    rw [hflags]
  · have hlast : P + 2 - 1 = P + 1 := by omega
    rw [hpages, hlast, hshow, if_neg (by omega)]
    exact hext.pages (P + 1) (by omega) (by omega)

theorem pushStrings_argc {U : Exec.UserMem Mem} {n stackbase : Nat} (argv : List Bytes) :
    ∀ {mem mem' : Mem} {sp sp' : Nat} {ustack ustack' : List Nat},
    Exec.pushStrings U n stackbase argv mem sp ustack = .ok (mem', sp', ustack') →
    ustack'.length = ustack.length + argv.length := by
  induction argv with
  | nil =>
      intro mem mem' sp sp' ustack ustack' hok
      simp only [Exec.pushStrings, Except.ok.injEq, Prod.mk.injEq] at hok
      rw [← hok.2.2, List.length_nil, Nat.add_zero]
  | cons s argv ih =>
      intro mem mem' sp sp' ustack ustack' hok
      rw [Exec.pushStrings] at hok
      split at hok
      · cases hok
      simp only at hok
      split at hok
      · cases hok
      split at hok
      · cases hok
      rw [ih hok, List.length_append, List.length_singleton, List.length_cons]
      omega

theorem pushArgs_ok {U : Exec.UserMem Mem} {n stackbase sp argc : Nat} {argv : List Bytes}
    (hok : Exec.pushArgs U n stackbase mem sz argv = .ok (mem', sp, argc)) :
    stackbase ≤ sp ∧ argc = argv.length := by
  unfold Exec.pushArgs at hok
  split at hok
  · cases hok
  rename_i hstrings
  unfold Exec.pushVector at hok
  simp only at hok
  split at hok
  · cases hok
  split at hok
  · cases hok
  rename_i hge
  split at hok
  · cases hok
  simp only [Except.ok.injEq, Prod.mk.injEq] at hok
  obtain ⟨-, rfl, rfl⟩ := hok
  refine ⟨Nat.not_lt.mp hge, ?_⟩
  rw [pushStrings_argc argv hstrings, List.length_nil, Nat.zero_add]

/-- **The new image** is made of free pages. -/
theorem Kept.execImage (hL : L.Inside) {elf : Elf} (helf : elf.Low) {argv : List Bytes}
    {o : Option (Nat × Nat)} {t u : Nat} (h : Kept kend ⟨k, pt, hand, superhand⟩)
    (hF : Fixed pt trampoline t u) (hlay : Layout pt 0)
    (hok : execImage kend L k pt elf argv = .ok (k', pt', sz, o)) :
    Moves kend ⟨k, pt, hand, superhand⟩ ⟨k', pt', hand, superhand⟩ ∧ sz ≤ SUPERPGSIZE ∧
      ∀ sp argc, o = some (sp, argc) →
        Image pt' sz ∧ sz - PGSIZE ≤ sp ∧ argc = argv.length := by
  have htop := IMAGETOP_eq
  unfold Super.execImage at hok
  split at hok
  · cases hok
  · rename_i k₁ pt₁ sz₁ hload
    simp only [Except.ok.injEq, Prod.mk.injEq] at hok
    obtain ⟨rfl, rfl, rfl, rfl⟩ := hok
    obtain ⟨hM, hsz, -⟩ := Kept.loadSegments hL _ h hF helf (Nat.zero_le _) hlay hload
    refine ⟨hM, ?_, fun sp argc hn => ?_⟩
    · simp only [SUPERPGSIZE]
      omega
    · cases hn
  rename_i k₁ pt₁ sz₁ hload
  obtain ⟨hM, hsz, hlay₁⟩ := Kept.loadSegments hL _ h hF helf (Nat.zero_le _) hlay hload
  have hround : PGROUNDUP sz₁ = pages sz₁ * 4096 := PGROUNDUP_eq sz₁
  have hP : pages sz₁ ≤ 509 := pages_le (by omega)
  have hstack : pages sz₁ * 4096 + (USERSTACK + 1) * PGSIZE = (pages sz₁ + 2) * 4096 := by
    simp only [USERSTACK, PGSIZE]
    omega
  have hpages : ∀ n, pages (n * 4096) = n := by
    intro n
    unfold pages
    omega
  simp only [hround, hstack] at hok
  generalize pages sz₁ = P at *
  have hlow : (P + 2) * 4096 < SUPERPGSIZE := by
    simp only [SUPERPGSIZE]
    omega
  split at hok
  · cases hok
  rename_i k₂ pt₂ sz₂ hal
  obtain ⟨hM₂, hres⟩ := hM.kept.uvmalloc_low rfl hlow hal
  have hM' := hM.trans hM₂
  split at hok
  · simp only [Except.ok.injEq, Prod.mk.injEq] at hok
    obtain ⟨rfl, rfl, rfl, rfl⟩ := hok
    refine ⟨hM', le_trans (Nat.mul_le_mul_right _ (by omega)) hlow.le, fun sp argc hn => ?_⟩
    cases hn
  rename_i hne
  obtain ⟨rfl, hext⟩ : sz₂ = (P + 2) * 4096 ∧ Extended pt₁ pt₂ P (P + 2) { w := true } := by
    rcases hres with h0 | ⟨hlt, -, -⟩ | ⟨hsz₂, -, hext⟩
    · exact absurd h0 hne
    · omega
    · rw [hpages, hpages] at hext
      exact ⟨hsz₂, hext⟩
  obtain ⟨e, hseen, -⟩ := hext.pages P (Nat.le_refl P) (by omega)
  have hguard : (P + 2) * 4096 - (USERSTACK + 1) * PGSIZE = P * 4096 := by
    simp only [USERSTACK, PGSIZE]
    omega
  simp only [hguard] at hok
  split at hok
  · cases hok
  rename_i pt₃ hclear
  obtain ⟨hC, hshow⟩ := hM'.kept.uvmclear (by omega) hseen hclear
  have hM₃ := hM'.trans hC
  split at hok
  · cases hok
  · simp only [Except.ok.injEq, Prod.mk.injEq] at hok
    obtain ⟨rfl, rfl, rfl, rfl⟩ := hok
    refine ⟨hM₃, hlow.le, fun sp argc hn => ?_⟩
    cases hn
  · rename_i mem sp argc hpush
    simp only [Except.ok.injEq, Prod.mk.injEq] at hok
    obtain ⟨rfl, rfl, rfl, rfl⟩ := hok
    have himage := hext.image (hlay₁ rfl) hP hseen hshow
    have hG : Guarded pt₃ := by
      have hlay₃ := himage.layout
      rw [hpages] at hlay₃
      exact hlay₃.guarded hM₃.kept (hF.moves hM₃) (by rw [UPAGES_eq]; omega)
    have hin := pushArgs_within (fun _ _ _ _ hcopy => hL.copyout _ _ _ _ _ hG hcopy) hpush
    refine ⟨hM₃.trans (hM₃.kept.within hin), hlow.le, fun sp' argc' hn => ?_⟩
    obtain ⟨rfl, rfl⟩ := Prod.mk.inj (Option.some.inj hn)
    obtain ⟨hsp, hargc⟩ := pushArgs_ok hpush
    rw [USERSTACK, Nat.one_mul] at hsp
    exact ⟨himage, hsp, hargc⟩

/-! ## `exec` -/

variable {c₀ s₀ : Nat → Nat} {held : List Nat} {y : Sys} {p p' : Slot} {t u i : Nat}
  {name : List UInt8}

structure Starts (mem : Mem) (t sp entry : Nat) : Prop where
  a1 : mem.Holds (t + 120) (le64 sp)
  epc : mem.Holds (t + 24) (le64 entry)
  sp : mem.Holds (t + 48) (le64 sp)

/-- The slot has a new image, and every page of the old one is free. -/
structure Replaced (k' : Kernel) (p p' : Slot) (entry : Nat) : Prop where
  image : ∃ new, p'.pagetable = some new ∧ Image new p'.sz
  starts : ∃ t sp, p.trapframe = some t ∧ p'.sz - PGSIZE ≤ sp ∧ Starts k'.mem t sp entry
  small : ∀ old, p.pagetable = some old →
    ∀ f, 0 < tableCount old f + pageCount old f → f ∈ k'.freelist
  super : ∀ old, p.pagetable = some old → ∀ f, 0 < superCount old f → f ∈ k'.superfreelist

/-- What `exec` did: it went back to where it was, or the slot has another image. -/
structure Execed (k k' : Kernel) (p p' : Slot) (elf : Option Elf) (argc : Nat) (ret : Int) :
    Prop where
  failed : ret < 0 → p' = p ∧ Untaken k k'
  replaced : 0 ≤ ret → ret = argc ∧ ∃ e, elf = some e ∧ Replaced k' p p' e.entry
  small : ∀ x, k'.freelist.count x + p'.small x = k.freelist.count x + p.small x
  super : ∀ x, k'.superfreelist.count x + p'.super x = k.superfreelist.count x + p.super x

theorem Untaken.execed (h : Untaken k k') (p : Slot) (elf : Option Elf) (argc : Nat) :
    Execed k k' p p elf argc (-1) := by
  refine ⟨fun _ => ⟨rfl, h⟩, fun hret => absurd hret (by decide), fun x => ?_, fun x => ?_⟩
  · rw [h.small]
  · rw [h.super]

theorem setRegisters_starts (mem : Mem) (t sp entry : Nat) :
    Starts (setRegisters mem t sp entry) t sp entry := by
  have hlen := length_le64
  unfold setRegisters
  refine ⟨?_, ?_, Mem.holds_store _ _ _⟩
  · refine (Mem.holds_store mem (t + 120) (le64 sp)).congr (fun x h₁ _ => ?_)
    rw [Mem.store_of_notMem (by rw [hlen]; omega), Mem.store_of_notMem (by rw [hlen]; omega)]
  · refine (Mem.holds_store (mem.store (t + 120) (le64 sp)) (t + 24) (le64 entry)).congr
      (fun x h₁ h₂ => ?_)
    rw [hlen] at h₂
    exact Mem.store_of_notMem (by rw [hlen]; omega)

theorem Starts.congr {sp entry : Nat} (h : Starts mem t sp entry)
    (heq : ∀ x, Block.has (t, PGSIZE) x → mem' x = mem x) : Starts mem' t sp entry := by
  have hin : ∀ off, off ≤ 120 → ∀ x, t + off ≤ x → x < t + off + 8 →
      mem' x = mem x := by
    intro off hoff x h₁ h₂
    refine heq x ?_
    simp only [Block.has, PGSIZE]
    omega
  exact ⟨h.a1.congr (hin 120 (by decide)), h.epc.congr (hin 24 (by decide)),
    h.sp.congr (hin 48 (by decide))⟩

theorem setRegisters_of_notMem {sp entry x : Nat} (hx : ¬ Block.has (t, PGSIZE) x) :
    setRegisters mem t sp entry x = mem x := by
  simp only [Block.has, PGSIZE] at hx
  unfold setRegisters
  rw [Mem.store_of_notMem (by rw [length_le64]; omega),
    Mem.store_of_notMem (by rw [length_le64]; omega),
    Mem.store_of_notMem (by rw [length_le64]; omega)]

namespace Ledger

theorem untaken (h : Ledger trampoline c₀ s₀ held y) (hS : Stock kend c₀ s₀)
    (hp : y.proc[i]? = some p) (hL : Process trampoline y.k.mem p pt t u) (nextpid : BitVec 32)
    (hN : Untaken y.k k') :
    Ledger trampoline c₀ s₀ held ⟨k', y.proc.set i p, nextpid⟩ ∧
      Turn held y ⟨k', y.proc.set i p, nextpid⟩ i ∧
      ∀ x, Covers p.small p.super x → k'.mem x = y.k.mem x := by
  have hmem : ∀ x, Covers p.small p.super x → k'.mem x = y.k.mem x := by
    intro x hx
    refine hN.mem x (fun hs => hS.disjoint (fun f => ?_) (fun f => ?_) hx hs.covers)
    · have := (h.slot_le hp f).1
      omega
    · have := (h.slot_le hp f).2
      omega
  suffices hturn : Ledger trampoline c₀ s₀ held ⟨k', y.proc.set i p, nextpid⟩ ∧
      Turn held y ⟨k', y.proc.set i p, nextpid⟩ i from ⟨hturn.1, hturn.2, hmem⟩
  refine h.turn hS hp nextpid (fun x => by rw [hN.small]) (fun x => by rw [hN.super])
    (fun x hx => hN.mem x (fun hs => hx (hs.covers.mono (fun f => ?_) (fun f => ?_))))
    (.inr ⟨pt, t, u, hL.congr hmem⟩)
  · exact Nat.le_add_right _ _
  · exact Nat.le_add_right _ _

/-- The old table, over the free pages that a new one has left. -/
theorem beside (h : Ledger trampoline c₀ s₀ held y) (hS : Stock kend c₀ s₀)
    (hp : y.proc[i]? = some p) (hL : Process trampoline y.k.mem p pt t u) {k₁ : Kernel}
    {new : PageTable} (hMade : Made kend y.k k₁ new) (mem : Mem) :
    Kept kend ⟨{ k₁ with mem := mem }, pt, [], []⟩ := by
  refine ⟨hL.tree, hL.rooted, hL.range, hL.first, fun x hx => hS.small x (lt_of_lt_of_le hx ?_),
    fun x hx => hS.super x (lt_of_lt_of_le hx ?_)⟩
  · have h₁ := (h.slot_le hp x).1
    have h₂ := hMade.small x
    rw [hL.small] at h₁
    simp only [Books.small, List.count_nil] at h₂ ⊢
    omega
  · have h₁ := (h.slot_le hp x).2
    have h₂ := hMade.super x
    rw [hL.super] at h₁
    simp only [Books.super, List.count_nil] at h₂ ⊢
    omega

/-- **The commit**: a table made of free pages takes the place of the old one, which goes. -/
theorem commit (h : Ledger trampoline c₀ s₀ held y) (hS : Stock kend c₀ s₀)
    (hp : y.proc[i]? = some p) (hL : Process trampoline y.k.mem p pt t u) (nextpid : BitVec 32)
    {k₁ : Kernel} {new : PageTable} {sp argc : Nat} {elf : Elf} (hMade : Made kend y.k k₁ new)
    (hF : Fixed new trampoline t u) (himage : Image new sz) (hsp : sz - PGSIZE ≤ sp)
    (hfree : proc_freepagetable kend { k₁ with mem := setRegisters k₁.mem t sp elf.entry } pt
      p.sz = .ok k') (hp' : { p with name := name, pagetable := some new, sz := sz } = p') :
    Ledger trampoline c₀ s₀ held ⟨k', y.proc.set i p', nextpid⟩ ∧
      Turn held y ⟨k', y.proc.set i p', nextpid⟩ i ∧ Execed y.k k' p p' (some elf) argc argc := by
  have hsmall := fun x => hMade.small x
  have hsuper := fun x => hMade.super x
  simp only [Books.small, Books.super, List.count_nil] at hsmall hsuper
  have hK := h.beside hS hp hL hMade (setRegisters k₁.mem t sp elf.entry)
  have hR := hK.proc_freepagetable (hL.fixed.top hL.tree) hL.size hfree
  have hfreed := hR.small
  have hsuperfreed := hR.super
  simp only [Books.small, Books.super, List.count_nil] at hfreed hsuperfreed
  -- freeing the old table concerns neither the trapframe nor the page of `usyscall`
  have hspares : ∀ f, f = t ∨ f = u → ∀ x, Block.has (f, PGSIZE) x →
      k'.mem x = setRegisters k₁.mem t sp elf.entry x := by
    intro f hf x hx
    refine hR.mem x (hS.page_apart (fun g => ?_) (fun g => ?_) hx)
    · have h₁ := (h.slot_le hp g).1
      have h₂ := hsmall g
      rw [hL.small] at h₁
      simp only [Books.small, List.count_nil]
      rcases hf with rfl | rfl <;> omega
    · have h₁ := (h.slot_le hp g).2
      have h₂ := hsuper g
      rw [hL.super] at h₁
      simp only [Books.super, List.count_nil]
      omega
  have hmem : ∀ x, ¬ Covers (fun f => y.k.freelist.count f + p.small f)
      (fun f => y.k.superfreelist.count f + p.super f) x → k'.mem x = y.k.mem x := by
    intro x hx
    rw [hR.mem x (fun ho => hx (Covers.mono ho (fun f => ?_) (fun f => ?_)))]
    · show setRegisters k₁.mem t sp elf.entry x = y.k.mem x
      rw [setRegisters_of_notMem (fun hin => hx (.inl ⟨t, ?_, hin⟩)),
        hMade.mem x (fun hs => hx (hs.covers.mono (fun f => Nat.le_add_right _ _)
          (fun f => Nat.le_add_right _ _)))]
      · have := hL.small t
        rw [if_pos rfl] at this
        show 0 < y.k.freelist.count t + p.small t
        omega
    · have h₂ := hsmall f
      rw [hL.small]
      simp only [Books.small, List.count_nil]
      omega
    · have h₂ := hsuper f
      rw [hL.super]
      simp only [Books.super, List.count_nil]
      omega
  have hpage : ∀ x, Block.has (u, PGSIZE) x → k'.mem x = y.k.mem x := by
    intro x hx
    obtain ⟨ht, hu, hne⟩ := h.aligned hS hp hL
    rw [hspares u (.inr rfl) x hx,
      setRegisters_of_notMem (fun hin => hne (ht.eq_of_has hu hin hx)), hMade.mem x ?_]
    refine fun hs => hS.page_apart (fun f => ?_) (fun f => ?_) hx hs.covers
    · have := (h.slot_le hp f).1
      rw [hL.small] at this
      omega
    · have := (h.slot_le hp f).2
      omega
  subst hp'
  have htab : tableAt new 0 = true := by
    refine himage.layout.first_table hMade.kept.tree ?_ hMade.kept.first
    have := himage.two
    simp only [PGSIZE, pages] at this ⊢
    omega
  have hL' : Process trampoline k'.mem { p with name := name, pagetable := some new, sz := sz }
      new t u :=
    ⟨hL.state, hL.trapframe, hL.usyscall, rfl, hMade.kept.tree, hMade.kept.rooted,
      hMade.kept.range, hMade.kept.first, himage.low.trans (by decide), fun _ => htab, hF,
      hL.pid.congr hpage⟩
  have hcount : ∀ x, k'.freelist.count x +
      Slot.small { p with name := name, pagetable := some new, sz := sz } x =
      y.k.freelist.count x + p.small x := by
    intro x
    have h₁ := hsmall x
    have h₂ := hfreed x
    rw [hL.small, hL'.small]
    omega
  have hsupercount : ∀ x, k'.superfreelist.count x +
      Slot.super { p with name := name, pagetable := some new, sz := sz } x =
      y.k.superfreelist.count x + p.super x := by
    intro x
    have h₁ := hsuper x
    have h₂ := hsuperfreed x
    rw [hL.super, hL'.super]
    omega
  obtain ⟨h₁, h₂⟩ := h.turn hS hp nextpid hcount hsupercount hmem (.inr ⟨new, t, u, hL'⟩)
  refine ⟨h₁, h₂, fun hneg => absurd hneg (by omega), fun _ => ⟨rfl, elf, rfl, ⟨new, rfl, himage⟩,
    ⟨t, sp, hL.trapframe, hsp, (setRegisters_starts _ _ _ _).congr (hspares t (.inl rfl))⟩,
    fun old hold f hf => ?_, fun old hold f hf => ?_⟩, hcount, hsupercount⟩
  · obtain rfl := Option.some.inj (hL.pagetable.symm.trans hold)
    have := hfreed f
    exact List.count_pos_iff.mp (by omega)
  · obtain rfl := Option.some.inj (hL.pagetable.symm.trans hold)
    have := hsuperfreed f
    exact List.count_pos_iff.mp (by omega)

/-- **`exec`** of a program below 2 MB. -/
theorem exec (h : Ledger trampoline c₀ s₀ held y) (hS : Stock kend c₀ s₀)
    (hp : y.proc[i]? = some p) (hL : Process trampoline y.k.mem p pt t u) (hI : L.Inside)
    {path : List UInt8} {elf : Option Elf} (helf : ∀ e, elf = some e → e.Low)
    {argv : List Bytes} {ret : Int} (nextpid : BitVec 32)
    (hok : Super.exec kend L trampoline y.k p path elf argv = .ok (k', p', ret)) :
    Ledger trampoline c₀ s₀ held ⟨k', y.proc.set i p', nextpid⟩ ∧
      Turn held y ⟨k', y.proc.set i p', nextpid⟩ i ∧ Execed y.k k' p p' elf argv.length ret ∧
      p'.state = p.state ∧ p'.pid = p.pid := by
  obtain ⟨hsort, -, -⟩ := h.sorted hS
  have hsame : ∀ {k₁ : Kernel}, Untaken y.k k₁ →
      Ledger trampoline c₀ s₀ held ⟨k₁, y.proc.set i p, nextpid⟩ ∧
      Turn held y ⟨k₁, y.proc.set i p, nextpid⟩ i ∧ Execed y.k k₁ p p elf argv.length (-1) ∧
      p.state = p.state ∧ p.pid = p.pid := by
    intro k₁ hN
    obtain ⟨h₁, h₂, -⟩ := h.untaken hS hp hL nextpid hN
    exact ⟨h₁, h₂, hN.execed p elf _, rfl, rfl⟩
  unfold Super.exec at hok
  split at hok
  · simp only [Except.ok.injEq, Prod.mk.injEq] at hok
    obtain ⟨rfl, rfl, rfl⟩ := hok
    exact hsame ⟨fun _ => rfl, fun _ => rfl, fun _ _ => rfl⟩
  rename_i elf
  have hlow := helf elf rfl
  split at hok
  swap
  · cases hok
  rename_i t₁ u₁ old e₁ e₂ e₃
  obtain rfl := Option.some.inj (hL.trapframe.symm.trans e₁)
  obtain rfl := Option.some.inj (hL.usyscall.symm.trans e₂)
  obtain rfl := Option.some.inj (hL.pagetable.symm.trans e₃)
  split at hok
  · cases hok
  · rename_i k₁ htable
    obtain ⟨-, hN⟩ | ⟨pt, hsome, -⟩ := proc_pagetable_made hsort htable
    · simp only [Except.ok.injEq, Prod.mk.injEq] at hok
      obtain ⟨rfl, rfl, rfl⟩ := hok
      exact hsame hN
    · cases hsome
  rename_i k₁ new htable
  obtain ⟨hnone, -⟩ | ⟨new', hsome, hMade, hF, hlay⟩ := proc_pagetable_made hsort htable
  · cases hnone
  obtain rfl := Option.some.inj hsome
  split at hok
  · cases hok
  · -- the new image goes
    rename_i k₂ new₂ sz himage
    obtain ⟨hM, hsz, -⟩ := hMade.kept.execImage hI hlow hF hlay himage
    split at hok
    · cases hok
    rename_i k₃ hfree
    simp only [Except.ok.injEq, Prod.mk.injEq] at hok
    obtain ⟨rfl, rfl, rfl⟩ := hok
    have hM₂ := hMade.moves hM
    have htop := (hF.moves hM).top hM.kept.tree
    refine hsame (hM₂.untaken (hM.kept.proc_freepagetable htop ?_ hfree))
    simp only [SUPERPGSIZE] at hsz
    omega
  · -- the old image goes
    rename_i k₂ new₂ sz sp argc himage
    obtain ⟨hM, -, hbuilt⟩ := hMade.kept.execImage hI hlow hF hlay himage
    obtain ⟨himg, hsp, rfl⟩ := hbuilt sp argc rfl
    simp only at hok
    split at hok
    · cases hok
    rename_i k₃ hfree
    simp only [Except.ok.injEq, Prod.mk.injEq] at hok
    obtain ⟨rfl, rfl, rfl⟩ := hok
    obtain ⟨h₁, h₂, hE⟩ := h.commit hS hp hL nextpid (hMade.moves hM) (hF.moves hM) himg hsp
      hfree rfl
    exact ⟨h₁, h₂, hE, rfl, rfl⟩

end Ledger

end Xv6Labs.Super
