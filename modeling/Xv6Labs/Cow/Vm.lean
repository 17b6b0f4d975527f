import Xv6Labs.Cow.Kalloc

/-!
# Copy-on-write: page tables, `uvmcopy`, `cowhandle`, `copyout`, page faults

`vm.c`, `cowhandle` of `proc.c` and the page-fault branch of `usertrap`, over
the stock `walk`, `mappages` and `uvmunmap`. A panic is an `Except` error with
its message; C return codes are `Int`s.
-/

namespace Xv6Labs.Cow

open Xv6Labs.Lib

/-! ## Stock `walk`, `mappages`, `uvmunmap` -/

/-- One round of the loop of `walk`: step through the entry at `level`, or
allocate the table below it. `false` is `return 0`. -/
def walkLevel (km : Kmem) (pt : PageTable) (va : Nat) (alloc : Bool)
    (level : Nat) : Kmem × PageTable × Bool :=
  if (pt.ent level (vpn level va)).v then (km, pt, true)
  else if alloc then
    match kalloc km with
    | (none, km) => (km, pt, false)
    | (some r, km) =>
        ({ km with mem := km.mem.fill r PGSIZE 0 },
          pt.newTable level (vpn level va) r { v := true }, true)
  else (km, pt, false)

/-- `walk` returns the path of the level-0 entry, `none` for the null
pointer. -/
def walk (km : Kmem) (pt : PageTable) (va : Nat) (alloc : Bool) :
    Except String (Kmem × PageTable × Option Nat) :=
  if MAXVA ≤ va then .error "walk"
  else
    match walkLevel km pt va alloc 2 with
    | (km, pt, false) => .ok (km, pt, none)
    | (km, pt, true) =>
        match walkLevel km pt va alloc 1 with
        | (km, pt, false) => .ok (km, pt, none)
        | (km, pt, true) => .ok (km, pt, some (vpn 0 va))

/-- What `walk` finds without allocating. -/
def lookup (pt : PageTable) (va : Nat) : Option Nat :=
  if (pt.ent 2 (vpn 2 va)).v && (pt.ent 1 (vpn 1 va)).v then some (vpn 0 va)
  else none

def mappagesLoop (km : Kmem) (pt : PageTable) (a pa : Nat) (perm : Flags) :
    Nat → Except String (Kmem × PageTable × Int)
  | 0 => .ok (km, pt, 0)
  | n + 1 =>
      match walk km pt a true with
      | .error e => .error e
      | .ok (km, pt, none) => .ok (km, pt, -1)
      | .ok (km, pt, some k) =>
          if (pt.ent 0 k).v then .error "mappages: remap"
          else
            mappagesLoop km (pt.set 0 k (PA2PTE pa { perm with v := true }))
              (a + PGSIZE) (pa + PGSIZE) perm n

def mappages (km : Kmem) (pt : PageTable) (va size pa : Nat) (perm : Flags) :
    Except String (Kmem × PageTable × Int) :=
  if va % PGSIZE ≠ 0 then .error "mappages: va not aligned"
  else if size % PGSIZE ≠ 0 then .error "mappages: size not aligned"
  else if size = 0 then .error "mappages: size"
  else mappagesLoop km pt va pa perm (size / PGSIZE)

def uvmunmapLoop (kend : Nat) (km : Kmem) (pt : PageTable) (a : Nat)
    (doFree : Bool) : Nat → Except String (Kmem × PageTable)
  | 0 => .ok (km, pt)
  | n + 1 =>
      match walk km pt a false with
      | .error e => .error e
      | .ok (_, _, none) => .error "uvmunmap: walk"
      | .ok (_, _, some k) =>
          if (pt.ent 0 k).v = false then .error "uvmunmap: not mapped"
          else if (pt.ent 0 k).toFlags = { v := true } then
            .error "uvmunmap: not a leaf"
          else if doFree then
            match kfree kend km (PTE2PA (pt.ent 0 k)) with
            | .error e => .error e
            | .ok km =>
                uvmunmapLoop kend km (pt.set 0 k .zero) (a + PGSIZE) doFree n
          else uvmunmapLoop kend km (pt.set 0 k .zero) (a + PGSIZE) doFree n

def uvmunmap (kend : Nat) (km : Kmem) (pt : PageTable) (va npages : Nat)
    (doFree : Bool) : Except String (Kmem × PageTable) :=
  if va % PGSIZE ≠ 0 then .error "uvmunmap: not aligned"
  else uvmunmapLoop kend km pt va doFree npages

/-- Stock `uvmalloc` for the page at `a`: 0 when the page is mapped, -1 when
memory ran out and the page was given back. -/
def uvmallocPage (kend : Nat) (km : Kmem) (pt : PageTable) (a : Nat)
    (w x : Bool) : Except String (Kmem × PageTable × Int) :=
  match kalloc km with
  | (none, km) => .ok (km, pt, -1)
  | (some mem, km) =>
      let km := { km with mem := km.mem.fill mem PGSIZE 0 }
      match mappages km pt a PGSIZE mem { r := true, u := true, w := w, x := x } with
      | .error e => .error e
      | .ok (km, pt, ret) =>
          if ret ≠ 0 then
            match kfree kend km mem with
            | .error e => .error e
            | .ok km => .ok (km, pt, -1)
          else .ok (km, pt, 0)

/-- Stock `uvmcreate`: `none` when memory ran out. -/
def uvmcreate (km : Kmem) : Kmem × Option PageTable :=
  match kalloc km with
  | (none, km) => (km, none)
  | (some r, km) => ({ km with mem := km.mem.fill r PGSIZE 0 }, some (.empty r))

/-- Stock `uvmdealloc`; the last component is the new size. -/
def uvmdealloc (kend : Nat) (km : Kmem) (pt : PageTable) (oldsz newsz : Nat) :
    Except String (Kmem × PageTable × Nat) :=
  if oldsz ≤ newsz then .ok (km, pt, oldsz)
  else if PGROUNDUP newsz < PGROUNDUP oldsz then
    match uvmunmap kend km pt (PGROUNDUP newsz)
      ((PGROUNDUP oldsz - PGROUNDUP newsz) / PGSIZE) true with
    | .error e => .error e
    | .ok (km, pt) => .ok (km, pt, newsz)
  else .ok (km, pt, newsz)

/-- `for(int i = 0; i < 512; i++)`, over the entries of a table. -/
@[irreducible] def forEntries (f : Kmem → Nat → Except String Kmem) (km : Kmem) :
    Except String Kmem :=
  (List.range 512).foldlM f km

/-- Stock `freewalk` of the table `page` at `level` on `path`: the tables below
it first, then the page itself. Every valid level-0 entry is a leaf. -/
def freewalk (kend : Nat) (pt : PageTable) :
    (level path page : Nat) → Kmem → Except String Kmem
  | 0, path, page, km =>
      match forEntries (fun km i =>
        if (pt.ent 0 (path * 512 + i)).v then .error "freewalk: leaf" else .ok km) km with
      | .error e => .error e
      | .ok km => kfree kend km page
  | level + 1, path, page, km =>
      match forEntries (fun km i =>
        let pte := pt.ent (level + 1) (path * 512 + i)
        if pte.v && !pte.leaf then
          freewalk kend pt level (path * 512 + i) (PTE2PA pte) km
        else if pte.v then .error "freewalk: leaf"
        else .ok km) km with
      | .error e => .error e
      | .ok km => kfree kend km page

/-- Stock `uvmfree`; the root is the last of the table pages. -/
def uvmfree (kend : Nat) (km : Kmem) (pt : PageTable) (sz : Nat) : Except String Kmem :=
  match if sz > 0 then uvmunmap kend km pt 0 (PGROUNDUP sz / PGSIZE) true
    else .ok (km, pt) with
  | .error e => .error e
  | .ok (km, pt) => freewalk kend pt 2 0 (pt.tables.getLastD 0) km

/-! ## `uvmcopy` -/

/-- `flags &= (~PTE_W)`, `flags |= PTE_COW`. -/
def cowFlags (flags : Flags) : Flags := { flags with w := false, cow := true }

/-- The loop of `uvmcopy` at `i`, with `n` pages to go. The parent's entry is
rewritten before the child is given the page, the count raised after it. -/
def uvmcopyLoop (kend : Nat) (km : Kmem) (old new : PageTable) (i : Nat) :
    Nat → Except String (Kmem × PageTable × PageTable × Int)
  | 0 => .ok (km, old, new, 0)
  | n + 1 =>
      match walk km old i false with
      | .error e => .error e
      | .ok (_, _, none) => .error "uvmcopy: pte should exist"
      | .ok (_, _, some k) =>
          if (old.ent 0 k).v = false then .error "uvmcopy: page not present"
          else
            let pa := PTE2PA (old.ent 0 k)
            let flags := cowFlags (old.ent 0 k).toFlags
            let old := old.set 0 k (PA2PTE pa flags)
            match mappages km new i PGSIZE pa flags with
            | .error e => .error e
            | .ok (km, new, ret) =>
                if ret ≠ 0 then
                  match uvmunmap kend km new 0 (i / PGSIZE) true with
                  | .error e => .error e
                  | .ok (km, new) => .ok (km, old, new, -1)
                else uvmcopyLoop kend (refcadd km pa) old new (i + PGSIZE) n

/-- `for(i = 0; i < sz; i += PGSIZE)` runs `PGROUNDUP(sz) / PGSIZE` times. -/
def uvmcopy (kend : Nat) (km : Kmem) (old new : PageTable) (sz : Nat) :
    Except String (Kmem × PageTable × PageTable × Int) :=
  uvmcopyLoop kend km old new 0 (PGROUNDUP sz / PGSIZE)

/-! ## `cowhandle` and its callers -/

def cowhandle (kend : Nat) (km : Kmem) (pt : PageTable) (va : Nat) :
    Except String (Kmem × PageTable × Int) :=
  match walk km pt va false with
  | .error e => .error e
  | .ok (_, _, none) => .ok (km, pt, -1)
  | .ok (_, _, some k) =>
      let pte := pt.ent 0 k
      if pte.v = false ∨ pte.cow = false then .ok (km, pt, -1)
      -- usertests nowrite
      else if va = 0 then .ok (km, pt, -1)
      else
        let pa := PTE2PA pte
        match kalloc km with
        | (none, km) => .ok (km, pt, -1)
        | (some mem, km) =>
            let km := { km with mem := km.mem.copy mem pa PGSIZE }
            let flags := { pte.toFlags with cow := false, w := true }
            let pt := pt.set 0 k (PA2PTE mem flags)
            match kfree kend km pa with
            | .error e => .error e
            | .ok km => .ok (km, pt, 0)

/-- One round of the loop of `copyout`, up to the choice of `pa0`: `none` when
the round returns -1. -/
def copyoutPage (kend : Nat) (km : Kmem) (pt : PageTable) (va0 : Nat) :
    Except String (Kmem × PageTable × Option Nat) :=
  if MAXVA ≤ va0 then .ok (km, pt, none)
  else
    match walk km pt va0 false with
    | .error e => .error e
    | .ok (_, _, none) => .ok (km, pt, none)
    | .ok (_, _, some k) =>
        if (pt.ent 0 k).u = false ∨ (pt.ent 0 k).v = false then .ok (km, pt, none)
        else if (pt.ent 0 k).cow then
          if va0 = 0 then .ok (km, pt, none)
          else
            match cowhandle kend km pt va0 with
            | .error e => .error e
            | .ok (km, pt, ret) =>
                if ret ≠ 0 then .ok (km, pt, none)
                else
                  match walk km pt va0 false with
                  | .error e => .error e
                  -- cowhandle has just stored through this entry
                  | .ok (_, _, none) => .error "copyout: null pte"
                  | .ok (_, _, some k) => .ok (km, pt, some (PTE2PA (pt.ent 0 k)))
        else .ok (km, pt, some (PTE2PA (pt.ent 0 k)))

/-- `copyout`. The bytes still to copy stand for `src` and `len`; the result
carries the return code and the bytes left uncopied when it returns. -/
def copyout (kend : Nat) (km : Kmem) (pt : PageTable) (dstva : Nat)
    (src : List UInt8) : Except String (Kmem × PageTable × Int × List UInt8) :=
  if src.length = 0 then .ok (km, pt, 0, [])
  else
    let va0 := PGROUNDDOWN dstva
    match copyoutPage kend km pt va0 with
    | .error e => .error e
    | .ok (km, pt, none) => .ok (km, pt, -1, src)
    | .ok (km, pt, some pa0) =>
        let n := min (PGSIZE - (dstva - va0)) src.length
        let km := { km with mem := km.mem.store (pa0 + (dstva - va0)) (src.take n) }
        copyout kend km pt (va0 + PGSIZE) (src.drop n)
termination_by src.length
decreasing_by
  simp only [List.length_drop, PGROUNDDOWN, PGSIZE]
  omega

/-- The page-fault branch of `usertrap` (scause 12, 13, 15): the fault address
`va` and the saved user `sp` are 64-bit values. The flag says whether the
process has been marked killed. -/
def pagefault (kend : Nat) (km : Kmem) (pt : PageTable) (va sp : Nat) :
    Except String (Kmem × PageTable × Bool) :=
  let up := PGROUNDDOWN sp
  let down := (up + 2 ^ 64 - PGSIZE) % 2 ^ 64
  if MAXVA ≤ va ∨ (down ≤ va ∧ va ≤ up) then .ok (km, pt, true)
  else
    match cowhandle kend km pt va with
    | .error e => .error e
    | .ok (km, pt, ret) => .ok (km, pt, ret ≠ 0)

/-! ## `walk` without allocation -/

theorem walkLevel_noalloc (km : Kmem) (pt : PageTable) (va level : Nat) :
    walkLevel km pt va false level = (km, pt, (pt.ent level (vpn level va)).v) := by
  unfold walkLevel
  cases h : (pt.ent level (vpn level va)).v <;> simp

theorem walk_noalloc {km : Kmem} {pt : PageTable} {va : Nat} (h : va < MAXVA) :
    walk km pt va false = .ok (km, pt, lookup pt va) := by
  have hva : ¬ MAXVA ≤ va := by omega
  simp only [walk, if_neg hva, walkLevel_noalloc, lookup]
  cases h2 : (pt.ent 2 (vpn 2 va)).v <;>
    cases h1 : (pt.ent 1 (vpn 1 va)).v <;> simp [h1]

theorem lookup_eq_some {pt : PageTable} {va k : Nat} :
    lookup pt va = some k ↔ (pt.ent 2 (vpn 2 va)).v = true ∧
      (pt.ent 1 (vpn 1 va)).v = true ∧ k = vpn 0 va := by
  unfold lookup
  split
  · rename_i h
    rw [Bool.and_eq_true] at h
    simp only [Option.some.injEq, h.1, h.2, true_and]
    exact eq_comm
  · rename_i h
    rw [Bool.and_eq_true] at h
    simp only [reduceCtorEq, false_iff]
    exact fun hh => h ⟨hh.1, hh.2.1⟩

theorem lookup_set (pt : PageTable) (k : Nat) (e : Pte) (va : Nat) :
    lookup (pt.set 0 k e) va = lookup pt va := by
  simp [lookup]

/-! ## Inversion: what one call can do -/

theorem walk_false_ok {km km' : Kmem} {pt pt' : PageTable} {va : Nat}
    {r : Option Nat} (h : walk km pt va false = .ok (km', pt', r)) :
    va < MAXVA ∧ km' = km ∧ pt' = pt ∧ r = lookup pt va := by
  by_cases hva : va < MAXVA
  · rw [walk_noalloc hva] at h
    injection h with h
    simp only [Prod.mk.injEq] at h
    exact ⟨hva, h.1.symm, h.2.1.symm, h.2.2.symm⟩
  · have hge : MAXVA ≤ va := by omega
    simp [walk, if_pos hge] at h

/-- `mappages` of one page is `walk` and one store. -/
theorem mappages_page {km : Kmem} {pt : PageTable} {va pa : Nat} {perm : Flags}
    (hva : va % 4096 = 0) :
    mappages km pt va PGSIZE pa perm =
      match walk km pt va true with
      | .error e => .error e
      | .ok (km, pt, none) => .ok (km, pt, -1)
      | .ok (km, pt, some k) =>
          if (pt.ent 0 k).v then .error "mappages: remap"
          else .ok (km, pt.set 0 k (PA2PTE pa { perm with v := true }), 0) := by
  simp [mappages, PGSIZE, hva, mappagesLoop]

/-- **`cowhandle`, inverted.** It refuses and changes nothing, or it moves the
entry to a fresh copy of the page and gives the old page back. -/
theorem cowhandle_cases {kend : Nat} {km km' : Kmem} {pt pt' : PageTable}
    {va : Nat} {ret : Int}
    (h : cowhandle kend km pt va = .ok (km', pt', ret)) :
    va < MAXVA ∧
    ((ret = -1 ∧ km' = km ∧ pt' = pt ∧
        (lookup pt va = none ∨
          (lookup pt va = some (vpn 0 va) ∧
            ((pt.ent 0 (vpn 0 va)).v = false ∨ (pt.ent 0 (vpn 0 va)).cow = false ∨
              va = 0 ∨ km.freelist = [])))) ∨
      (ret = 0 ∧ lookup pt va = some (vpn 0 va) ∧
        (pt.ent 0 (vpn 0 va)).v = true ∧ (pt.ent 0 (vpn 0 va)).cow = true ∧
        va ≠ 0 ∧
        ∃ mem km₁, kalloc km = (some mem, km₁) ∧
          pt' = pt.set 0 (vpn 0 va) (PA2PTE mem
            { (pt.ent 0 (vpn 0 va)).toFlags with cow := false, w := true }) ∧
          kfree kend { km₁ with
              mem := km₁.mem.copy mem (PTE2PA (pt.ent 0 (vpn 0 va))) PGSIZE }
            (PTE2PA (pt.ent 0 (vpn 0 va))) = .ok km')) := by
  unfold cowhandle at h
  split at h
  · cases h
  · rename_i hw
    obtain ⟨hva, -, -, hl⟩ := walk_false_ok hw
    injection h with h
    simp only [Prod.mk.injEq] at h
    exact ⟨hva, .inl ⟨h.2.2.symm, h.1.symm, h.2.1.symm, .inl hl.symm⟩⟩
  · rename_i k hw
    obtain ⟨hva, -, -, hl⟩ := walk_false_ok hw
    obtain rfl : k = vpn 0 va := (lookup_eq_some.mp hl.symm).2.2
    refine ⟨hva, ?_⟩
    simp only at h
    split at h
    · rename_i hflag
      injection h with h
      simp only [Prod.mk.injEq] at h
      refine .inl ⟨h.2.2.symm, h.1.symm, h.2.1.symm, .inr ⟨hl.symm, ?_⟩⟩
      exact hflag.imp_right .inl
    · rename_i hflag
      split at h
      · rename_i hz
        injection h with h
        simp only [Prod.mk.injEq] at h
        exact .inl ⟨h.2.2.symm, h.1.symm, h.2.1.symm,
          .inr ⟨hl.symm, .inr (.inr (.inl hz))⟩⟩
      · rename_i hz
        split at h
        · rename_i km₁ hk
          have hkm := kalloc_eq_none hk
          have hempty : km.freelist = [] := by
            cases hf : km.freelist with
            | nil => rfl
            | cons r rest => simp [kalloc, hf] at hk
          injection h with h
          simp only [Prod.mk.injEq] at h
          exact .inl ⟨h.2.2.symm, h.1.symm.trans hkm, h.2.1.symm,
            .inr ⟨hl.symm, .inr (.inr (.inr hempty))⟩⟩
        · rename_i mem km₁ hk
          split at h
          · cases h
          · rename_i km₂ hf
            injection h with h
            simp only [Prod.mk.injEq] at h
            obtain ⟨rfl, rfl, rfl⟩ := h
            have hv : (pt.ent 0 (vpn 0 va)).v = true := by
              simpa using fun hh => hflag (.inl hh)
            have hc : (pt.ent 0 (vpn 0 va)).cow = true := by
              simpa using fun hh => hflag (.inr hh)
            exact .inr ⟨rfl, hl.symm, hv, hc, hz, mem, km₁, hk, rfl, hf⟩

end Xv6Labs.Cow
