import Xv6Labs.Lib.Mem
import Xv6Labs.Riscv

/-!
# Superpages: the kernel

The superpage lab: `kalloc.c` with its second free list, `walk` and `superwalk`,
`mappages` and `supermappages`, `uvmunmap`, `uvmcopy`, `uvmalloc`,
`sbrksuperuvmalloc`, `proc_pagetable`, and `growproc` with the layout record of
`struct proc`, over the stock `uvmcreate`, `uvmdealloc`, `uvmfree` and `freewalk`.

A panic is an `Except` error with its message. A read or write of `record`
outside its 10000 entries is an error too: the C program has no defined
behaviour there.
-/

namespace Xv6Labs.Super

open Xv6Labs.Lib

/-! ## `kalloc.c` -/

structure Kernel where
  /-- `kmem.freelist` -/
  freelist : List Nat
  /-- `superkmem.freelist` -/
  superfreelist : List Nat
  mem : Mem

def kfree (kend : Nat) (k : Kernel) (pa : Nat) : Except String Kernel :=
  if pa % PGSIZE ≠ 0 ∨ pa < kend ∨ PHYSTOP ≤ pa then .error "kfree"
  else .ok { k with
    mem := k.mem.fill pa PGSIZE 1
    freelist := pa :: k.freelist }

def superkfree (kend : Nat) (k : Kernel) (pa : Nat) : Except String Kernel :=
  if pa % SUPERPGSIZE ≠ 0 then .error "superkfree invalid page alignment"
  else if pa < kend then .error "superkfree address below kernel end"
  else if PHYSTOP ≤ pa then .error "superkfree address beyond physical memory"
  else .ok { k with
    mem := k.mem.fill pa SUPERPGSIZE 1
    superfreelist := pa :: k.superfreelist }

def kalloc (k : Kernel) : Option Nat × Kernel :=
  match k.freelist with
  | [] => (none, k)
  | r :: rest => (some r, { k with freelist := rest, mem := k.mem.fill r PGSIZE 5 })

def superkalloc (k : Kernel) : Option Nat × Kernel :=
  match k.superfreelist with
  | [] => (none, k)
  | r :: rest =>
      (some r, { k with superfreelist := rest, mem := k.mem.fill r SUPERPGSIZE 7 })

/-! ## `walk` and `superwalk` -/

abbrev PtePtr := Nat × Nat

/-- What one round of the loop of `walk` does: return this entry, go on below
it, or return the null pointer. -/
inductive Descent where
  | found
  | below
  | null

/-- The round at `level`. An entry with `PTE_S`, or a leaf, is returned. -/
def walkLevel (k : Kernel) (pt : PageTable) (va : Nat) (alloc : Bool)
    (level : Nat) : Kernel × PageTable × Descent :=
  let pte := pt.ent level (vpn level va)
  if pte.v then
    if pte.s || pte.leaf then (k, pt, .found) else (k, pt, .below)
  else if alloc then
    match kalloc k with
    | (none, k) => (k, pt, .null)
    | (some r, k) =>
        ({ k with mem := k.mem.fill r PGSIZE 0 },
          pt.newTable level (vpn level va) r { v := true }, .below)
  else (k, pt, .null)

def walk (k : Kernel) (pt : PageTable) (va : Nat) (alloc : Bool) :
    Except String (Kernel × PageTable × Option PtePtr) :=
  if MAXVA ≤ va then .error "walk"
  else
    match walkLevel k pt va alloc 2 with
    | (k, pt, .null) => .ok (k, pt, none)
    | (k, pt, .found) => .ok (k, pt, some (2, vpn 2 va))
    | (k, pt, .below) =>
        match walkLevel k pt va alloc 1 with
        | (k, pt, .null) => .ok (k, pt, none)
        | (k, pt, .found) => .ok (k, pt, some (1, vpn 1 va))
        | (k, pt, .below) => .ok (k, pt, some (0, vpn 0 va))

/-- `superwalk` steps through the level-2 entry whatever its flags are, and
takes a missing table from `superkalloc`, under `PTE_S`. -/
def superwalk (k : Kernel) (pt : PageTable) (va : Nat) (alloc : Bool) :
    Except String (Kernel × PageTable × Option PtePtr) :=
  if MAXVA ≤ va then .error "walk"
  else if (pt.ent 2 (vpn 2 va)).v then .ok (k, pt, some (1, vpn 1 va))
  else if alloc then
    match superkalloc k with
    | (none, k) => .ok (k, pt, none)
    | (some r, k) =>
        .ok ({ k with mem := k.mem.fill r SUPERPGSIZE 0 },
          pt.newTable 2 (vpn 2 va) r { v := true, s := true }, some (1, vpn 1 va))
  else .ok (k, pt, none)

/-! ## `mappages` and `supermappages` -/

def mappagesLoop (k : Kernel) (pt : PageTable) (a pa : Nat) (perm : Flags) :
    Nat → Except String (Kernel × PageTable × Int)
  | 0 => .ok (k, pt, 0)
  | n + 1 =>
      match walk k pt a true with
      | .error e => .error e
      | .ok (k, pt, none) => .ok (k, pt, -1)
      | .ok (k, pt, some (level, j)) =>
          if (pt.ent level j).v then .error "mappages: remap"
          else
            mappagesLoop k (pt.set level j (PA2PTE pa { perm with v := true }))
              (a + PGSIZE) (pa + PGSIZE) perm n

def mappages (k : Kernel) (pt : PageTable) (va size pa : Nat) (perm : Flags) :
    Except String (Kernel × PageTable × Int) :=
  if va % PGSIZE ≠ 0 then .error "mappages: va not aligned"
  else if size % PGSIZE ≠ 0 then .error "mappages: size not aligned"
  else if size = 0 then .error "mappages: size"
  else mappagesLoop k pt va pa perm (size / PGSIZE)

def supermappagesLoop (k : Kernel) (pt : PageTable) (a pa : Nat) (perm : Flags) :
    Nat → Except String (Kernel × PageTable × Int)
  | 0 => .ok (k, pt, 0)
  | n + 1 =>
      match superwalk k pt a true with
      | .error e => .error e
      | .ok (k, pt, none) => .ok (k, pt, -1)
      | .ok (k, pt, some (level, j)) =>
          if (pt.ent level j).v then .error "mappages: remap"
          else
            supermappagesLoop k
              (pt.set level j (PA2PTE pa { perm with v := true, s := true }))
              (a + SUPERPGSIZE) (pa + SUPERPGSIZE) perm n

def supermappages (k : Kernel) (pt : PageTable) (va size pa : Nat) (perm : Flags) :
    Except String (Kernel × PageTable × Int) :=
  if va % SUPERPGSIZE ≠ 0 then .error "super mappages: va not aligned"
  else if size % SUPERPGSIZE ≠ 0 then .error "super mappages: size not aligned"
  else if size = 0 then .error "super mappages: size"
  else supermappagesLoop k pt va pa perm (size / SUPERPGSIZE)

/-! ## `uvmunmap`, `uvmdealloc`, `uvmfree` -/

/-- The loop of `uvmunmap` from `a` up to `last`. It steps by the size of the
page it finds, so `last - a` in pages bounds the rounds. -/
def uvmunmapLoop (kend : Nat) (k : Kernel) (pt : PageTable) (a last : Nat)
    (doFree : Bool) : Nat → Except String (Kernel × PageTable)
  | 0 => .ok (k, pt)
  | n + 1 =>
      if a < last then
        match walk k pt a false with
        | .error e => .error e
        | .ok (_, _, none) => .error "uvmunmap: walk"
        | .ok (_, _, some (level, j)) =>
            let pte := pt.ent level j
            let sz := if pte.s then SUPERPGSIZE else PGSIZE
            if pte.v = false then .error "uvmunmap: not mapped"
            else if pte.toFlags = { v := true } then .error "uvmunmap: not a leaf"
            else if doFree then
              match if pte.s then superkfree kend k (PTE2PA pte)
                else kfree kend k (PTE2PA pte) with
              | .error e => .error e
              | .ok k =>
                  uvmunmapLoop kend k (pt.set level j .zero) (a + sz) last doFree n
            else uvmunmapLoop kend k (pt.set level j .zero) (a + sz) last doFree n
      else .ok (k, pt)

def uvmunmap (kend : Nat) (k : Kernel) (pt : PageTable) (va npages : Nat)
    (doFree : Bool) : Except String (Kernel × PageTable) :=
  if va % PGSIZE ≠ 0 then .error "uvmunmap: not aligned"
  else uvmunmapLoop kend k pt va (va + npages * PGSIZE) doFree npages

/-- Stock `uvmdealloc`; the last component is the new size. -/
def uvmdealloc (kend : Nat) (k : Kernel) (pt : PageTable) (oldsz newsz : Nat) :
    Except String (Kernel × PageTable × Nat) :=
  if oldsz ≤ newsz then .ok (k, pt, oldsz)
  else if PGROUNDUP newsz < PGROUNDUP oldsz then
    match uvmunmap kend k pt (PGROUNDUP newsz)
      ((PGROUNDUP oldsz - PGROUNDUP newsz) / PGSIZE) true with
    | .error e => .error e
    | .ok (k, pt) => .ok (k, pt, newsz)
  else .ok (k, pt, newsz)

@[irreducible] def forEntries (f : Kernel → Nat → Except String Kernel) (k : Kernel) :
    Except String Kernel :=
  (List.range 512).foldlM f k

/-- `freewalk` of the table `page` at `level` on path `path`: the tables below
it first, then the page itself. Every valid level-0 entry is a leaf. -/
def freewalk (kend : Nat) (pt : PageTable) :
    (level path page : Nat) → Kernel → Except String Kernel
  | 0, path, page, k =>
      match forEntries (fun k i =>
        if (pt.ent 0 (path * 512 + i)).v then .error "freewalk: leaf" else .ok k) k with
      | .error e => .error e
      | .ok k => kfree kend k page
  | level + 1, path, page, k =>
      match forEntries (fun k i =>
        let pte := pt.ent (level + 1) (path * 512 + i)
        if pte.v && !pte.leaf then
          freewalk kend pt level (path * 512 + i) (PTE2PA pte) k
        else if pte.v then .error "freewalk: leaf"
        else .ok k) k with
      | .error e => .error e
      | .ok k => kfree kend k page

/-- Stock `uvmfree`; the root is the last of the table pages. -/
def uvmfree (kend : Nat) (k : Kernel) (pt : PageTable) (sz : Nat) :
    Except String Kernel :=
  match if sz > 0 then uvmunmap kend k pt 0 (PGROUNDUP sz / PGSIZE) true
    else .ok (k, pt) with
  | .error e => .error e
  | .ok (k, pt) => freewalk kend pt 2 0 (pt.tables.getLastD 0) k

def TRAMPOLINE : Nat := MAXVA - PGSIZE

def TRAPFRAME : Nat := TRAMPOLINE - PGSIZE

def USYSCALL : Nat := TRAPFRAME - PGSIZE

def proc_freepagetable (kend : Nat) (k : Kernel) (pt : PageTable) (sz : Nat) :
    Except String Kernel :=
  match uvmunmap kend k pt TRAMPOLINE 1 false with
  | .error e => .error e
  | .ok (k, pt) =>
      match uvmunmap kend k pt TRAPFRAME 1 false with
      | .error e => .error e
      | .ok (k, pt) =>
          match uvmunmap kend k pt USYSCALL 1 false with
          | .error e => .error e
          | .ok (k, pt) => uvmfree kend k pt sz

/-- Stock `uvmcreate`: a zeroed root. -/
def uvmcreate (k : Kernel) : Kernel × Option PageTable :=
  match kalloc k with
  | (none, k) => (k, none)
  | (some r, k) => ({ k with mem := k.mem.fill r PGSIZE 0 }, some (.empty r))

/-- `trampoline`, `trapframe` and `usyscall` are the physical addresses of the
three pages. The last error path unmaps `USYSCALL`, which is not mapped there,
and leaves `TRAPFRAME`. -/
def proc_pagetable (kend : Nat) (k : Kernel) (trampoline trapframe usyscall : Nat) :
    Except String (Kernel × Option PageTable) :=
  match uvmcreate k with
  | (k, none) => .ok (k, none)
  | (k, some pt) =>
      match mappages k pt TRAMPOLINE PGSIZE trampoline { r := true, x := true } with
      | .error e => .error e
      | .ok (k, pt, ret) =>
          if ret < 0 then
            match uvmfree kend k pt 0 with
            | .error e => .error e
            | .ok k => .ok (k, none)
          else
            match mappages k pt TRAPFRAME PGSIZE trapframe { r := true, w := true } with
            | .error e => .error e
            | .ok (k, pt, ret) =>
                if ret < 0 then
                  match uvmunmap kend k pt TRAMPOLINE 1 false with
                  | .error e => .error e
                  | .ok (k, pt) =>
                      match uvmfree kend k pt 0 with
                      | .error e => .error e
                      | .ok k => .ok (k, none)
                else
                  match mappages k pt USYSCALL PGSIZE usyscall
                    { r := true, u := true } with
                  | .error e => .error e
                  | .ok (k, pt, ret) =>
                      if ret < 0 then
                        match uvmunmap kend k pt USYSCALL 1 false with
                        | .error e => .error e
                        | .ok (k, pt) =>
                            match uvmunmap kend k pt TRAMPOLINE 1 false with
                            | .error e => .error e
                            | .ok (k, pt) =>
                                match uvmfree kend k pt 0 with
                                | .error e => .error e
                                | .ok k => .ok (k, none)
                      else .ok (k, some pt)

/-! ## `uvmcopy` -/

/-- The label `err` of `uvmcopy`, at `i` with the step `szinc`. -/
def uvmcopyErr (kend : Nat) (k : Kernel) (old new : PageTable) (i szinc : Nat) :
    Except String (Kernel × PageTable × PageTable × Int) :=
  match uvmunmap kend k new 0 ((i + szinc - 1) / PGSIZE) true with
  | .error e => .error e
  | .ok (k, new) => .ok (k, old, new, -1)

/-- The loop of `uvmcopy` at `i`; the two tables are parent's and child's, and
`n` bounds the rounds. -/
def uvmcopyLoop (kend : Nat) (k : Kernel) (old new : PageTable) (i sz : Nat) :
    Nat → Except String (Kernel × PageTable × PageTable × Int)
  | 0 => .ok (k, old, new, 0)
  | n + 1 =>
      if i < sz then
        match walk k old i false with
        | .error e => .error e
        | .ok (_, _, none) => .error "uvmcopy: pte should exist"
        | .ok (k, old, some (level, j)) =>
            let pte := old.ent level j
            if pte.v = false then .error "uvmcopy: page not present"
            else if pte.s then
              match superkalloc k with
              | (none, k) => uvmcopyErr kend k old new i SUPERPGSIZE
              | (some mem, k) =>
                  let k := { k with mem := k.mem.copy mem (PTE2PA pte) SUPERPGSIZE }
                  match supermappages k new i SUPERPGSIZE mem pte.toFlags with
                  | .error e => .error e
                  | .ok (k, new, ret) =>
                      if ret ≠ 0 then
                        match superkfree kend k mem with
                        | .error e => .error e
                        | .ok k => uvmcopyErr kend k old new i SUPERPGSIZE
                      else uvmcopyLoop kend k old new (i + SUPERPGSIZE) sz n
            else
              match kalloc k with
              | (none, k) => uvmcopyErr kend k old new i PGSIZE
              | (some mem, k) =>
                  let k := { k with mem := k.mem.copy mem (PTE2PA pte) PGSIZE }
                  match mappages k new i PGSIZE mem pte.toFlags with
                  | .error e => .error e
                  | .ok (k, new, ret) =>
                      if ret ≠ 0 then
                        match kfree kend k mem with
                        | .error e => .error e
                        | .ok k => uvmcopyErr kend k old new i PGSIZE
                      else uvmcopyLoop kend k old new (i + PGSIZE) sz n
      else .ok (k, old, new, 0)

def uvmcopy (kend : Nat) (k : Kernel) (old new : PageTable) (sz : Nat) :
    Except String (Kernel × PageTable × PageTable × Int) :=
  uvmcopyLoop kend k old new 0 sz (PGROUNDUP sz / PGSIZE)

/-! ## `uvmalloc` and `sbrksuperuvmalloc` -/

/-- `struct sbrkhelp`: how many pages of each kind were asked for. -/
structure SbrkHelp where
  sz : Int := 0
  state : Bool := false
  startpages : Nat := 0
  superpages : Nat := 0
  endpages : Nat := 0

/-- A `uint64` stored into an `int`. -/
def toInt (x : Nat) : Int := Int.bmod x (2 ^ 32)

/-- An `int` stored into a `uint64`. -/
def toUint64 (x : Int) : Nat := (x % 2 ^ 64).toNat

def userPerm : Flags := { r := true, u := true, w := true }

/-- The loop of `uvmalloc` at `a`. When memory runs out everything from `oldsz` on
is unmapped again and the size returned is 0. `n` bounds the rounds. -/
def uvmallocLoop (kend : Nat) (k : Kernel) (pt : PageTable) (oldsz a newsz : Nat)
    (xperm : Flags) : Nat → Except String (Kernel × PageTable × Nat)
  | 0 => .ok (k, pt, newsz)
  | n + 1 =>
      if a < newsz then
        if a % SUPERPGSIZE = 0 ∧ newsz - a ≥ SUPERPGSIZE then
          match superkalloc k with
          | (none, k) =>
              match uvmdealloc kend k pt a oldsz with
              | .error e => .error e
              | .ok (k, pt, _) => .ok (k, pt, 0)
          | (some mem, k) =>
              let k := { k with mem := k.mem.fill mem SUPERPGSIZE 0 }
              match supermappages k pt a SUPERPGSIZE mem
                { xperm with r := true, u := true } with
              | .error e => .error e
              | .ok (k, pt, ret) =>
                  if ret ≠ 0 then
                    match superkfree kend k mem with
                    | .error e => .error e
                    | .ok k =>
                        match uvmdealloc kend k pt a oldsz with
                        | .error e => .error e
                        | .ok (k, pt, _) => .ok (k, pt, 0)
                  else uvmallocLoop kend k pt oldsz (a + SUPERPGSIZE) newsz xperm n
        else
          match kalloc k with
          | (none, k) =>
              match uvmdealloc kend k pt a oldsz with
              | .error e => .error e
              | .ok (k, pt, _) => .ok (k, pt, 0)
          | (some mem, k) =>
              let k := { k with mem := k.mem.fill mem PGSIZE 0 }
              match mappages k pt a PGSIZE mem { xperm with r := true, u := true } with
              | .error e => .error e
              | .ok (k, pt, ret) =>
                  if ret ≠ 0 then
                    match kfree kend k mem with
                    | .error e => .error e
                    | .ok k =>
                        match uvmdealloc kend k pt a oldsz with
                        | .error e => .error e
                        | .ok (k, pt, _) => .ok (k, pt, 0)
                  else uvmallocLoop kend k pt oldsz (a + PGSIZE) newsz xperm n
      else .ok (k, pt, newsz)

def uvmalloc (kend : Nat) (k : Kernel) (pt : PageTable) (oldsz newsz : Nat)
    (xperm : Flags) : Except String (Kernel × PageTable × Nat) :=
  if newsz < oldsz then .ok (k, pt, oldsz)
  else
    uvmallocLoop kend k pt (PGROUNDUP oldsz) (PGROUNDUP oldsz) newsz xperm
      ((PGROUNDUP newsz - PGROUNDUP oldsz) / PGSIZE)

/-- The loop of `sbrksuperuvmalloc` at `a`, which counts in `help`. `n` bounds the
rounds. -/
def sbrksuperuvmallocLoop (kend : Nat) (k : Kernel) (pt : PageTable)
    (oldsz a newsz : Nat) (xperm : Flags) (help : SbrkHelp) :
    Nat → Except String (Kernel × PageTable × SbrkHelp)
  | 0 => .ok (k, pt, { help with sz := toInt newsz, state := true })
  | n + 1 =>
      if a < newsz then
        if a % SUPERPGSIZE = 0 ∧ newsz - a ≥ SUPERPGSIZE then
          let help := { help with superpages := help.superpages + 1 }
          match superkalloc k with
          | (none, k) =>
              match uvmdealloc kend k pt a oldsz with
              | .error e => .error e
              | .ok (k, pt, _) => .ok (k, pt, { help with state := false })
          | (some mem, k) =>
              let k := { k with mem := k.mem.fill mem SUPERPGSIZE 0 }
              match supermappages k pt a SUPERPGSIZE mem
                { xperm with r := true, u := true } with
              | .error e => .error e
              | .ok (k, pt, ret) =>
                  if ret ≠ 0 then
                    match superkfree kend k mem with
                    | .error e => .error e
                    | .ok k =>
                        match uvmdealloc kend k pt a oldsz with
                        | .error e => .error e
                        | .ok (k, pt, _) => .ok (k, pt, { help with state := false })
                  else
                    sbrksuperuvmallocLoop kend k pt oldsz (a + SUPERPGSIZE) newsz xperm
                      help n
        else
          let help :=
            if help.superpages = 0 then { help with startpages := help.startpages + 1 }
            else { help with endpages := help.endpages + 1 }
          match kalloc k with
          | (none, k) =>
              match uvmdealloc kend k pt a oldsz with
              | .error e => .error e
              | .ok (k, pt, _) => .ok (k, pt, { help with state := false })
          | (some mem, k) =>
              let k := { k with mem := k.mem.fill mem PGSIZE 0 }
              match mappages k pt a PGSIZE mem { xperm with r := true, u := true } with
              | .error e => .error e
              | .ok (k, pt, ret) =>
                  if ret ≠ 0 then
                    match kfree kend k mem with
                    | .error e => .error e
                    | .ok k =>
                        match uvmdealloc kend k pt a oldsz with
                        | .error e => .error e
                        | .ok (k, pt, _) => .ok (k, pt, { help with state := false })
                  else
                    sbrksuperuvmallocLoop kend k pt oldsz (a + PGSIZE) newsz xperm help n
      else .ok (k, pt, { help with sz := toInt newsz, state := true })

def sbrksuperuvmalloc (kend : Nat) (k : Kernel) (pt : PageTable) (oldsz newsz : Nat)
    (xperm : Flags) : Except String (Kernel × PageTable × SbrkHelp) :=
  if newsz < oldsz then .ok (k, pt, { sz := toInt oldsz })
  else
    sbrksuperuvmallocLoop kend k pt (PGROUNDUP oldsz) (PGROUNDUP oldsz) newsz xperm {}
      ((PGROUNDUP newsz - PGROUNDUP oldsz) / PGSIZE)

/-! ## `growproc` -/

structure Proc where
  pagetable : PageTable
  sz : Nat
  record : Nat → Char
  next : Int

/-- `count` times `p->record[p->next] = c; p->next++`. -/
def Proc.append (p : Proc) (c : Char) : Nat → Except String Proc
  | 0 => .ok p
  | count + 1 =>
      if p.next < 0 ∨ 10000 ≤ p.next then .error "record: out of bounds"
      else Proc.append { p with
        record := Function.update p.record p.next.toNat c
        next := p.next + 1 } c count

/-- `sz - c` in a `uint64`. -/
def minus (sz c : Nat) : Nat := (sz + 2 ^ 64 - c) % 2 ^ 64

/-- The loop of the shrink branch with entries `0 .. i-1` still to visit and
`n < 0` bytes still to give back. -/
def shrinkLoop (kend : Nat) (k : Kernel) (p : Proc) (n : Int) :
    Nat → Except String (Kernel × Proc)
  | 0 => .ok (k, p)
  | i + 1 =>
      if 10000 ≤ i then .error "record: out of bounds"
      else if p.record i = '1' then
        match uvmdealloc kend k p.pagetable p.sz (minus p.sz SUPERPGSIZE) with
        | .error e => .error e
        | .ok (k, pt, sz) =>
            if n + SUPERPGSIZE > 0 then
              match uvmalloc kend k pt sz (sz + (n + SUPERPGSIZE).toNat)
                { w := true } with
              | .error e => .error e
              | .ok (k, pt, sz) => .ok (k, {
                  pagetable := pt
                  sz := sz
                  record := Function.update p.record i '0'
                  next := p.next - 1 + (n + SUPERPGSIZE) / PGSIZE })
            else if n + SUPERPGSIZE = 0 then
              .ok (k, { p with pagetable := pt, sz := sz, next := i })
            else
              shrinkLoop kend k { p with pagetable := pt, sz := sz }
                (n + SUPERPGSIZE) i
      else
        match uvmdealloc kend k p.pagetable p.sz (minus p.sz PGSIZE) with
        | .error e => .error e
        | .ok (k, pt, sz) =>
            if n + PGSIZE > 0 then
              .ok (k, { p with pagetable := pt, sz := sz, next := i - 1 })
            else if n + PGSIZE = 0 then
              .ok (k, { p with pagetable := pt, sz := sz, next := i })
            else
              shrinkLoop kend k { p with pagetable := pt, sz := sz } (n + PGSIZE) i

def growproc (kend : Nat) (k : Kernel) (p : Proc) (n : Int) :
    Except String (Kernel × Proc × Int) :=
  if n > 0 then
    match sbrksuperuvmalloc kend k p.pagetable p.sz (p.sz + n.toNat) { w := true } with
    | .error e => .error e
    | .ok (k, pt, help) =>
        let p := { p with pagetable := pt }
        if help.state = false then .ok (k, p, -1)
        else
          match p.append '0' help.startpages with
          | .error e => .error e
          | .ok p =>
              match p.append '1' help.superpages with
              | .error e => .error e
              | .ok p =>
                  match p.append '0' help.endpages with
                  | .error e => .error e
                  | .ok p => .ok (k, { p with sz := toUint64 help.sz }, 0)
  else if n < 0 then
    match shrinkLoop kend k p n p.next.toNat with
    | .error e => .error e
    | .ok (k, p) => .ok (k, p, 0)
  else .ok (k, p, 0)

end Xv6Labs.Super
