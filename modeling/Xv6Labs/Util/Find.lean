import Xv6Labs.Lib.CString
import Mathlib.Data.List.DropRight

/-!
# `find`

`find.c`: a recursion over directories that builds each path in one 512-byte
buffer per level and compares the last component of a path it reads back.

The recursion is as deep as the tree. The stack it runs on, one page of the user's, is not
modelled.

The kernel's side is `fs`: what `open` and `fstat` make of a path, and the
directory entries `read` then returns. A file system that is a tree below the
start path is `Tree.At`.
-/

namespace Xv6Labs.Find

open Xv6Labs.Lib

def DIRSIZ : Nat := 14

def slash : UInt8 := 47

def dot : UInt8 := 46

/-- `struct dirent`: a name that fills all its bytes has no NUL. A used entry
has a name, without a slash. -/
structure Dirent where
  inum : UInt16
  name : Bytes
  length : name.length = DIRSIZ
  named : inum ≠ 0 → cstr name ≠ []
  component : inum ≠ 0 → slash ∉ cstr name

/-- What `fstat` and the `read`s of an open file give. -/
inductive Inode where
  | file
  | device
  | dir (entries : List Dirent)

inductive Opened where
  | cannotOpen
  | cannotStat
  | opened (ip : Inode)

inductive Printed where
  /-- `printf("%s\n", path)` -/
  | path (p : Bytes)
  | tooLong
  | cannotOpen (p : Bytes)
  | cannotStat (p : Bytes)

/-! ## The program -/

/-- The loop of `get_file_name` with `p = path + n - 1`; the result is where
`p++` leaves `p`. -/
def scanBack (path : Bytes) : Nat → Nat
  | 0 => 0
  | n + 1 => if path.getD n 0 ≠ slash then scanBack path n else n + 1

def get_file_name (path : Bytes) : Bytes :=
  path.drop (scanBack path ((cstr path).length + 1))

/-- A round of the directory loop, `p` being the end of `path/` in `buf`. -/
def findEntry (find : Bytes → Option (List Printed)) (p : Nat) (buf : Bytes)
    (de : Dirent) : Option (Bytes × List Printed) :=
  if de.inum = 0 then some (buf, [])
  else if cstr de.name = [dot] ∨ cstr de.name = [dot, dot] then some (buf, [])
  else do
    let buf ← storeAt buf p de.name
    let buf ← storeAt buf (p + DIRSIZ) [0]
    let out ← find buf
    some (buf, out)

def findEntries (find : Bytes → Option (List Printed)) (p : Nat) :
    Bytes → List Dirent → Option (List Printed)
  | _, [] => some []
  | buf, de :: des => do
      let (buf, out) ← findEntry find p buf de
      let rest ← findEntries find p buf des
      some (out ++ rest)

/-- `find`, at most `fuel` calls deep. `stack path` is what the call for `path`
finds in its `buf`. A store outside `buf` is an error of the run. -/
def find (fs : Bytes → Opened) (stack : Bytes → Bytes) (file_name : Bytes) :
    Nat → Bytes → Option (List Printed)
  | 0, _ => none
  | fuel + 1, path =>
      match fs (cstr path) with
      | .cannotOpen => some [.cannotOpen (cstr path)]
      | .cannotStat => some [.cannotStat (cstr path)]
      | .opened .file =>
          if cstr (get_file_name path) = cstr file_name then some [.path (cstr path)]
          else some []
      | .opened .device => some []
      | .opened (.dir entries) =>
          let buf := stack (cstr path)
          if (cstr path).length + 1 + DIRSIZ + 1 > buf.length then some [.tooLong]
          else do
            -- strcpy(buf, path)
            let buf ← storeAt buf 0 (cstr path ++ [0])
            let p := (cstr buf).length
            let buf ← storeAt buf p [slash]
            findEntries (find fs stack file_name fuel) (p + 1) buf entries

/-! ## Directory trees -/

/-- A file with everything below it. A directory entry comes with what it stands
for; of an unused entry, and of `.` and `..`, that is ignored. -/
inductive Tree where
  | file
  | device
  | dir (entries : List (Dirent × Tree))

/-- The entry leads to something below the directory. -/
def Dirent.child (de : Dirent) : Prop :=
  de.inum ≠ 0 ∧ cstr de.name ≠ [dot] ∧ cstr de.name ≠ [dot, dot]

instance (de : Dirent) : Decidable de.child := by
  unfold Dirent.child
  infer_instance

def join (path name : Bytes) : Bytes := path ++ slash :: name

mutual

/-- The regular files of a tree in directory order, each with its path and the
last component of it. -/
def Tree.files (path name : Bytes) : Tree → List (Bytes × Bytes)
  | .file => [(path, name)]
  | .device => []
  | .dir entries => filesIn path entries

def filesIn (path : Bytes) : List (Dirent × Tree) → List (Bytes × Bytes)
  | [] => []
  | (de, t) :: entries =>
      (if de.child then t.files (join path (cstr de.name)) (cstr de.name) else []) ++
        filesIn path entries

end

mutual

def Tree.dirs (path : Bytes) : Tree → List Bytes
  | .file => []
  | .device => []
  | .dir entries => path :: dirsIn path entries

def dirsIn (path : Bytes) : List (Dirent × Tree) → List Bytes
  | [] => []
  | (de, t) :: entries =>
      (if de.child then t.dirs (join path (cstr de.name)) else []) ++ dirsIn path entries

end

mutual

/-- At `path`, the file system is this tree: every path of it can be opened. -/
def Tree.At (fs : Bytes → Opened) (path : Bytes) : Tree → Prop
  | .file => fs path = .opened .file
  | .device => fs path = .opened .device
  | .dir entries => fs path = .opened (.dir (entries.map Prod.fst)) ∧
      AtIn fs path entries

def AtIn (fs : Bytes → Opened) (path : Bytes) : List (Dirent × Tree) → Prop
  | [] => True
  | (de, t) :: entries =>
      (de.child → t.At fs (join path (cstr de.name))) ∧ AtIn fs path entries

end

mutual

def Tree.height : Tree → Nat
  | .file => 0
  | .device => 0
  | .dir entries => heightIn entries + 1

def heightIn : List (Dirent × Tree) → Nat
  | [] => 0
  | (_, t) :: entries => max t.height (heightIn entries)

end

def lastComponent (path : Bytes) : Bytes := path.rtakeWhile (· ≠ slash)

def lines (file_name : Bytes) (files : List (Bytes × Bytes)) : List Printed :=
  (files.filter fun f => f.2 = file_name).map fun f => .path f.1

/-! ## The last component -/

theorem scanBack_append (s t : Bytes) :
    scanBack (s ++ t) s.length = s.length - (lastComponent s).length := by
  induction s using List.reverseRecOn generalizing t with
  | nil => rfl
  | append_singleton s c ih =>
      have hget : (s ++ [c] ++ t).getD s.length 0 = c := by simp
      rw [List.length_append, List.length_singleton, scanBack, hget, lastComponent]
      by_cases hc : c = slash
      · rw [if_neg (not_not.mpr hc), List.rtakeWhile_concat_neg _ _ _ (by simpa using hc)]
        rfl
      · rw [if_pos hc, List.append_assoc, ih,
          List.rtakeWhile_concat_pos _ _ _ (by simpa using hc),
          List.length_append, List.length_singleton, lastComponent]
        omega

theorem drop_lastComponent (s t : Bytes) :
    (s ++ t).drop (s.length - (lastComponent s).length) = lastComponent s ++ t := by
  have hsplit : s.rdropWhile (· ≠ slash) ++ lastComponent s = s :=
    List.rdropWhile_append_rtakeWhile
  have hlen : s.length - (lastComponent s).length =
      (s.rdropWhile (· ≠ slash)).length := by
    have h := congrArg List.length hsplit
    rw [List.length_append] at h
    omega
  have happ : s ++ t = s.rdropWhile (· ≠ slash) ++ (lastComponent s ++ t) := by
    rw [← List.append_assoc, hsplit]
  rw [hlen, happ, List.drop_left]

theorem zero_notMem_lastComponent {s : Bytes} (h : (0 : UInt8) ∉ s) :
    (0 : UInt8) ∉ lastComponent s := fun hmem =>
  h ((List.rtakeWhile_suffix _ _).subset hmem)

theorem cstr_get_file_name {path : Bytes} (h : (0 : UInt8) ∈ path) :
    cstr (get_file_name path) = lastComponent (cstr path) := by
  obtain ⟨t, ht⟩ := eq_cstr_append h
  have hnul := zero_notMem_cstr path
  generalize hs : cstr path = s at ht hnul ⊢
  have hend : path.getD s.length 0 ≠ slash := by
    rw [ht]
    simp [slash]
  rw [get_file_name, hs, scanBack, if_pos hend, ht, scanBack_append, drop_lastComponent]
  exact cstr_append_zero (zero_notMem_lastComponent hnul) t

theorem lastComponent_join {path name : Bytes} (h : slash ∉ name) :
    lastComponent (join path name) = name := by
  unfold lastComponent join
  induction name using List.reverseRecOn with
  | nil => exact List.rtakeWhile_concat_neg _ _ _ (by simp)
  | append_singleton name c ih =>
      rw [List.mem_append, List.mem_singleton, not_or] at h
      rw [← List.cons_append, ← List.append_assoc,
        List.rtakeWhile_concat_pos _ _ _ (by simpa using fun hc : c = slash => h.2 hc.symm),
        ih h.1]

/-! ## One level -/

variable {fs : Bytes → Opened} {stack : Bytes → Bytes} {file_name path s buf : Bytes}

/-- `buf` of the call for `s`: `s/` and then anything. -/
structure Prefixed (buf s : Bytes) : Prop where
  size : buf.length = 512
  starts : buf.take (s.length + 1) = s ++ [slash]

/-- Both stores of a round stay inside `buf` and leave the path of the entry
there. -/
theorem Prefixed.entry (h : Prefixed buf s) (hs : (0 : UInt8) ∉ s)
    (hroom : s.length + 16 ≤ 512) (de : Dirent) :
    ∃ buf₁ buf₂, storeAt buf (s.length + 1) de.name = some buf₁ ∧
      storeAt buf₁ (s.length + 1 + DIRSIZ) [0] = some buf₂ ∧
      Prefixed buf₂ s ∧ (0 : UInt8) ∈ buf₂ ∧
      cstr buf₂ = join s (cstr de.name) := by
  have hname : de.name.length = 14 := de.length
  have hsize := h.size
  have hfit₁ : s.length + 1 + de.name.length ≤ buf.length := by omega
  generalize hbuf₁ : writeAt buf (s.length + 1) de.name = buf₁
  have hsize₁ : buf₁.length = 512 := by rw [← hbuf₁, length_writeAt hfit₁, hsize]
  have htake₁ : buf₁.take (s.length + 1 + DIRSIZ) = s ++ [slash] ++ de.name := by
    rw [← hbuf₁, ← h.starts, ← de.length]
    exact take_writeAt (by omega)
  have hfit₂ : s.length + 1 + DIRSIZ + [(0 : UInt8)].length ≤ buf₁.length := by
    simp only [DIRSIZ, List.length_singleton]
    omega
  have hbuf₂ : writeAt buf₁ (s.length + 1 + DIRSIZ) [0] =
      s ++ slash :: (de.name ++ 0 :: buf₁.drop (s.length + 1 + DIRSIZ + 1)) := by
    rw [writeAt, htake₁]
    simp
  refine ⟨buf₁, _, ?_, storeAt_eq hfit₂, ⟨?_, ?_⟩, ?_, ?_⟩
  · rw [storeAt_eq hfit₁, hbuf₁]
  · rw [length_writeAt hfit₂, hsize₁]
  · rw [hbuf₂, ← List.singleton_append, ← List.append_assoc]
    exact List.take_left' (by simp)
  · rw [hbuf₂]
    simp
  · have hsl : (0 : UInt8) ∉ s ++ [slash] := by
      simp [hs, slash]
    rw [hbuf₂, ← List.singleton_append, ← List.append_assoc,
      cstr_append_of_notMem hsl, cstr_append_nul, join, List.append_assoc]
    rfl

theorem prefixed_start (hsize : buf.length = 512) (hs : (0 : UInt8) ∉ s)
    (hroom : s.length + 16 ≤ 512) :
    ∃ buf₁ buf₂, storeAt buf 0 (s ++ [0]) = some buf₁ ∧
      (cstr buf₁).length = s.length ∧
      storeAt buf₁ s.length [slash] = some buf₂ ∧ Prefixed buf₂ s := by
  have hfit₁ : 0 + (s ++ [(0 : UInt8)]).length ≤ buf.length := by
    rw [List.length_append, List.length_singleton]
    omega
  have hbuf₁ : writeAt buf 0 (s ++ [0]) = s ++ 0 :: buf.drop (s.length + 1) := by
    simp [writeAt]
  have hfit₂ : s.length + [slash].length ≤ (writeAt buf 0 (s ++ [0])).length := by
    rw [length_writeAt hfit₁, List.length_singleton]
    omega
  refine ⟨_, _, storeAt_eq hfit₁, ?_, storeAt_eq hfit₂, ?_, ?_⟩
  · rw [hbuf₁, cstr_append_zero hs]
  · rw [length_writeAt hfit₂, length_writeAt hfit₁, hsize]
  · rw [← List.length_singleton (a := slash), take_writeAt (by omega), hbuf₁,
      List.take_left]

/-! ## The recursion -/

theorem lines_append (file_name : Bytes) (fs gs : List (Bytes × Bytes)) :
    lines file_name (fs ++ gs) = lines file_name fs ++ lines file_name gs := by
  simp [lines]

mutual

/-- **`find` on a tree** prints the matching files below `path`. -/
theorem find_tree (hstack : ∀ p, (stack p).length = 512) :
    ∀ (t : Tree) {path : Bytes} {fuel : Nat}, (0 : UInt8) ∈ path →
      t.At fs (cstr path) → (∀ d ∈ t.dirs (cstr path), d.length + 16 ≤ 512) →
      t.height < fuel →
      find fs stack file_name fuel path =
        some (lines (cstr file_name) (t.files (cstr path) (lastComponent (cstr path))))
  | .file, path, fuel + 1, hz, hat, _, _ => by
      rw [Tree.At] at hat
      rw [find, hat, Tree.files, cstr_get_file_name hz]
      by_cases hname : lastComponent (cstr path) = cstr file_name
      · simp [lines, hname]
      · simp [lines, hname]
  | .device, path, fuel + 1, _, hat, _, _ => by
      rw [Tree.At] at hat
      rw [find, hat, Tree.files]
      rfl
  | .dir entries, path, fuel + 1, _, hat, hdirs, hheight => by
      rw [Tree.At] at hat
      rw [Tree.dirs, List.forall_mem_cons] at hdirs
      rw [Tree.height] at hheight
      have hroom := hdirs.1
      have hsize := hstack (cstr path)
      obtain ⟨buf₁, buf₂, h₁, hp, h₂, hpre⟩ :=
        prefixed_start hsize (zero_notMem_cstr path) hroom
      have hguard : ¬ (cstr path).length + 1 + DIRSIZ + 1 >
          (stack (cstr path)).length := by
        rw [hsize, DIRSIZ]
        omega
      rw [find, hat.1]
      simp only [if_neg hguard, h₁, hp, h₂, Option.bind_eq_bind, Option.bind_some]
      rw [Tree.files]
      exact find_entries hstack entries hpre (zero_notMem_cstr path) hroom hat.2
        hdirs.2 (by omega)

theorem find_entries (hstack : ∀ p, (stack p).length = 512) :
    ∀ (entries : List (Dirent × Tree)) {s buf : Bytes} {fuel : Nat},
      Prefixed buf s → (0 : UInt8) ∉ s → s.length + 16 ≤ 512 → AtIn fs s entries →
      (∀ d ∈ dirsIn s entries, d.length + 16 ≤ 512) → heightIn entries < fuel →
      findEntries (find fs stack file_name fuel) (s.length + 1) buf
          (entries.map Prod.fst) =
        some (lines (cstr file_name) (filesIn s entries))
  | [], s, buf, fuel, _, _, _, _, _, _ => by
      rw [filesIn]
      rfl
  | (de, t) :: entries, s, buf, fuel, hpre, hs, hroom, hat, hdirs, hheight => by
      rw [AtIn] at hat
      rw [dirsIn] at hdirs
      rw [heightIn, Nat.max_lt] at hheight
      have hrest : ∀ {buf' : Bytes}, Prefixed buf' s →
          findEntries (find fs stack file_name fuel) (s.length + 1) buf'
            (entries.map Prod.fst) = some (lines (cstr file_name) (filesIn s entries)) :=
        fun hpre' => find_entries hstack entries hpre' hs hroom hat.2
          (fun d hd => hdirs d (List.mem_append_right _ hd)) hheight.2
      rw [List.map_cons, findEntries, filesIn, lines_append, findEntry]
      by_cases hinum : de.inum = 0
      · have hno : ¬ de.child := fun h => h.1 hinum
        simp only [if_pos hinum, Option.bind_eq_bind, Option.bind_some, hrest hpre,
          if_neg hno]
        rfl
      by_cases hdot : cstr de.name = [dot] ∨ cstr de.name = [dot, dot]
      · have hno : ¬ de.child := fun h => hdot.elim h.2.1 h.2.2
        simp only [if_neg hinum, if_pos hdot, Option.bind_eq_bind, Option.bind_some,
          hrest hpre, if_neg hno]
        rfl
      · have hchild : de.child := ⟨hinum, not_or.mp hdot⟩
        obtain ⟨buf₁, buf₂, h₁, h₂, hpre₂, hz, hpath⟩ := hpre.entry hs hroom de
        have ht := find_tree hstack t hz (by rw [hpath]; exact hat.1 hchild)
          (by
            rw [hpath]
            intro d hd
            apply hdirs d
            rw [if_pos hchild]
            exact List.mem_append_left _ hd)
          hheight.1
        rw [hpath, lastComponent_join (de.component hinum)] at ht
        simp only [if_neg hinum, if_neg hdot, h₁, h₂, ht, Option.bind_eq_bind,
          Option.bind_some, hrest hpre₂, if_pos hchild]

end

/-- **`find` prints exactly the matching files**: in directory order, each file
of the tree once, those with the name; no store leaves `buf`. -/
theorem find_prints_matching_files {t : Tree} {fuel : Nat}
    (hstack : ∀ p, (stack p).length = 512) (hpath : (0 : UInt8) ∉ path)
    (hat : t.At fs path) (hdirs : ∀ d ∈ t.dirs path, d.length + 16 ≤ 512)
    (hfuel : t.height < fuel) :
    find fs stack file_name fuel (path ++ [0]) =
      some (lines (cstr file_name) (t.files path (lastComponent path))) := by
  have hcstr : cstr (path ++ [0]) = path := cstr_append_zero hpath []
  have h : find fs stack file_name fuel (path ++ [0]) = _ :=
    find_tree hstack t (by simp) (by rwa [hcstr]) (by rwa [hcstr]) hfuel
  rwa [hcstr] at h

def shortName (c : UInt8) (h₀ : c ≠ 0) (h : c ≠ slash) : Dirent where
  inum := 7
  name := c :: List.replicate 13 0
  length := rfl
  named := by simp [cstr, h₀]
  component := by simp [cstr, h₀, Ne.symm h]

/-- The directory `x` with the entry `.`, a file `b` and a directory `d` with
another file `b`. -/
def smallTree : Tree :=
  .dir [(shortName dot (by decide) (by decide), .device),
    (shortName 98 (by decide) (by decide), .file),
    (shortName 100 (by decide) (by decide),
      .dir [(shortName 98 (by decide) (by decide), .file)])]

def smallFs (path : Bytes) : Opened :=
  if path = [120] then .opened (.dir [shortName dot (by decide) (by decide),
    shortName 98 (by decide) (by decide), shortName 100 (by decide) (by decide)])
  else if path = [120, 47, 98] then .opened .file
  else if path = [120, 47, 100] then
    .opened (.dir [shortName 98 (by decide) (by decide)])
  else if path = [120, 47, 100, 47, 98] then .opened .file
  else .cannotOpen

theorem smallTree_at : smallTree.At smallFs [120] := by
  unfold smallTree
  rw [Tree.At]
  refine ⟨rfl, ?_⟩
  rw [AtIn, AtIn, AtIn, AtIn]
  refine ⟨fun h => absurd rfl h.2.1, fun _ => ?_, fun _ => ?_, trivial⟩
  · rw [Tree.At]
    rfl
  · rw [Tree.At, AtIn, AtIn]
    refine ⟨rfl, fun _ => ?_, trivial⟩
    rw [Tree.At]
    rfl

/-- `find x b` prints `x/b` and `x/d/b`. -/
theorem find_prints_matching_files_smallTree :
    find smallFs (fun _ => List.replicate 512 0) [98, 0] 3 ([120] ++ [0]) =
      some [.path [120, 47, 98], .path [120, 47, 100, 47, 98]] := by
  have hdirs : ∀ d ∈ smallTree.dirs [120], d.length + 16 ≤ 512 := by decide
  have hheight : smallTree.height < 3 := by decide
  exact find_prints_matching_files (fun _ => List.length_replicate) (by decide)
    smallTree_at hdirs hheight

end Xv6Labs.Find
