import Xv6Labs.Primes.Chain

/-!
# Every schedule

Every step of every process keeps the invariant of the chain (`Inv.step`), and some
process can go on until all have exited (`Inv.progress`): a full pipe has a reader that
can go on, an empty one a writer, and `wait` waits for a child that is not stuck. So
whatever the schedule, what has been printed in the end is the sieve.
-/

namespace Xv6Labs.Primes

open Xv6Labs.Lib

variable {cap N k j : Nat} {s t : Sys} {a b : Pc}

/-! ## Who holds what -/

theorem held_iff {e : Nat × End} : s.held e = true ↔ ∃ q, q < s.nproc ∧ e ∈ (s.proc q).fds := by
  unfold Sys.held
  rw [List.any_eq_true]
  constructor
  · rintro ⟨q, hq, he⟩
    exact ⟨q, List.mem_range.mp hq, of_decide_eq_true he⟩
  · rintro ⟨q, hq, he⟩
    exact ⟨q, List.mem_range.mpr hq, decide_eq_true he⟩

/-- The writer of a pipe holds its write end until it has nothing left to write. -/
theorem Pc.rest_of_closed (hids : a.At k) (hinner : a.isInner = true)
    (hclosed : (k, .write) ∉ a.fds) (xs : List Nat) : a.rest N xs = [] := by
  cases a with
  | mainCloseRead p1 =>
      obtain ⟨rfl, rfl⟩ := hids
      simp [fds] at hclosed
  | mainLoop p1 i =>
      obtain ⟨rfl, rfl⟩ := hids
      simp [fds] at hclosed
  | closeRead nums prime p2 =>
      obtain ⟨-, rfl⟩ := hids
      simp [fds] at hclosed
  | readNum nums prime p2 =>
      obtain ⟨-, rfl⟩ := hids
      simp [fds] at hclosed
  | writeNum nums prime p2 num =>
      obtain ⟨-, rfl⟩ := hids
      simp [fds] at hclosed
  | closeNums nums p2 => rfl
  | closeWrite p2 => rfl
  | wait => rfl
  | exit => rfl
  | zombie => rfl
  | gone => rfl
  | _ => cases hinner

/-- The reader of a pipe holds its read end until it has seen the end of the pipe. -/
theorem Pc.reads (hids : a.At (k + 1)) (hd : a.isDrained = false) :
    (k, .read) ∈ a.fds := by
  cases a with
  | mainPipe => cases hids
  | mainFork p1 => cases hids.1
  | mainCloseRead p1 => cases hids.1
  | mainLoop p1 i => cases hids.1
  | childCloseNums nums p2 =>
      obtain rfl : p2 = k := Nat.succ.inj hids.1
      simp [fds]
  | childCloseWrite p2 =>
      obtain rfl : p2 = k := Nat.succ.inj hids
      simp [fds]
  | readPrime nums =>
      obtain rfl : nums = k := Nat.succ.inj hids
      simp [fds]
  | printPrime nums prime =>
      obtain rfl : nums = k := Nat.succ.inj hids
      simp [fds]
  | pipe nums prime =>
      obtain rfl : nums = k := Nat.succ.inj hids
      simp [fds]
  | fork nums prime p2 =>
      obtain rfl : nums = k := Nat.succ.inj hids.1
      simp [fds]
  | closeRead nums prime p2 =>
      obtain rfl : nums = k := Nat.succ.inj hids.1
      simp [fds]
  | readNum nums prime p2 =>
      obtain rfl : nums = k := Nat.succ.inj hids.1
      simp [fds]
  | writeNum nums prime p2 num =>
      obtain rfl : nums = k := Nat.succ.inj hids.1
      simp [fds]
  | _ => cases hd

/-- A process that still has something to read holds its input open. -/
theorem Inv.reader (h : Inv N s) (hk : k + 1 < s.nproc) (hne : s.future N k ≠ []) :
    (s.proc (k + 1)).pc.isDrained = false ∧ s.held (k, .read) = true := by
  have hd : (s.proc (k + 1)).pc.isDrained = false := by
    by_contra hd
    exact hne (h.drained (k + 1) hk (by simpa using hd))
  refine ⟨hd, held_iff.mpr ⟨k + 1, hk, ?_⟩⟩
  rw [h.fds _ hk]
  exact Pc.reads (h.ids _ hk) hd

/-- **End of file**: an empty pipe without a writer gives nothing any more. -/
theorem Inv.eof (h : Inv N s) (hk : k + 1 < s.nproc) (hempty : s.pipe k = [])
    (hclosed : s.held (k, .write) = false) : s.future N k = [] := by
  have hnot : (k, .write) ∉ (s.proc k).fds := by
    intro hmem
    rw [held_iff.mpr ⟨k, by omega, hmem⟩] at hclosed
    cases hclosed
  rw [h.fds k (by omega)] at hnot
  rw [future_eq, hempty,
    Pc.rest_of_closed (h.ids k (by omega)) (h.inner k hk) hnot, List.append_nil]

/-! ## `read` and `write` -/

theorem future_pop {v : Nat} {rest : List Nat} (hpipe : s.pipe j = v :: rest) :
    s.future N j = v ::
      ({ s with pipe := Function.update s.pipe j rest } : Sys).future N j := by
  have hin : ({ s with pipe := Function.update s.pipe j rest } : Sys).input N j =
      s.input N j :=
    input_congr (fun _ _ => rfl) (fun q hq => Function.update_of_ne (by omega) _ _)
  rw [future_eq, future_eq, hin]
  show _ = _ :: (Function.update s.pipe j rest j ++ _)
  rw [hpipe, Function.update_self]
  rfl

/-- **`read`** by the process after pipe `j`. -/
theorem Inv.read (h : Inv N s) (hj : j + 1 < s.nproc)
    (hopen : (j, .read) ∈ (s.proc (j + 1)).fds) {o : Sys × Option Nat}
    (hr : s.read (j + 1) j = some o) :
    (∃ v rest, s.pipe j = v :: rest ∧
      o = ({ s with pipe := Function.update s.pipe j rest }, some v)) ∨
    (o = (s, none) ∧ s.future N j = []) := by
  unfold Sys.read at hr
  rw [if_pos hopen] at hr
  split at hr
  · rename_i v rest hpipe
    exact .inl ⟨v, rest, hpipe, (Option.some.inj hr).symm⟩
  · rename_i hempty
    split at hr
    · cases hr
    · rename_i hclosed
      exact .inr ⟨(Option.some.inj hr).symm, h.eof hj hempty (by simpa using hclosed)⟩

/-- **`write`** by a process whose stream is not at its end never loses the number. -/
theorem Inv.write (h : Inv N s) (hk : k + 1 < s.nproc) (hopen : (k, .write) ∈ (s.proc k).fds)
    (hne : s.future N k ≠ []) (v : Nat) :
    s.write cap k k v = if (s.pipe k).length < cap then
      some { s with pipe := Function.update s.pipe k (s.pipe k ++ [v]) } else none := by
  unfold Sys.write
  rw [if_pos ⟨hopen, (h.reader hk hne).2⟩]

/-! ## One step -/

theorem Inv.goto_inner (h : Inv N s) (hk : k + 1 < s.nproc) (hids : b.At k)
    (hinner : b.isInner = true) (hend : (s.proc k).pc.isEnded = false)
    (hend' : b.isEnded = false) (hdrain : b.isDrained = true → s.input N k = [])
    (hrest : b.rest N (s.input N k) = (s.proc k).pc.rest N (s.input N k)) :
    Inv N (s.put k b) := by
  apply @Inv.put_inner N k s b s.pipe h hk (fun _ _ _ => rfl) hids hinner hend hend' hdrain
  rw [future_eq]
  exact congrArg _ hrest

theorem Inv.goto_last (h : Inv N s) (hk : k + 1 = s.nproc) (hids : b.At k)
    (hlast : b.isLast = true) (hend : (s.proc k).pc.isEnded = false)
    (hexit : b.isExited = false)
    (hfork : (s.proc k).pc.isForking = false ∧ b.isForking = false)
    (hdrain : b.isDrained = true → s.input N k = [])
    (htodo : b.todo N (s.input N k) = (s.proc k).pc.todo N (s.input N k)) :
    Inv N (s.put k b) := by
  have hkk : s.nproc - 1 = k := by omega
  apply h.put_last hk rfl rfl (fun _ _ => rfl) hids hlast hend hexit
  · have hnp := h.npipe
    rw [hkk, hfork.1] at hnp
    rw [hfork.2, hnp, ← hkk]
  · intro hf
    rw [hfork.2] at hf
    cases hf
  · exact hdrain
  · have hout := h.out
    rw [hkk] at hout
    rw [htodo]
    exact hout

theorem Inv.last_of (h : Inv N s) (hk : k < s.nproc) (hpc : (s.proc k).pc.isInner = false) :
    k + 1 = s.nproc := by
  by_contra hne
  have hinner := h.inner k (by omega)
  rw [hpc] at hinner
  cases hinner

theorem Inv.inner_of (h : Inv N s) (hk : k < s.nproc) (hpc : (s.proc k).pc.isLast = false) :
    k + 1 < s.nproc := by
  by_contra hne
  have hlast := h.last
  rw [show s.nproc - 1 = k by omega, hpc] at hlast
  cases hlast

theorem Inv.newPipe (h : Inv N s) (hk : k + 1 = s.nproc) (hids : b.At k)
    (hlast : b.isLast = true) (hend : (s.proc k).pc.isEnded = false)
    (hexit : b.isExited = false) (hfork : (s.proc k).pc.isForking = false)
    (hfork' : b.isForking = true) (hdrain : b.isDrained = false)
    (hfds : (s.proc k).fds ++ [(k, .read), (k, .write)] = b.fds)
    (htodo : b.todo N (s.input N k) = (s.proc k).pc.todo N (s.input N k)) :
    Inv N (s.newPipe k b) := by
  have hkk : s.nproc - 1 = k := by omega
  have hnp : s.npipe = k := by
    have hnp := h.npipe
    rw [hkk, hfork] at hnp
    exact hnp
  have heq : s.newPipe k b =
      ({ s with npipe := k + 1, pipe := Function.update s.pipe k [] } : Sys).put k b := by
    unfold Sys.newPipe Sys.put
    rw [hnp, hfds]
  have hin : ({ s with npipe := k + 1, pipe := Function.update s.pipe k [] } : Sys).input
      N k = s.input N k :=
    input_congr (fun _ _ => rfl) (fun q hq => Function.update_of_ne (by omega) _ _)
  rw [heq]
  apply @Inv.put_last N k s b h hk
    { s with npipe := k + 1, pipe := Function.update s.pipe k [] } rfl rfl
    (fun q hq => Function.update_of_ne (by omega) _ _) hids hlast hend hexit
  · rw [hfork', ← hk]
    rfl
  · intro _
    exact Function.update_self ..
  · intro hd
    rw [hdrain] at hd
    cases hd
  · have hout := h.out
    rw [hkk] at hout
    rw [hin, htodo]
    exact hout

theorem Inv.put_write (h : Inv N s) (hk : k + 1 < s.nproc) {v : Nat} (hids : b.At k)
    (hinner : b.isInner = true) (hend : (s.proc k).pc.isEnded = false)
    (hend' : b.isEnded = false) (hdrain : b.isDrained = false)
    (hopen : (k, .write) ∈ (s.proc k).fds) (hfds : (s.proc k).fds = b.fds)
    (hrest : v :: b.rest N (s.input N k) = (s.proc k).pc.rest N (s.input N k))
    (hw : (s.write cap k k v).map (fun s => s.goto k b) = some t) : Inv N t := by
  have hne : s.future N k ≠ [] := by
    rw [future_eq, ← hrest]
    simp
  rw [h.write hk hopen hne] at hw
  split at hw
  swap
  · cases hw
  obtain rfl := Option.some.inj hw
  have hgoto : Sys.goto { s with pipe := Function.update s.pipe k (s.pipe k ++ [v]) } k b =
      Sys.put { s with pipe := Function.update s.pipe k (s.pipe k ++ [v]) } k b :=
    Sys.goto_eq hfds
  show Inv N (Sys.goto _ k b)
  rw [hgoto]
  have hin : ({ s with pipe := Function.update s.pipe k (s.pipe k ++ [v]) } : Sys).input N k =
      s.input N k :=
    input_congr (fun _ _ => rfl) (fun q hq => Function.update_of_ne (by omega) _ _)
  apply h.put_inner hk (fun j _ hj => Function.update_of_ne hj _ _) hids hinner hend hend'
  · intro hd
    rw [hdrain] at hd
    cases hd
  · rw [hin, Function.update_self, future_eq, ← hrest, List.append_assoc]
    rfl

theorem Inv.put_read (h : Inv N s) (hk : j + 1 + 1 < s.nproc) {v : Nat} {rest : List Nat}
    (hpipe : s.pipe j = v :: rest) (hids : b.At (j + 1)) (hinner : b.isInner = true)
    (hend : (s.proc (j + 1)).pc.isEnded = false) (hend' : b.isEnded = false)
    (hdrain : b.isDrained = false)
    (hrest : ∀ xs, b.rest N xs = (s.proc (j + 1)).pc.rest N (v :: xs)) :
    Inv N (({ s with pipe := Function.update s.pipe j rest } : Sys).put (j + 1) b) := by
  apply h.put_inner hk (fun q hq _ => Function.update_of_ne (by omega) _ _) hids hinner hend
    hend'
  · intro hd
    rw [hdrain] at hd
    cases hd
  · rw [hrest, Function.update_of_ne (by omega), future_eq]
    exact congrArg _ (congrArg _ (future_pop hpipe).symm)

theorem Inv.next_child (h : Inv N s) (hk : k + 1 < s.nproc) (hpc : (s.proc k).pc = .wait) :
    s.child k (k + 1) = true := by
  have hparent := h.parent k hk (by rw [hpc]; rfl)
  have hgone : (s.proc (k + 1)).pc ≠ .gone := by
    intro hg
    have hended := (h.waited k hk).mpr hg
    rw [hpc] at hended
    cases hended
  exact decide_eq_true ⟨hparent, hgone⟩

/-- **`wait`** returns when the next process is a zombie. -/
theorem Inv.wait_eq (h : Inv N s) (hk : k + 1 < s.nproc) (hpc : (s.proc k).pc = .wait) :
    s.wait k = if (s.proc (k + 1)).pc = .zombie then some (s.goto (k + 1) .gone)
      else none := by
  have hnext := h.next_child hk hpc
  have hmem : k + 1 ∈ List.range s.nproc := List.mem_range.mpr hk
  unfold Sys.wait
  split
  · rename_i q hq
    have hfound := List.find?_some hq
    rw [Bool.and_eq_true] at hfound
    obtain ⟨hchild, hzombie⟩ := hfound
    obtain rfl : q = k + 1 := h.child q k (List.mem_range.mp (List.mem_of_find?_eq_some hq))
      (of_decide_eq_true hchild).1
    rw [if_pos (of_decide_eq_true hzombie)]
  · rename_i hnone
    have hnot := List.find?_eq_none.mp hnone (k + 1) hmem
    have hnz : (s.proc (k + 1)).pc ≠ .zombie := by
      intro hz
      rw [hnext, hz] at hnot
      exact hnot rfl
    rw [if_neg hnz, if_pos (List.any_eq_true.mpr ⟨k + 1, hmem, hnext⟩)]

theorem Inv.readPrime {nums v : Nat} {rest : List Nat} (h : Inv N s)
    (hk : nums + 1 + 1 = s.nproc) (hpc : (s.proc (nums + 1)).pc = .readPrime nums)
    (hpipe : s.pipe nums = v :: rest) (hfds : (s.proc (nums + 1)).fds = [(nums, .read)])
    (ht : Sys.goto { s with pipe := Function.update s.pipe nums rest } (nums + 1)
      (.printPrime nums v) = t) : Inv N t := by
  have hkk : s.nproc - 1 = nums + 1 := by omega
  have hgoto : Sys.goto { s with pipe := Function.update s.pipe nums rest } (nums + 1)
      (.printPrime nums v) = Sys.put _ (nums + 1) (.printPrime nums v) := Sys.goto_eq hfds
  have hnp := h.npipe
  have hout := h.out
  rw [hkk, hpc] at hnp hout
  rw [← ht, hgoto]
  refine @Inv.put_last N (nums + 1) s (.printPrime nums v) h hk
    { s with pipe := Function.update s.pipe nums rest } rfl rfl
    (fun q hq => Function.update_of_ne (by omega) _ _) rfl rfl (by rw [hpc]; rfl) rfl ?_ ?_ ?_ ?_
  · rw [hkk]
    exact hnp
  · intro hf
    cases hf
  · intro hd
    cases hd
  · have hpop : s.input N (nums + 1) = _ := future_pop hpipe
    rw [hpop] at hout
    rw [← hout]
    exact congrArg (s.out ++ ·) (sieve_cons v _).symm

theorem Inv.printPrime {nums prime : Nat} (h : Inv N s) (hk : k + 1 = s.nproc)
    (hpc : (s.proc k).pc = .printPrime nums prime) (hids : nums + 1 = k)
    (hfds : (s.proc k).fds = [(nums, .read)])
    (ht : Sys.goto { s with out := s.out ++ [prime] } k (.pipe nums prime) = t) : Inv N t := by
  have hkk : s.nproc - 1 = k := by omega
  have hgoto : Sys.goto { s with out := s.out ++ [prime] } k (.pipe nums prime) =
      Sys.put _ k (.pipe nums prime) := Sys.goto_eq hfds
  have hnp := h.npipe
  have hout := h.out
  rw [hkk, hpc] at hnp hout
  rw [← ht, hgoto]
  refine @Inv.put_last N k s (.pipe nums prime) h hk { s with out := s.out ++ [prime] } rfl rfl
    (fun _ _ => rfl) hids rfl (by rw [hpc]; rfl) rfl ?_ ?_ ?_ ?_
  · rw [hkk]
    exact hnp
  · intro hf
    cases hf
  · intro hd
    cases hd
  · have hin : ({ s with out := s.out ++ [prime] } : Sys).input N k = s.input N k :=
      input_congr (fun _ _ => rfl) (fun _ _ => rfl)
    rw [hin, List.append_assoc]
    exact hout

theorem Inv.readNum {nums prime v : Nat} {rest : List Nat} (h : Inv N s)
    (hk : nums + 1 + 1 < s.nproc)
    (hpc : (s.proc (nums + 1)).pc = .readNum nums prime (nums + 1))
    (hpipe : s.pipe nums = v :: rest)
    (hfds : (s.proc (nums + 1)).fds = [(nums, .read), (nums + 1, .write)])
    (ht : Sys.goto { s with pipe := Function.update s.pipe nums rest } (nums + 1)
      (if v % prime ≠ 0 then .writeNum nums prime (nums + 1) v
        else .readNum nums prime (nums + 1)) = t) : Inv N t := by
  by_cases hv : v % prime = 0
  · rw [if_neg (not_not.mpr hv)] at ht
    have hgoto : Sys.goto { s with pipe := Function.update s.pipe nums rest } (nums + 1)
        (.readNum nums prime (nums + 1)) = Sys.put _ (nums + 1) _ := Sys.goto_eq hfds
    rw [← ht, hgoto]
    refine h.put_read hk hpipe ⟨rfl, rfl⟩ rfl (by rw [hpc]; rfl) rfl rfl (fun xs => ?_)
    rw [hpc]
    exact (sift_cons_of_dvd xs hv).symm
  · rw [if_pos hv] at ht
    have hgoto : Sys.goto { s with pipe := Function.update s.pipe nums rest } (nums + 1)
        (.writeNum nums prime (nums + 1) v) = Sys.put _ (nums + 1) _ := Sys.goto_eq hfds
    rw [← ht, hgoto]
    refine h.put_read hk hpipe ⟨rfl, rfl⟩ rfl (by rw [hpc]; rfl) rfl rfl (fun xs => ?_)
    rw [hpc]
    exact (sift_cons_of_not_dvd xs hv).symm

/-- **Every step keeps the invariant.** -/
theorem Inv.step (h : Inv N s) (hs : Step cap N s k t) : Inv N t := by
  unfold Step Sys.step at hs
  split at hs
  · cases hs
  rename_i hk
  rw [Nat.not_le] at hk
  have hids := h.ids k hk
  have hfds := h.fds k hk
  cases hpc : (s.proc k).pc with
  | mainPipe =>
      simp only [hpc, Option.some.injEq] at hs hids hfds
      have hlast := h.last_of hk (by rw [hpc]; rfl)
      obtain rfl : k = 0 := hids
      have hnp : s.npipe = 0 := by
        have hnp := h.npipe
        rw [show s.nproc - 1 = 0 by omega, hpc] at hnp
        exact hnp
      rw [← hs, hnp]
      refine h.newPipe hlast ⟨rfl, rfl⟩ rfl (by rw [hpc]; rfl) rfl (by rw [hpc]; rfl) rfl rfl
        ?_ ?_
      · rw [hfds]
        rfl
      · rw [hpc]
        rfl
  | mainFork p1 =>
      simp only [hpc, Option.some.injEq] at hs hids hfds
      obtain ⟨rfl, rfl⟩ := hids
      rw [← hs]
      refine h.fork (h.last_of hk (by rw [hpc]; rfl)) (by rw [hpc]; rfl) ?_ ?_ ?_ ?_
      · rw [hpc]
        exact ⟨rfl, ⟨rfl, rfl⟩, rfl, rfl, rfl⟩
      · rw [hpc]
        exact ⟨rfl, rfl, rfl, rfl, rfl, by simp⟩
      · rw [hpc]
        rfl
      · intro xs
        rw [hpc]
        rfl
  | mainCloseRead p1 =>
      simp only [hpc, Option.some.injEq] at hs hids hfds
      rw [← hs, Sys.close_eq (by rw [hfds]; simp [Pc.fds])]
      refine h.goto_inner (h.inner_of hk (by rw [hpc]; rfl)) hids rfl (by rw [hpc]; rfl)
        rfl ?_ ?_
      · intro hd
        cases hd
      · rw [hpc]
        rfl
  | mainLoop p1 i =>
      simp only [hpc] at hs hids hfds
      obtain ⟨rfl, rfl⟩ := hids
      have hinner := h.inner_of hk (by rw [hpc]; rfl)
      split at hs
      · rename_i hi
        have hids' : (Pc.mainLoop 0 (i + 1)).At 0 := ⟨rfl, rfl⟩
        refine h.put_write hinner hids' rfl (by rw [hpc]; rfl) rfl rfl ?_ hfds ?_ hs
        · rw [hfds]
          simp [Pc.fds]
        · rw [hpc]
          exact (upTo_of_le hi).symm
      · rename_i hi
        have hfds' : (s.proc 0).fds = (Pc.closeWrite 0).fds := hfds
        rw [← Option.some.inj hs, Sys.goto_eq hfds']
        refine h.goto_inner hinner rfl rfl (by rw [hpc]; rfl) rfl ?_ ?_
        · intro _
          rfl
        · rw [hpc]
          exact (upTo_of_lt (Nat.not_le.mp hi)).symm
  | childCloseNums nums p2 =>
      simp only [hpc, Option.some.injEq] at hs hids hfds
      rw [← hs, Sys.close_eq (by rw [hfds]; simp [Pc.fds])]
      refine h.goto_last (h.last_of hk (by rw [hpc]; rfl)) hids.1 rfl (by rw [hpc]; rfl)
        rfl ?_ ?_ ?_
      · rw [hpc]
        exact ⟨rfl, rfl⟩
      · intro hd
        cases hd
      · rw [hpc]
        rfl
  | childCloseWrite p2 =>
      simp only [hpc, Option.some.injEq] at hs hids hfds
      rw [← hs, Sys.close_eq (by rw [hfds]; simp [Pc.fds])]
      refine h.goto_last (h.last_of hk (by rw [hpc]; rfl)) hids rfl (by rw [hpc]; rfl)
        rfl ?_ ?_ ?_
      · rw [hpc]
        exact ⟨rfl, rfl⟩
      · intro hd
        cases hd
      · rw [hpc]
        rfl
  | readPrime nums =>
      simp only [hpc] at hs hids hfds
      have hlast := h.last_of hk (by rw [hpc]; rfl)
      obtain rfl : nums + 1 = k := hids
      rcases hr : s.read (nums + 1) nums with _ | o
      · rw [hr] at hs
        cases hs
      rw [hr] at hs
      rcases h.read hk (by rw [hfds]; simp [Pc.fds]) hr with ⟨v, rest, hpipe, rfl⟩ | ⟨rfl, hnil⟩
      · exact h.readPrime hlast hpc hpipe hfds (Option.some.inj hs)
      · have hfds' : (s.proc (nums + 1)).fds = (Pc.closeEmpty nums).fds := hfds
        have hin : s.input N (nums + 1) = [] := hnil
        have ht : s.goto (nums + 1) (.closeEmpty nums) = t := Option.some.inj hs
        rw [← ht, Sys.goto_eq hfds']
        refine h.goto_last hlast rfl rfl (by rw [hpc]; rfl) rfl ?_ ?_ ?_
        · rw [hpc]
          exact ⟨rfl, rfl⟩
        · intro _
          exact hin
        · rw [hpc, hin]
          exact sieve_nil.symm
  | closeEmpty nums =>
      simp only [hpc, Option.some.injEq] at hs hids hfds
      rw [← hs, Sys.close_eq (by rw [hfds]; simp [Pc.fds])]
      refine h.goto_last (h.last_of hk (by rw [hpc]; rfl)) hids rfl (by rw [hpc]; rfl)
        rfl ?_ ?_ ?_
      · rw [hpc]
        exact ⟨rfl, rfl⟩
      · intro _
        exact h.drained k hk (by rw [hpc]; rfl)
      · rw [hpc]
        rfl
  | closeAgain nums =>
      simp only [hpc, Option.some.injEq] at hs hids hfds
      rw [← hs, Sys.close_eq (by rw [hfds]; simp [Pc.fds])]
      refine h.goto_last (h.last_of hk (by rw [hpc]; rfl)) trivial rfl (by rw [hpc]; rfl)
        rfl ?_ ?_ ?_
      · rw [hpc]
        exact ⟨rfl, rfl⟩
      · intro _
        exact h.drained k hk (by rw [hpc]; rfl)
      · rw [hpc]
        rfl
  | printPrime nums prime =>
      simp only [hpc, Option.some.injEq] at hs hids hfds
      exact h.printPrime (h.last_of hk (by rw [hpc]; rfl)) hpc hids hfds hs
  | pipe nums prime =>
      simp only [hpc, Option.some.injEq] at hs hids hfds
      have hlast := h.last_of hk (by rw [hpc]; rfl)
      have hnp : s.npipe = k := by
        have hnp := h.npipe
        rw [show s.nproc - 1 = k by omega, hpc] at hnp
        exact hnp
      rw [← hs, hnp]
      refine h.newPipe hlast ⟨hids, rfl⟩ rfl (by rw [hpc]; rfl) rfl (by rw [hpc]; rfl) rfl rfl
        ?_ ?_
      · rw [hfds]
        rfl
      · rw [hpc]
        rfl
  | fork nums prime p2 =>
      simp only [hpc, Option.some.injEq] at hs hids hfds
      obtain ⟨hnums, rfl⟩ := hids
      rw [← hs]
      refine h.fork (h.last_of hk (by rw [hpc]; rfl)) (by rw [hpc]; rfl) ?_ ?_ ?_ ?_
      · rw [hpc]
        exact ⟨rfl, ⟨hnums, rfl⟩, rfl, rfl, rfl⟩
      · rw [hpc]
        exact ⟨rfl, ⟨rfl, hnums⟩, rfl, rfl, rfl, by simp⟩
      · rw [hpc]
        rfl
      · intro xs
        rw [hpc]
        rfl
  | closeRead nums prime p2 =>
      simp only [hpc, Option.some.injEq] at hs hids hfds
      have hne : nums ≠ p2 := by
        obtain ⟨h₁, h₂⟩ := hids
        omega
      rw [← hs, Sys.close_eq (by rw [hfds]; simp [Pc.fds, hne])]
      refine h.goto_inner (h.inner_of hk (by rw [hpc]; rfl)) hids rfl (by rw [hpc]; rfl)
        rfl ?_ ?_
      · intro hd
        cases hd
      · rw [hpc]
        rfl
  | readNum nums prime p2 =>
      simp only [hpc] at hs hids hfds
      have hinner := h.inner_of hk (by rw [hpc]; rfl)
      obtain ⟨rfl, rfl⟩ := hids
      rcases hr : s.read (nums + 1) nums with _ | o
      · rw [hr] at hs
        cases hs
      rw [hr] at hs
      rcases h.read hk (by rw [hfds]; simp [Pc.fds]) hr with ⟨v, rest, hpipe, rfl⟩ | ⟨rfl, hnil⟩
      · exact h.readNum hinner hpc hpipe hfds (Option.some.inj hs)
      · have hfds' : (s.proc (nums + 1)).fds = (Pc.closeNums nums (nums + 1)).fds := hfds
        have hin : s.input N (nums + 1) = [] := hnil
        have ht : s.goto (nums + 1) (.closeNums nums (nums + 1)) = t := Option.some.inj hs
        rw [← ht, Sys.goto_eq hfds']
        refine h.goto_inner hinner ⟨rfl, rfl⟩ rfl (by rw [hpc]; rfl) rfl ?_ ?_
        · intro _
          exact hin
        · rw [hpc, hin]
          rfl
  | writeNum nums prime p2 num =>
      simp only [hpc] at hs hids hfds
      obtain ⟨hnums, rfl⟩ := hids
      have hids' : (Pc.readNum nums prime p2).At p2 := ⟨hnums, rfl⟩
      refine h.put_write (h.inner_of hk (by rw [hpc]; rfl)) hids' rfl (by rw [hpc]; rfl) rfl rfl
        ?_ hfds ?_ hs
      · rw [hfds]
        simp [Pc.fds]
      · rw [hpc]
        rfl
  | closeNums nums p2 =>
      simp only [hpc, Option.some.injEq] at hs hids hfds
      rw [← hs, Sys.close_eq (by rw [hfds]; simp [Pc.fds])]
      refine h.goto_inner (h.inner_of hk (by rw [hpc]; rfl)) hids.2 rfl (by rw [hpc]; rfl)
        rfl ?_ ?_
      · intro _
        exact h.drained k hk (by rw [hpc]; rfl)
      · rw [hpc]
        rfl
  | closeWrite p2 =>
      simp only [hpc, Option.some.injEq] at hs hids hfds
      rw [← hs, Sys.close_eq (by rw [hfds]; simp [Pc.fds])]
      refine h.goto_inner (h.inner_of hk (by rw [hpc]; rfl)) trivial rfl (by rw [hpc]; rfl)
        rfl ?_ ?_
      · intro _
        exact h.drained k hk (by rw [hpc]; rfl)
      · rw [hpc]
        rfl
  | wait =>
      simp only [hpc] at hs
      have hinner := h.inner_of hk (by rw [hpc]; rfl)
      rw [h.wait_eq hinner hpc] at hs
      split at hs
      · rename_i hzombie
        rw [← Option.some.inj hs]
        exact h.wait hinner hpc hzombie
      · cases hs
  | exit =>
      simp only [hpc, Option.some.injEq] at hs
      rw [← hs]
      exact h.exit hk hpc
  | zombie =>
      simp only [hpc] at hs
      cases hs
  | gone =>
      simp only [hpc] at hs
      cases hs

theorem inv_init (N : Nat) : Inv N Sys.init := by
  constructor
  · exact Nat.one_pos
  · intro k _
    rfl
  · intro k hk
    exact Nat.lt_one_iff.mp hk
  · intro k hk
    cases Nat.lt_one_iff.mp hk
  · rfl
  · rfl
  · intro _
    rfl
  · intro k hk
    cases Nat.lt_one_iff.mp hk
  · intro q k _ hp
    cases hp
  · intro k hk
    cases Nat.lt_one_iff.mp hk
  · intro k _ hd
    cases hd
  · rfl

/-! ## Progress -/

/-- Only the process before a pipe and the one after it ever hold its write end. -/
theorem Pc.writes {q : Nat} (hids : a.At q) (hmem : (j, .write) ∈ a.fds) :
    q = j ∨ q = j + 1 := by
  cases a with
  | mainFork p1 => simp_all [At, fds]
  | mainCloseRead p1 => simp_all [At, fds]
  | mainLoop p1 i => simp_all [At, fds]
  | childCloseNums nums p2 =>
      obtain rfl : j = p2 := by simpa [fds] using hmem
      exact .inr hids.1.symm
  | childCloseWrite p2 =>
      obtain rfl : j = p2 := by simpa [fds] using hmem
      exact .inr hids.symm
  | fork nums prime p2 => simp_all [At, fds]
  | closeRead nums prime p2 => simp_all [At, fds]
  | readNum nums prime p2 => simp_all [At, fds]
  | writeNum nums prime p2 num => simp_all [At, fds]
  | closeNums nums p2 => simp_all [At, fds]
  | closeWrite p2 => simp_all [At, fds]
  | _ => simp [fds] at hmem

/-- Why a process may be unable to go on. -/
inductive Stuck (cap : Nat) (s : Sys) (k : Nat) : Prop
  | exited (h : (s.proc k).pc.isExited = true)
  | full (hk : k + 1 < s.nproc) (h : cap ≤ (s.pipe k).length)
  | starved (j : Nat) (hj : j + 1 = k) (hempty : s.pipe j = [])
      (hnot : (j, .write) ∉ (s.proc k).fds) (hheld : s.held (j, .write) = true)
  | waiting (h : (s.proc k).pc = .wait)

theorem Inv.full (h : Inv N s) (hk : k + 1 < s.nproc) (hopen : (k, .write) ∈ (s.proc k).fds)
    (hne : (s.proc k).pc.rest N (s.input N k) ≠ []) {v : Nat}
    (hw : s.write cap k k v = none) : Stuck cap s k := by
  have hfuture : s.future N k ≠ [] := by
    rw [future_eq]
    simp [hne]
  rw [h.write hk hopen hfuture] at hw
  split at hw
  · cases hw
  · rename_i hlen
    exact .full hk (Nat.not_lt.mp hlen)

theorem starved (hopen : (j, .read) ∈ (s.proc (j + 1)).fds)
    (hnot : (j, .write) ∉ (s.proc (j + 1)).fds) (hr : s.read (j + 1) j = none) :
    Stuck cap s (j + 1) := by
  unfold Sys.read at hr
  rw [if_pos hopen] at hr
  split at hr
  · cases hr
  · rename_i hempty
    split at hr
    · rename_i hheld
      exact .starved j rfl hempty hnot hheld
    · cases hr

theorem Inv.stuck (h : Inv N s) (hk : k < s.nproc) (hs : s.step cap N k = none) :
    Stuck cap s k := by
  unfold Sys.step at hs
  rw [if_neg (Nat.not_le.mpr hk)] at hs
  have hids := h.ids k hk
  have hfds := h.fds k hk
  cases hpc : (s.proc k).pc with
  | mainLoop p1 i =>
      simp only [hpc] at hs hids hfds
      obtain ⟨rfl, rfl⟩ := hids
      split at hs
      · rename_i hi
        refine h.full (h.inner_of hk (by rw [hpc]; rfl)) (by rw [hfds]; simp [Pc.fds]) ?_
          (Option.map_eq_none_iff.mp hs)
        rw [hpc]
        simp [Pc.rest, upTo_of_le hi]
      · cases hs
  | readPrime nums =>
      simp only [hpc] at hs hids hfds
      obtain rfl : nums + 1 = k := hids
      exact starved (by rw [hfds]; simp [Pc.fds]) (by rw [hfds]; simp [Pc.fds])
        (Option.map_eq_none_iff.mp hs)
  | readNum nums prime p2 =>
      simp only [hpc] at hs hids hfds
      obtain ⟨rfl, rfl⟩ := hids
      exact starved (by rw [hfds]; simp [Pc.fds]) (by rw [hfds]; simp [Pc.fds])
        (Option.map_eq_none_iff.mp hs)
  | writeNum nums prime p2 num =>
      simp only [hpc] at hs hids hfds
      obtain ⟨-, rfl⟩ := hids
      refine h.full (h.inner_of hk (by rw [hpc]; rfl)) (by rw [hfds]; simp [Pc.fds]) ?_
        (Option.map_eq_none_iff.mp hs)
      rw [hpc]
      simp [Pc.rest]
  | wait => exact .waiting hpc
  | zombie => exact .exited (by rw [hpc]; rfl)
  | gone => exact .exited (by rw [hpc]; rfl)
  | _ =>
      simp only [hpc] at hs
      cases hs

theorem Pc.isDrained_of_isExited (h : a.isExited = true) : a.isDrained = true := by
  cases a <;> simp_all [isExited, isDrained]

/-- **No pipe is full** when all are stuck: the reader of the last full pipe could go
on. -/
theorem Inv.not_full (h : Inv N s) (hcap : 1 ≤ cap)
    (hstuck : ∀ k, k < s.nproc → Stuck cap s k) (n : Nat) :
    ∀ k, s.nproc = k + 1 + n → k + 1 < s.nproc → (s.pipe k).length < cap := by
  induction n with
  | zero =>
      intro k hn hk
      omega
  | succ n ih =>
      intro k hn hk
      by_contra hfull
      have hpipe : s.pipe k ≠ [] := by
        intro hnil
        rw [hnil] at hfull
        exact hfull hcap
      have hne : s.future N k ≠ [] := by
        rw [future_eq]
        simp [hpipe]
      have hlive := (h.reader hk hne).1
      cases hstuck (k + 1) hk with
      | exited hx =>
          rw [Pc.isDrained_of_isExited hx] at hlive
          cases hlive
      | full hk' hlen =>
          have hlt := ih (k + 1) (by omega) hk'
          omega
      | starved j hj hempty _ _ =>
          obtain rfl : j = k := Nat.succ.inj hj
          exact hpipe hempty
      | waiting hw =>
          rw [hw] at hlive
          cases hlive

theorem Pc.fds_of_isExited (h : a.isExited = true) : a.fds = [] := by
  cases a <;> simp_all [isExited, fds]

/-- The writer a starved reader waits for is starved itself. -/
theorem Inv.writer_starved (h : Inv N s) (hcap : 1 ≤ cap)
    (hstuck : ∀ k, k < s.nproc → Stuck cap s k) (hj : j + 1 < s.nproc)
    (hnot : (j, .write) ∉ (s.proc (j + 1)).fds) (hheld : s.held (j, .write) = true) :
    ∃ i, i + 1 = j ∧ (i, .write) ∉ (s.proc j).fds ∧ s.held (i, .write) = true := by
  obtain ⟨q, hq, hmem⟩ := held_iff.mp hheld
  have hends := hmem
  rw [h.fds q hq] at hends
  rcases Pc.writes (h.ids q hq) hends with rfl | rfl
  swap
  · exact absurd hmem hnot
  cases hstuck q hq with
  | exited hx =>
      rw [Pc.fds_of_isExited hx] at hends
      cases hends
  | full hk hlen =>
      have hlt := h.not_full hcap hstuck (s.nproc - (q + 1)) q (by omega) hk
      omega
  | starved i hi _ hnot' hheld' => exact ⟨i, hi, hnot', hheld'⟩
  | waiting hw =>
      rw [hw] at hends
      cases hends

/-- **No reader is starved** when all are stuck: the first one waits for a writer that
could go on. -/
theorem Inv.not_starved (h : Inv N s) (hcap : 1 ≤ cap)
    (hstuck : ∀ k, k < s.nproc → Stuck cap s k) (j : Nat) (hj : j + 1 < s.nproc)
    (hnot : (j, .write) ∉ (s.proc (j + 1)).fds) : s.held (j, .write) = false := by
  induction j with
  | zero =>
      by_contra hheld
      obtain ⟨i, hi, -⟩ := h.writer_starved hcap hstuck hj hnot (by simpa using hheld)
      cases hi
  | succ j ih =>
      by_contra hheld
      obtain ⟨i, hi, hnot', hheld'⟩ :=
        h.writer_starved hcap hstuck hj hnot (by simpa using hheld)
      obtain rfl : i = j := Nat.succ.inj hi
      rw [ih (by omega) hnot'] at hheld'
      cases hheld'

/-- **No process waits** when all are stuck: the last one that waits has a child that has
exited. -/
theorem Inv.not_waiting (h : Inv N s) (hcap : 1 ≤ cap)
    (hs : ∀ k, k < s.nproc → s.step cap N k = none) (n : Nat) :
    ∀ k, s.nproc = k + 1 + n → (s.proc k).pc ≠ .wait := by
  have hstuck : ∀ k, k < s.nproc → Stuck cap s k := fun k hk => h.stuck hk (hs k hk)
  induction n with
  | zero =>
      intro k hn hw
      have hk := h.inner_of (k := k) (by omega) (by rw [hw]; rfl)
      omega
  | succ n ih =>
      intro k hn hw
      have hk : k + 1 < s.nproc := by omega
      have hnz : (s.proc (k + 1)).pc ≠ .zombie := by
        intro hz
        have hnone := hs k (by omega)
        unfold Sys.step at hnone
        rw [if_neg (by omega)] at hnone
        simp only [hw, h.wait_eq hk hw, if_pos hz] at hnone
        cases hnone
      have hng : (s.proc (k + 1)).pc ≠ .gone :=
        (of_decide_eq_true (h.next_child hk hw)).2
      cases hstuck (k + 1) hk with
      | exited hx =>
          cases hpc : (s.proc (k + 1)).pc <;> simp_all [Pc.isExited]
      | full hk' hlen =>
          have hlt := h.not_full hcap hstuck n (k + 1) (by omega) hk'
          omega
      | starved j hj _ hnot hheld =>
          obtain rfl : j = k := Nat.succ.inj hj
          rw [h.not_starved hcap hstuck j hk hnot] at hheld
          cases hheld
      | waiting hw' => exact ih (k + 1) (by omega) hw'

/-- **Progress**: when no process can go on, all have exited. -/
theorem Inv.progress (h : Inv N s) (hcap : 1 ≤ cap)
    (hs : ∀ k, k < s.nproc → s.step cap N k = none) : s.AllExited := by
  have hstuck : ∀ k, k < s.nproc → Stuck cap s k := fun k hk => h.stuck hk (hs k hk)
  intro k hk
  cases hstuck k hk with
  | exited hx =>
      cases hpc : (s.proc k).pc <;> simp_all [Pc.isExited]
  | full hk' hlen =>
      have hlt := h.not_full hcap hstuck (s.nproc - (k + 1)) k (by omega) hk'
      omega
  | starved j hj _ hnot hheld =>
      subst hj
      rw [h.not_starved hcap hstuck j hk hnot] at hheld
      cases hheld
  | waiting hw => exact absurd hw (h.not_waiting hcap hs (s.nproc - (k + 1)) k (by omega))

theorem Inv.printed (h : Inv N s) (hexit : s.AllExited) : s.out = sieve (upTo 2 N) := by
  have hpos := h.pos
  have hout := h.out
  rcases hexit (s.nproc - 1) (by omega) with hpc | hpc
  · rw [hpc] at hout
    rwa [← List.append_nil s.out]
  · rw [hpc] at hout
    rwa [← List.append_nil s.out]

/-- **The pipeline computes the sieve on every schedule.** No state that a run reaches is
stuck before all processes have exited, and when they have, the primes up to `N` have been
printed, in increasing order, each once. -/
theorem primes_pipeline {pids : List Nat} (hcap : 1 ≤ cap)
    (hr : Run (Step cap N) Sys.init pids s) :
    (¬ s.AllExited → ∃ pid t, Step cap N s pid t) ∧
      (s.AllExited → s.out.Pairwise (· < ·) ∧
        ∀ p, p ∈ s.out ↔ p.Prime ∧ 2 ≤ p ∧ p ≤ N) := by
  have h : Inv N s := hr.invariant (I := Inv N) (fun _ _ _ hi hs => hi.step hs) (inv_init N)
  constructor
  · intro hlive
    by_contra hnone
    refine hlive (h.progress hcap (fun k _ => ?_))
    by_contra hsome
    obtain ⟨t, ht⟩ := Option.ne_none_iff_exists'.mp hsome
    exact hnone ⟨k, t, ht⟩
  · intro hexit
    have hsieve := sievable_upTo N
    rw [h.printed hexit, sieve_eq_primes hsieve]
    refine ⟨hsieve.sorted.filter _, fun p => ?_⟩
    rw [List.mem_filter, mem_upTo, decide_eq_true_eq]
    exact and_comm

/-- A schedule of the four processes that sieve the numbers up to 4. -/
def upToFour : List Nat :=
  [0, 0, 0, 0, 1, 1, 0, 1, 1, 1, 1, 1, 0, 0, 0, 1, 1, 1, 1, 1, 2, 2, 2, 2, 2, 2, 2, 2, 2, 2,
    3, 3, 3, 3, 3, 3, 2, 2, 1, 1, 0, 0]

theorem primes_pipeline_upToFour : ∃ s, Run (Step 1 4) Sys.init upToFour s ∧ s.AllExited ∧
    ∀ p, p ∈ s.out ↔ p.Prime ∧ 2 ≤ p ∧ p ≤ 4 := by
  have hdone : (upToFour.foldlM (fun (s : Sys) pid => s.step 1 4 pid) Sys.init).map
      (fun s => (List.range s.nproc).all (fun q => (s.proc q).pc.isExited)) = some true := rfl
  obtain ⟨s, hs, hall⟩ := Option.map_eq_some_iff.mp hdone
  have hr : Run (Step 1 4) Sys.init upToFour s := Run.iff_foldlM.mpr hs
  have hexit : s.AllExited := by
    intro q hq
    have hx := List.all_eq_true.mp hall q (List.mem_range.mpr hq)
    cases hpc : (s.proc q).pc <;> simp_all [Pc.isExited]
  exact ⟨s, hr, hexit, ((primes_pipeline (Nat.le_refl 1) hr).2 hexit).2⟩

end Xv6Labs.Primes
