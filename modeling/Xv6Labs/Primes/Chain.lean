import Xv6Labs.Lib.Run
import Xv6Labs.Lib.Sieve
import Xv6Labs.Primes.Pipeline

/-!
# The chain of processes

Process `k` reads pipe `k - 1` and writes pipe `k`. What a process holds and what
it will still write is a function of its program counter (`Pc.fds`, `Pc.rest`),
so the numbers that will still come out of a pipe are a function of the state
(`Sys.future`): those in it, and those its writer will still put there. A step
takes at most the head off one of these streams and leaves all others alone. What
the last process will print of its stream, after what was printed, is the whole
sieve (`Inv.out`).
-/

namespace Xv6Labs.Primes

open Xv6Labs.Lib

namespace Pc

def fds : Pc → List (Nat × End)
  | mainFork p1 => [(p1, .read), (p1, .write)]
  | mainCloseRead p1 => [(p1, .read), (p1, .write)]
  | mainLoop p1 _ => [(p1, .write)]
  | childCloseNums nums p2 => [(nums, .read), (p2, .read), (p2, .write)]
  | childCloseWrite p2 => [(p2, .read), (p2, .write)]
  | readPrime nums => [(nums, .read)]
  | closeEmpty nums => [(nums, .read)]
  | printPrime nums _ => [(nums, .read)]
  | pipe nums _ => [(nums, .read)]
  | fork nums _ p2 => [(nums, .read), (p2, .read), (p2, .write)]
  | closeRead nums _ p2 => [(nums, .read), (p2, .read), (p2, .write)]
  | readNum nums _ p2 => [(nums, .read), (p2, .write)]
  | writeNum nums _ p2 _ => [(nums, .read), (p2, .write)]
  | closeNums nums p2 => [(nums, .read), (p2, .write)]
  | closeWrite p2 => [(p2, .write)]
  | _ => []

def At (k : Nat) : Pc → Prop
  | mainPipe => k = 0
  | mainFork p1 => k = 0 ∧ p1 = 0
  | mainCloseRead p1 => k = 0 ∧ p1 = 0
  | mainLoop p1 _ => k = 0 ∧ p1 = 0
  | childCloseNums nums p2 => p2 + 1 = k ∧ nums + 1 = p2
  | childCloseWrite p2 => p2 + 1 = k
  | readPrime nums => nums + 1 = k
  | closeEmpty nums => nums + 1 = k
  | closeAgain nums => nums + 1 = k
  | printPrime nums _ => nums + 1 = k
  | pipe nums _ => nums + 1 = k
  | fork nums _ p2 => nums + 1 = k ∧ p2 = k
  | closeRead nums _ p2 => nums + 1 = k ∧ p2 = k
  | readNum nums _ p2 => nums + 1 = k ∧ p2 = k
  | writeNum nums _ p2 _ => nums + 1 = k ∧ p2 = k
  | closeNums nums p2 => nums + 1 = k ∧ p2 = k
  | closeWrite p2 => p2 = k
  | _ => True

def isLast : Pc → Bool
  | mainCloseRead _ | mainLoop _ _ | closeRead _ _ _ | readNum _ _ _ | writeNum _ _ _ _
  | closeNums _ _ | closeWrite _ | wait => false
  | _ => true

def isInner : Pc → Bool
  | mainCloseRead _ | mainLoop _ _ | closeRead _ _ _ | readNum _ _ _ | writeNum _ _ _ _
  | closeNums _ _ | closeWrite _ | wait | exit | zombie | gone => true
  | _ => false

/-- It has a pipe and no child to read it. -/
def isForking : Pc → Bool
  | mainFork _ | fork _ _ _ => true
  | _ => false

/-- It is past its `wait`, or has none to do. -/
def isEnded : Pc → Bool
  | exit | zombie | gone => true
  | _ => false

def isExited : Pc → Bool
  | zombie | gone => true
  | _ => false

/-- It has seen the end of its input. -/
def isDrained : Pc → Bool
  | closeEmpty _ | closeAgain _ | closeNums _ _ | closeWrite _ | wait | exit | zombie
  | gone => true
  | _ => false

/-- What it will still write, when `xs` is what it will still read. -/
def rest (N : Nat) : Pc → List Nat → List Nat
  | mainFork _, _ => upTo 2 N
  | mainCloseRead _, _ => upTo 2 N
  | mainLoop _ i, _ => upTo i N
  | fork _ prime _, xs => sift prime xs
  | closeRead _ prime _, xs => sift prime xs
  | readNum _ prime _, xs => sift prime xs
  | writeNum _ prime _ num, xs => num :: sift prime xs
  | _, _ => []

/-- What the last process and those after it will still print, when `xs` is what
it will still read. -/
def todo (N : Nat) : Pc → List Nat → List Nat
  | mainPipe, _ => sieve (upTo 2 N)
  | mainFork _, _ => sieve (upTo 2 N)
  | childCloseNums _ _, xs => sieve xs
  | childCloseWrite _, xs => sieve xs
  | readPrime _, xs => sieve xs
  | printPrime _ prime, xs => prime :: sieve (sift prime xs)
  | pipe _ prime, xs => sieve (sift prime xs)
  | fork _ prime _, xs => sieve (sift prime xs)
  | _, _ => []

end Pc

/-- What will still come out of pipe `j`. -/
def Sys.future (N : Nat) (s : Sys) : Nat → List Nat
  | 0 => s.pipe 0 ++ (s.proc 0).pc.rest N []
  | j + 1 => s.pipe (j + 1) ++ (s.proc (j + 1)).pc.rest N (s.future N j)

def Sys.input (N : Nat) (s : Sys) (k : Nat) : List Nat :=
  if k = 0 then [] else s.future N (k - 1)

structure Inv (N : Nat) (s : Sys) : Prop where
  pos : 0 < s.nproc
  fds : ∀ k, k < s.nproc → (s.proc k).fds = (s.proc k).pc.fds
  ids : ∀ k, k < s.nproc → (s.proc k).pc.At k
  inner : ∀ k, k + 1 < s.nproc → (s.proc k).pc.isInner = true
  last : (s.proc (s.nproc - 1)).pc.isLast = true
  npipe : s.npipe = if (s.proc (s.nproc - 1)).pc.isForking then s.nproc else s.nproc - 1
  empty : (s.proc (s.nproc - 1)).pc.isForking = true → s.pipe (s.nproc - 1) = []
  parent : ∀ k, k + 1 < s.nproc → (s.proc k).pc.isExited = false →
    (s.proc (k + 1)).parent = some k
  child : ∀ q k, q < s.nproc → (s.proc q).parent = some k → q = k + 1
  /-- a process that ended has waited for its child -/
  waited : ∀ k, k + 1 < s.nproc →
    ((s.proc k).pc.isEnded = true ↔ (s.proc (k + 1)).pc = .gone)
  drained : ∀ k, k < s.nproc → (s.proc k).pc.isDrained = true → s.input N k = []
  out : s.out ++ (s.proc (s.nproc - 1)).pc.todo N (s.input N (s.nproc - 1)) =
    sieve (upTo 2 N)

variable {cap N k : Nat} {s t : Sys} {b : Pc} {pipe : Nat → List Nat}

/-! ## Streams -/

theorem future_eq (N : Nat) (s : Sys) (k : Nat) :
    s.future N k = s.pipe k ++ (s.proc k).pc.rest N (s.input N k) := by
  cases k with
  | zero => rfl
  | succ k => rfl

theorem future_congr : ∀ j, (∀ q, q ≤ j → (t.proc q).pc = (s.proc q).pc) →
    (∀ q, q ≤ j → t.pipe q = s.pipe q) → t.future N j = s.future N j
  | 0, hproc, hpipe => by
      simp only [Sys.future]
      rw [hproc 0 (Nat.le_refl 0), hpipe 0 (Nat.le_refl 0)]
  | j + 1, hproc, hpipe => by
      simp only [Sys.future]
      rw [hproc (j + 1) (Nat.le_refl _), hpipe (j + 1) (Nat.le_refl _),
        future_congr j (fun q hq => hproc q (by omega)) (fun q hq => hpipe q (by omega))]

theorem input_congr {j : Nat} (hproc : ∀ q, q < j → (t.proc q).pc = (s.proc q).pc)
    (hpipe : ∀ q, q < j → t.pipe q = s.pipe q) : t.input N j = s.input N j := by
  unfold Sys.input
  split
  · rfl
  · exact future_congr (j - 1) (fun q hq => hproc q (by omega))
      (fun q hq => hpipe q (by omega))

/-- **Streams and one process**: if only process `k` moves, on its two pipes, and
what comes out of its own pipe is the same, then only its input can change. -/
theorem input_move (hproc : ∀ q, q ≠ k → (t.proc q).pc = (s.proc q).pc)
    (hpipe : ∀ j, j + 1 ≠ k → j ≠ k → t.pipe j = s.pipe j)
    (hself : t.future N k = s.future N k) {j : Nat} (hj : j ≠ k) :
    t.input N j = s.input N j := by
  have hfuture : ∀ j, j + 1 ≠ k → t.future N j = s.future N j := by
    intro j
    induction j with
    | zero =>
        intro hj
        by_cases hk : k = 0
        · subst hk
          exact hself
        · simp only [Sys.future]
          rw [hpipe 0 hj (Ne.symm hk), hproc 0 (Ne.symm hk)]
    | succ j ih =>
        intro hj
        by_cases hk : k = j + 1
        · subst hk
          exact hself
        · simp only [Sys.future]
          rw [hpipe (j + 1) hj (Ne.symm hk), hproc (j + 1) (Ne.symm hk), ih (Ne.symm hk)]
  unfold Sys.input
  split
  · rfl
  · exact hfuture (j - 1) (by omega)

/-! ## One process moves -/

def Sys.put (s : Sys) (k : Nat) (b : Pc) : Sys :=
  { s with proc := Function.update s.proc k ⟨b, b.fds, (s.proc k).parent⟩ }

theorem Sys.goto_eq (h : (s.proc k).fds = b.fds) : s.goto k b = s.put k b := by
  unfold Sys.put
  rw [← h]
  rfl

theorem Sys.close_eq {e : Nat × End} (h : (s.proc k).fds.erase e = b.fds) :
    s.close k e b = s.put k b := by
  unfold Sys.put
  rw [← h]
  rfl

@[simp] theorem Sys.put_nproc : (s.put k b).nproc = s.nproc := rfl

@[simp] theorem Sys.put_npipe : (s.put k b).npipe = s.npipe := rfl

@[simp] theorem Sys.put_pipe : (s.put k b).pipe = s.pipe := rfl

@[simp] theorem Sys.put_out : (s.put k b).out = s.out := rfl

@[simp] theorem Sys.put_self :
    (s.put k b).proc k = ⟨b, b.fds, (s.proc k).parent⟩ := Function.update_self ..

theorem Sys.put_of_ne {q : Nat} (h : q ≠ k) : (s.put k b).proc q = s.proc q :=
  Function.update_of_ne h _ _

theorem Pc.isExited_of_isEnded {a : Pc} (h : a.isEnded = false) : a.isExited = false := by
  cases a <;> simp_all [Pc.isEnded, Pc.isExited]

theorem Pc.ne_gone_of_isExited {a : Pc} (h : a.isExited = false) : a ≠ .gone := by
  rintro rfl
  cases h

/-- **One process moves**, and the streams of the others stay. -/
theorem Inv.move (h : Inv N s) (hk : k < s.nproc) (hn : t.nproc = s.nproc)
    (hother : ∀ q, q ≠ k → t.proc q = s.proc q)
    (hself : t.proc k = ⟨b, b.fds, (s.proc k).parent⟩) (hids : b.At k)
    (hinner : k + 1 < s.nproc → b.isInner = true ∧ b.isEnded = false)
    (hlast : k + 1 = s.nproc → b.isLast = true)
    (hend : (s.proc k).pc.isEnded = false) (hexit : b.isExited = false)
    (hnp : t.npipe = if (t.proc (s.nproc - 1)).pc.isForking then s.nproc else s.nproc - 1)
    (hempty : (t.proc (s.nproc - 1)).pc.isForking = true → t.pipe (s.nproc - 1) = [])
    (hinput : ∀ j, j < s.nproc → j ≠ k → t.input N j = s.input N j)
    (hdrain : b.isDrained = true → t.input N k = [])
    (hout : t.out ++ (t.proc (s.nproc - 1)).pc.todo N (t.input N (s.nproc - 1)) =
      sieve (upTo 2 N)) : Inv N t := by
  have hpc : (t.proc k).pc = b := by rw [hself]
  have hparent : ∀ q, (t.proc q).parent = (s.proc q).parent := by
    intro q
    by_cases hq : q = k
    · rw [hq, hself]
    · rw [hother q hq]
  refine ⟨hn ▸ h.pos, fun q hq => ?_, fun q hq => ?_, fun q hq => ?_, ?_, by rwa [hn],
    by rwa [hn], fun q hq hlive => ?_, fun q j hq hj => ?_, fun q hq => ?_, fun q hq hd => ?_,
    by rwa [hn]⟩
  · by_cases hqk : q = k
    · rw [hqk, hself]
    · rw [hother q hqk]
      exact h.fds q (hn ▸ hq)
  · by_cases hqk : q = k
    · rw [hqk, hself]
      exact hids
    · rw [hother q hqk]
      exact h.ids q (hn ▸ hq)
  · rw [hn] at hq
    by_cases hqk : q = k
    · rw [hqk, hself]
      exact (hinner (hqk ▸ hq)).1
    · rw [hother q hqk]
      exact h.inner q hq
  · rw [hn]
    by_cases hqk : s.nproc - 1 = k
    · rw [hqk, hself]
      exact hlast (by omega)
    · rw [hother _ hqk]
      exact h.last
  · rw [hn] at hq
    rw [hparent]
    refine h.parent q hq ?_
    by_cases hqk : q = k
    · rw [hqk]
      exact Pc.isExited_of_isEnded hend
    · rwa [hother q hqk] at hlive
  · rw [hparent] at hj
    exact h.child q j (hn ▸ hq) hj
  · rw [hn] at hq
    have hold := h.waited q hq
    by_cases hqk : q = k
    · subst hqk
      rw [hother (q + 1) (by omega), hpc, (hinner hq).2, ← hold, hend]
    · by_cases hqk' : q + 1 = k
      · subst hqk'
        rw [hother q hqk, hpc]
        have hb := Pc.ne_gone_of_isExited hexit
        have ha := Pc.ne_gone_of_isExited (Pc.isExited_of_isEnded hend)
        simp only [ha, hb, iff_false] at hold ⊢
        exact hold
      · rw [hother q hqk, hother (q + 1) hqk']
        exact hold
  · rw [hn] at hq
    by_cases hqk : q = k
    · subst hqk
      rw [hpc] at hd
      exact hdrain hd
    · rw [hinput q hq hqk]
      rw [hother q hqk] at hd
      exact h.drained q hq hd

theorem Inv.put_inner (h : Inv N s) (hk : k + 1 < s.nproc)
    (hpipe : ∀ j, j + 1 ≠ k → j ≠ k → pipe j = s.pipe j) (hids : b.At k)
    (hinner : b.isInner = true) (hend : (s.proc k).pc.isEnded = false)
    (hend' : b.isEnded = false)
    (hdrain : b.isDrained = true → ({ s with pipe := pipe } : Sys).input N k = [])
    (hfuture : pipe k ++ b.rest N (({ s with pipe := pipe } : Sys).input N k) =
      s.future N k) : Inv N (({ s with pipe := pipe } : Sys).put k b) := by
  have hin : (({ s with pipe := pipe } : Sys).put k b).input N k =
      ({ s with pipe := pipe } : Sys).input N k :=
    input_congr (fun q hq => by rw [Sys.put_of_ne (by omega)]) (fun q _ => rfl)
  have hlast : ∀ q, q ≠ k → (({ s with pipe := pipe } : Sys).put k b).proc q = s.proc q :=
    fun q hq => Sys.put_of_ne hq
  have hinput : ∀ j, j ≠ k → (({ s with pipe := pipe } : Sys).put k b).input N j =
      s.input N j := fun j hj => by
    refine input_move (fun q hq => by rw [hlast q hq]) hpipe ?_ hj
    rw [future_eq, hin, Sys.put_self]
    exact hfuture
  refine h.move (by omega) rfl hlast Sys.put_self hids (fun _ => ⟨hinner, hend'⟩)
    (fun hh => by omega) hend (Pc.isExited_of_isEnded hend') ?_ ?_ (fun j _ hj => hinput j hj)
    (fun hd => hin.trans (hdrain hd)) ?_
  · rw [hlast _ (by omega)]
    exact h.npipe
  · rw [hlast _ (by omega)]
    intro hf
    rw [← h.empty hf]
    exact hpipe _ (by omega) (by omega)
  · rw [hlast _ (by omega), hinput _ (by omega)]
    exact h.out

theorem Inv.put_last (h : Inv N s) (hk : k + 1 = s.nproc) {u : Sys}
    (hn : u.nproc = s.nproc) (hproc : u.proc = s.proc)
    (hpipe : ∀ j, j + 1 < k → u.pipe j = s.pipe j) (hids : b.At k)
    (hlast : b.isLast = true) (hend : (s.proc k).pc.isEnded = false)
    (hexit : b.isExited = false)
    (hnp : u.npipe = if b.isForking then s.nproc else s.nproc - 1)
    (hempty : b.isForking = true → u.pipe k = [])
    (hdrain : b.isDrained = true → u.input N k = [])
    (hout : u.out ++ b.todo N (u.input N k) = sieve (upTo 2 N)) : Inv N (u.put k b) := by
  have hkk : s.nproc - 1 = k := by omega
  have hin : (u.put k b).input N k = u.input N k :=
    input_congr (fun q hq => by rw [Sys.put_of_ne (by omega)]) (fun q _ => rfl)
  have hpc : ((u.put k b).proc (s.nproc - 1)).pc = b := by
    rw [hkk, Sys.put_self]
  refine h.move (by omega) hn (fun q hq => by rw [Sys.put_of_ne hq, hproc])
    (by rw [Sys.put_self, hproc]) hids (fun hh => by omega) (fun _ => hlast) hend hexit ?_ ?_
    (fun j hj hne => ?_) (fun hd => hin.trans (hdrain hd)) ?_
  · rw [hpc]
    exact hnp
  · rw [hpc, hkk]
    exact hempty
  · refine input_congr (fun q hq => by rw [Sys.put_of_ne (by omega), hproc])
      (fun q hq => hpipe q (by omega))
  · rw [hpc, hkk, hin]
    exact hout

/-! ## `fork`, `wait` and `exit` -/

theorem future_congr_rest (hrest : ∀ q, (t.proc q).pc.rest N = (s.proc q).pc.rest N)
    (hpipe : t.pipe = s.pipe) (j : Nat) : t.future N j = s.future N j := by
  induction j with
  | zero =>
      simp only [Sys.future]
      rw [hpipe, hrest]
  | succ j ih =>
      simp only [Sys.future]
      rw [hpipe, hrest, ih]

theorem Pc.ne_gone_of_isEnded {a : Pc} (h : a.isEnded = false) : a ≠ .gone :=
  ne_gone_of_isExited (isExited_of_isEnded h)

/-- **The last process forks**: the child is the last one now, and reads what its parent
will write. -/
theorem Inv.fork (h : Inv N s) (hk : k + 1 = s.nproc) {c : Pc}
    (hforking : (s.proc k).pc.isForking = true)
    (hb : b.fds = (s.proc k).pc.fds ∧ b.At k ∧ b.isInner = true ∧ b.isEnded = false ∧
      b.isDrained = false)
    (hc : c.fds = (s.proc k).pc.fds ∧ c.At (k + 1) ∧ c.isLast = true ∧
      c.isForking = false ∧ c.isDrained = false ∧ c ≠ .gone)
    (hend : (s.proc k).pc.isEnded = false)
    (htodo : ∀ xs, c.todo N (b.rest N xs) = (s.proc k).pc.todo N xs) :
    Inv N (s.fork k b c) := by
  obtain ⟨hbfds, hbids, hbinner, hbend, hbdrain⟩ := hb
  obtain ⟨hcfds, hcids, hclast, hcfork, hcdrain, hcgone⟩ := hc
  have hlast : s.nproc - 1 = k := by omega
  have hself : (s.fork k b c).proc k = ⟨b, (s.proc k).fds, (s.proc k).parent⟩ :=
    Function.update_self ..
  have hnew : (s.fork k b c).proc (k + 1) = ⟨c, (s.proc k).fds, some k⟩ := by
    show Function.update (Function.update _ _ _) _ _ _ = _
    rw [Function.update_of_ne (by omega), ← hk, Function.update_self]
  have hother : ∀ q, q < k → (s.fork k b c).proc q = s.proc q := by
    intro q hq
    show Function.update (Function.update _ _ _) _ _ _ = _
    rw [Function.update_of_ne (by omega), Function.update_of_ne (by omega)]
  have hn : (s.fork k b c).nproc = k + 1 + 1 := by
    show s.nproc + 1 = _
    rw [hk]
  have hinput : ∀ j, j ≤ k → (s.fork k b c).input N j = s.input N j := fun j hj =>
    input_congr (fun q hq => by rw [hother q (by omega)]) (fun q _ => rfl)
  have hfds := h.fds k (by omega)
  constructor
  · rw [hn]
    omega
  · rw [hn]
    intro q hq
    rcases Nat.lt_trichotomy q k with hlt | rfl | hgt
    · rw [hother q hlt]
      exact h.fds q (by omega)
    · rw [hself, hbfds]
      exact hfds
    · obtain rfl : q = k + 1 := by omega
      rw [hnew, hcfds]
      exact hfds
  · rw [hn]
    intro q hq
    rcases Nat.lt_trichotomy q k with hlt | rfl | hgt
    · rw [hother q hlt]
      exact h.ids q (by omega)
    · rw [hself]
      exact hbids
    · obtain rfl : q = k + 1 := by omega
      rw [hnew]
      exact hcids
  · rw [hn]
    intro q hq
    rcases Nat.lt_or_eq_of_le (Nat.le_of_lt_succ (Nat.lt_of_succ_lt_succ hq)) with hlt | rfl
    · rw [hother q hlt]
      exact h.inner q (by omega)
    · rw [hself]
      exact hbinner
  · rw [hn, Nat.add_sub_cancel, hnew]
    exact hclast
  · rw [hn, Nat.add_sub_cancel, hnew]
    have hnp := h.npipe
    rw [hlast, if_pos hforking] at hnp
    simp only [hcfork, Bool.false_eq_true, if_false]
    exact hnp.trans hk.symm
  · rw [hn, Nat.add_sub_cancel, hnew]
    intro hf
    rw [hcfork] at hf
    cases hf
  · rw [hn]
    intro q hq hlive
    rcases Nat.lt_or_eq_of_le (Nat.le_of_lt_succ (Nat.lt_of_succ_lt_succ hq)) with hlt | rfl
    · rw [hother q hlt] at hlive
      have hold := h.parent q (by omega) hlive
      rcases Nat.lt_or_eq_of_le (Nat.succ_le_of_lt hlt) with hlt' | heq
      · rw [hother _ hlt']
        exact hold
      · have heq' : q + 1 = k := heq
        rw [heq'] at hold ⊢
        rw [hself]
        exact hold
    · rw [hnew]
  · rw [hn]
    intro q j hq hj
    rcases Nat.lt_trichotomy q k with hlt | rfl | hgt
    · rw [hother q hlt] at hj
      exact h.child q j (by omega) hj
    · rw [hself] at hj
      exact h.child q j (by omega) hj
    · obtain rfl : q = k + 1 := by omega
      rw [hnew] at hj
      obtain rfl : k = j := Option.some.inj hj
      rfl
  · rw [hn]
    intro q hq
    rcases Nat.lt_or_eq_of_le (Nat.le_of_lt_succ (Nat.lt_of_succ_lt_succ hq)) with hlt | rfl
    · have hold := h.waited q (by omega)
      rw [hother q hlt]
      rcases Nat.lt_or_eq_of_le (Nat.succ_le_of_lt hlt) with hlt' | heq
      · rw [hother _ hlt']
        exact hold
      · have heq' : q + 1 = k := heq
        rw [heq'] at hold ⊢
        rw [hself]
        simp only [Pc.ne_gone_of_isEnded hend, Pc.ne_gone_of_isEnded hbend, iff_false]
          at hold ⊢
        exact hold
    · rw [hself, hnew]
      simp only [hbend, hcgone, Bool.false_eq_true]
  · rw [hn]
    intro q hq hd
    rcases Nat.lt_trichotomy q k with hlt | rfl | hgt
    · rw [hother q hlt] at hd
      rw [hinput q (by omega)]
      exact h.drained q (by omega) hd
    · rw [hself, hbdrain] at hd
      cases hd
    · obtain rfl : q = k + 1 := by omega
      rw [hnew, hcdrain] at hd
      cases hd
  · rw [hn, Nat.add_sub_cancel, hnew]
    have hout := h.out
    have hempty := h.empty
    rw [hlast] at hout hempty
    have hin : (s.fork k b c).input N (k + 1) = b.rest N (s.input N k) := by
      show (s.fork k b c).future N k = _
      rw [future_eq, hself, hinput k (Nat.le_refl k)]
      show s.pipe k ++ _ = _
      rw [hempty hforking]
      rfl
    rw [hin, htodo]
    exact hout

def Pc.isDone : Pc → Bool
  | wait | exit | zombie | gone => true
  | _ => false

theorem Pc.isDone_cases {a : Pc} (h : a.isDone = true) :
    a = .wait ∨ a = .exit ∨ a = .zombie ∨ a = .gone := by
  cases a <;> simp_all [Pc.isDone]

theorem Pc.isEnded_cases {a : Pc} (h : a.isEnded = true) :
    a = .exit ∨ a = .zombie ∨ a = .gone := by
  cases a <;> simp_all [Pc.isEnded]

/-- A process stays where it is, or moves on past its last `close`. -/
def Settles (a b : Pc) : Prop := a = b ∨ a.isDone = true ∧ b.isEnded = true

variable {a : Pc}

theorem Settles.at (h : Settles a b) (ha : a.At k) : b.At k := by
  rcases h with rfl | ⟨-, hb⟩
  · exact ha
  · rcases Pc.isEnded_cases hb with rfl | rfl | rfl <;> trivial

theorem Settles.isInner (h : Settles a b) (ha : a.isInner = true) : b.isInner = true := by
  rcases h with rfl | ⟨-, hb⟩
  · exact ha
  · rcases Pc.isEnded_cases hb with rfl | rfl | rfl <;> rfl

theorem Settles.isLast (h : Settles a b) (ha : a.isLast = true) : b.isLast = true := by
  rcases h with rfl | ⟨-, hb⟩
  · exact ha
  · rcases Pc.isEnded_cases hb with rfl | rfl | rfl <;> rfl

theorem Settles.isDrained (h : Settles a b) (hb : b.isDrained = true) :
    a.isDrained = true := by
  rcases h with rfl | ⟨ha, -⟩
  · exact hb
  · rcases Pc.isDone_cases ha with rfl | rfl | rfl | rfl <;> rfl

/-- Past its last `close` a process has no pipe end to use. -/
theorem Settles.quiet (h : Settles a b) (N : Nat) :
    b.isForking = a.isForking ∧ b.rest N = a.rest N ∧ b.todo N = a.todo N := by
  rcases h with rfl | ⟨ha, hb⟩
  · exact ⟨rfl, rfl, rfl⟩
  · rcases Pc.isDone_cases ha with rfl | rfl | rfl | rfl <;>
      rcases Pc.isEnded_cases hb with rfl | rfl | rfl <;> exact ⟨rfl, rfl, rfl⟩

theorem Inv.settle (h : Inv N s) (hn : t.nproc = s.nproc) (hnp : t.npipe = s.npipe)
    (hpipe : t.pipe = s.pipe) (hout : t.out = s.out)
    (hpc : ∀ q, Settles (s.proc q).pc (t.proc q).pc)
    (hfds : ∀ q, q < s.nproc → (t.proc q).fds = (t.proc q).pc.fds)
    (hparent : ∀ q, q + 1 < s.nproc → (t.proc q).pc.isExited = false →
      (t.proc (q + 1)).parent = some q)
    (hchild : ∀ q, (t.proc q).parent = none ∨ (t.proc q).parent = (s.proc q).parent)
    (hwaited : ∀ q, q + 1 < s.nproc →
      ((t.proc q).pc.isEnded = true ↔ (t.proc (q + 1)).pc = .gone)) : Inv N t := by
  have hinput : ∀ j, t.input N j = s.input N j := by
    intro j
    unfold Sys.input
    rw [future_congr_rest (fun q => ((hpc q).quiet N).2.1) hpipe]
  constructor
  · rw [hn]
    exact h.pos
  · rw [hn]
    exact hfds
  · rw [hn]
    intro q hq
    exact (hpc q).at (h.ids q hq)
  · rw [hn]
    intro q hq
    exact (hpc q).isInner (h.inner q hq)
  · rw [hn]
    exact (hpc _).isLast h.last
  · rw [hn, hnp, ((hpc _).quiet N).1]
    exact h.npipe
  · rw [hn, hpipe, ((hpc _).quiet N).1]
    exact h.empty
  · rw [hn]
    exact hparent
  · rw [hn]
    intro q j hq hj
    rcases hchild q with hnone | hsame
    · rw [hnone] at hj
      cases hj
    · rw [hsame] at hj
      exact h.child q j hq hj
  · rw [hn]
    exact hwaited
  · rw [hn]
    intro q hq hd
    rw [hinput]
    exact h.drained q hq ((hpc q).isDrained hd)
  · rw [hn, hout, hinput, ((hpc _).quiet N).2.2]
    exact h.out

/-- **`wait`** takes the child that has exited. -/
theorem Inv.wait (h : Inv N s) (hk : k + 1 < s.nproc) (hwait : (s.proc k).pc = .wait)
    (hzombie : (s.proc (k + 1)).pc = .zombie) :
    Inv N ((s.goto (k + 1) .gone).goto k .exit) := by
  have hchild : ((s.goto (k + 1) .gone).goto k .exit).proc (k + 1) =
      { s.proc (k + 1) with pc := .gone } := by
    show Function.update (Function.update _ _ _) _ _ _ = _
    rw [Function.update_of_ne (by omega), Function.update_self]
  have hself : ((s.goto (k + 1) .gone).goto k .exit).proc k =
      { s.proc k with pc := .exit } := by
    show Function.update (Function.update _ _ _) _ _ _ = _
    have hkeep : (s.goto (k + 1) .gone).proc k = s.proc k :=
      Function.update_of_ne (by omega) _ _
    rw [Function.update_self, hkeep]
  have hother : ∀ q, q ≠ k → q ≠ k + 1 →
      ((s.goto (k + 1) .gone).goto k .exit).proc q = s.proc q := by
    intro q h₁ h₂
    show Function.update (Function.update _ _ _) _ _ _ = _
    rw [Function.update_of_ne h₁, Function.update_of_ne h₂]
  have hparent : ∀ q, (((s.goto (k + 1) .gone).goto k .exit).proc q).parent =
      (s.proc q).parent := by
    intro q
    by_cases h₁ : q = k
    · rw [h₁, hself]
    · by_cases h₂ : q = k + 1
      · rw [h₂, hchild]
      · rw [hother q h₁ h₂]
  have hpc : ∀ q, Settles (s.proc q).pc
      (((s.goto (k + 1) .gone).goto k .exit).proc q).pc := by
    intro q
    by_cases h₁ : q = k
    · rw [h₁, hself, hwait]
      exact .inr ⟨rfl, rfl⟩
    · by_cases h₂ : q = k + 1
      · rw [h₂, hchild, hzombie]
        exact .inr ⟨rfl, rfl⟩
      · rw [hother q h₁ h₂]
        exact .inl rfl
  refine h.settle rfl rfl rfl rfl hpc (fun q hq => ?_) (fun q hq hlive => ?_)
    (fun q => .inr (hparent q)) (fun q hq => ?_)
  · by_cases h₁ : q = k
    · rw [h₁, hself]
      have hfds := h.fds k (by omega)
      rw [hwait] at hfds
      exact hfds
    · by_cases h₂ : q = k + 1
      · rw [h₂, hchild]
        have hfds := h.fds (k + 1) hk
        rw [hzombie] at hfds
        exact hfds
      · rw [hother q h₁ h₂]
        exact h.fds q hq
  · rw [hparent]
    apply h.parent q hq
    by_cases h₁ : q = k
    · rw [h₁, hwait]
      rfl
    · by_cases h₂ : q = k + 1
      · rw [h₂, hchild] at hlive
        cases hlive
      · rwa [hother q h₁ h₂] at hlive
  · by_cases h₁ : q = k
    · rw [h₁, hself, hchild]
      exact ⟨fun _ => rfl, fun _ => rfl⟩
    · have hold := h.waited q hq
      by_cases h₂ : q = k + 1
      · rw [h₂] at hold ⊢
        rw [hzombie] at hold
        rw [hchild, hother (k + 1 + 1) (by omega) (by omega)]
        exact hold
      · rw [hother q h₁ h₂]
        by_cases h₃ : q + 1 = k
        · rw [h₃] at hold ⊢
          rw [hwait] at hold
          rw [hself]
          simp only [reduceCtorEq] at hold ⊢
          exact hold
        · rw [hother (q + 1) h₃ (by omega)]
          exact hold

/-- **`exit`** leaves a zombie. -/
theorem Inv.exit (h : Inv N s) (hk : k < s.nproc) (hexit : (s.proc k).pc = .exit) :
    Inv N (s.exit k) := by
  have hself : (s.exit k).proc k = ⟨.zombie, [], (s.proc k).parent⟩ := if_pos rfl
  have hother : ∀ q, q ≠ k → ((s.exit k).proc q).pc = (s.proc q).pc ∧
      ((s.exit k).proc q).fds = (s.proc q).fds ∧ ((s.exit k).proc q).parent =
        if (s.proc q).parent = some k then none else (s.proc q).parent := by
    intro q hq
    show (if q = k then _ else _ : Proc).pc = _ ∧ (if q = k then _ else _ : Proc).fds = _ ∧
      (if q = k then _ else _ : Proc).parent = _
    rw [if_neg hq]
    by_cases hp : (s.proc q).parent = some k
    · simp only [hp, if_true, and_self]
    · simp only [hp, if_false, and_self]
  have hpc : ∀ q, Settles (s.proc q).pc ((s.exit k).proc q).pc := by
    intro q
    by_cases hq : q = k
    · rw [hq, hself, hexit]
      exact .inr ⟨rfl, rfl⟩
    · rw [(hother q hq).1]
      exact .inl rfl
  refine h.settle rfl rfl rfl rfl hpc (fun q hq => ?_) (fun q hq hlive => ?_) (fun q => ?_)
    (fun q hq => ?_)
  · by_cases hqk : q = k
    · rw [hqk, hself]
      rfl
    · rw [(hother q hqk).2.1, (hother q hqk).1]
      exact h.fds q hq
  · have hqk : q ≠ k := by
      rintro rfl
      rw [hself] at hlive
      cases hlive
    rw [(hother q hqk).1] at hlive
    have hold := h.parent q hq hlive
    by_cases hqk' : q + 1 = k
    · rw [hqk'] at hold ⊢
      rw [hself]
      exact hold
    · rw [(hother _ hqk').2.2, hold, if_neg (fun hh => hqk (Option.some.inj hh))]
  · by_cases hqk : q = k
    · rw [hqk, hself]
      exact .inr rfl
    · rw [(hother q hqk).2.2]
      split
      · exact .inl rfl
      · exact .inr rfl
  · have hold := h.waited q hq
    by_cases hqk : q = k
    · rw [hqk] at hold ⊢
      rw [hexit] at hold
      rw [hself, (hother (k + 1) (by omega)).1]
      exact hold
    · rw [(hother q hqk).1]
      by_cases hqk' : q + 1 = k
      · rw [hqk'] at hold ⊢
        rw [hexit] at hold
        rw [hself]
        simp only [reduceCtorEq] at hold ⊢
        exact hold
      · rw [(hother _ hqk').1]
        exact hold

end Xv6Labs.Primes
