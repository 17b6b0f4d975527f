import Xv6Labs.Lib.CString
import Xv6Labs.Lib.Run
import Mathlib.Algebra.BigOperators.Intervals

/-!
# `pingpong`

`main` of `pingpong.c`: two processes and two pipes. A pipe is a byte queue. A
`write` puts one byte after the other, waits while the pipe is full and gives up
when nobody holds the read end; a `read` waits while the pipe is empty and somebody
holds the write end, and takes what is there. Between any two such steps the other
process may move.

`Inv` follows the two programs by their positions. The child prints before its first
byte goes into `p2`, and `p2` is all that lets the parent past its `read`, so `ping`
comes before `pong` on every schedule; neither process ever waits for good.
-/

namespace Xv6Labs.Pingpong

open Xv6Labs.Lib

/-! ## Processes and pipes -/

inductive Pipe where
  | p1
  | p2
deriving DecidableEq, Repr

inductive End where
  | reading
  | writing
deriving DecidableEq, Repr

/-- The calls of the program; `write` carries the bytes still to be written. -/
inductive Call where
  | close (p : Pipe) (e : End)
  | read (p : Pipe) (len : Nat)
  | write (p : Pipe) (bytes : Bytes)
  | printf (text : String)
  | exit
deriving DecidableEq, Repr

abbrev Fds := Pipe → End → Bool

structure Proc where
  pid : Nat
  /-- the ends it holds -/
  fds : Fds
  /-- what it still has to do -/
  code : List Call

inductive Who where
  | parent
  | child
deriving DecidableEq, Repr

structure Sys where
  proc : Who → Proc
  pipe : Pipe → Bytes
  /-- the lines printed, with the process they name -/
  out : List (Nat × String)

def Fds.close (fds : Fds) (p : Pipe) (e : End) : Fds :=
  fun q f => if q = p ∧ f = e then false else fds q f

def Sys.held (s : Sys) (p : Pipe) (e : End) : Bool :=
  (s.proc .parent).fds p e || (s.proc .child).fds p e

def Sys.setProc (s : Sys) (w : Who) (pr : Proc) : Sys :=
  { s with proc := Function.update s.proc w pr }

def Sys.setCode (s : Sys) (w : Who) (code : List Call) : Sys :=
  s.setProc w { s.proc w with code := code }

def Sys.setPipe (s : Sys) (p : Pipe) (bytes : Bytes) : Sys :=
  { s with pipe := Function.update s.pipe p bytes }

/-- Process `w` moves; `none` when it waits or has ended. `size` is the capacity of a
pipe. -/
def Sys.move (size : Nat) (s : Sys) (w : Who) : Option Sys :=
  match (s.proc w).code with
  | [] => none
  | .close p e :: code =>
      some (s.setProc w { s.proc w with fds := (s.proc w).fds.close p e, code := code })
  | .read p len :: code =>
      if s.pipe p = [] then
        -- the end of the file, or nothing to read yet
        if s.held p .writing then none else some (s.setCode w code)
      else some ((s.setPipe p ((s.pipe p).drop len)).setCode w code)
  | .write _ [] :: code => some (s.setCode w code)
  | .write p (b :: bytes) :: code =>
      if s.held p .reading = false then some (s.setCode w code)
      else if (s.pipe p).length < size then
        some ((s.setPipe p (s.pipe p ++ [b])).setCode w (.write p bytes :: code))
      else none
  | .printf text :: code =>
      some ({ s with out := s.out ++ [((s.proc w).pid, text)] }.setCode w code)
  | .exit :: _ => some (s.setProc w { s.proc w with fds := fun _ _ => false, code := [] })

def Step (size : Nat) (s : Sys) (w : Who) (t : Sys) : Prop := s.move size w = some t

/-! ## The program -/

def content : Bytes := [104, 101, 108, 108, 111, 32, 119, 111, 114, 108, 100, 10]

/-- The child, once it has `bytes` left to write. -/
def childCode (bytes : Bytes) : List Call :=
  [.close .p1 .writing, .close .p2 .reading, .read .p1 12, .printf "received ping",
    .write .p2 bytes, .close .p1 .reading, .close .p2 .writing, .exit]

/-- The parent, once it has `bytes` left to write. -/
def parentCode (bytes : Bytes) : List Call :=
  [.close .p1 .reading, .close .p2 .writing, .write .p1 bytes, .read .p2 12,
    .close .p1 .writing, .close .p2 .reading, .printf "received pong", .exit]

/-- After the two calls of `pipe` and the one of `fork`, which gave the child's pid or
failed. -/
def main (pid : Nat) (fork : Option Nat) : Sys where
  proc
    | .parent => ⟨pid, fun _ _ => true,
        if fork.isSome then parentCode content else [.exit]⟩
    | .child => ⟨fork.getD 0, fun _ _ => fork.isSome,
        if fork.isSome then childCode content else []⟩
  pipe _ := []
  out := []

/-! ## The invariant -/

def parentFds (i : Nat) : Fds
  | .p1, .reading => decide (i < 1)
  | .p2, .writing => decide (i < 2)
  | .p1, .writing => decide (i < 5)
  | .p2, .reading => decide (i < 6)

def childFds (j : Nat) : Fds
  | .p1, .writing => decide (j < 1)
  | .p2, .reading => decide (j < 2)
  | .p1, .reading => decide (j < 6)
  | .p2, .writing => decide (j < 7)

/-- The parent at position `i` of its code with `bs` left to write, the child at `j`
with `cs`. -/
structure At (pid cpid : Nat) (s : Sys) (i j : Nat) (bs cs : Bytes) : Prop where
  parent : s.proc .parent = ⟨pid, parentFds i, (parentCode bs).drop i⟩
  child : s.proc .child = ⟨cpid, childFds j, (childCode cs).drop j⟩
  out : s.out = (if 4 ≤ j then [(cpid, "received ping")] else []) ++
    if 7 ≤ i then [(pid, "received pong")] else []
  /-- the end of both programs -/
  ends : i ≤ 8 ∧ j ≤ 8
  /-- the parent's `read` waits for the child's `write` -/
  order : 4 ≤ i → 4 ≤ j
  /-- what is in `p1` and what is still to come is all there is, until it is read -/
  ping : (j < 3 → (i < 3 → (s.pipe .p1).length + bs.length = content.length) ∧
      (3 ≤ i → (s.pipe .p1).length = content.length)) ∧
    (i < 3 → (s.pipe .p1).length + bs.length ≤ content.length)
  /-- the same for `p2` -/
  pong : (i < 4 → (j < 5 → (s.pipe .p2).length + cs.length = content.length) ∧
      (5 ≤ j → (s.pipe .p2).length = content.length)) ∧
    (j < 5 → (s.pipe .p2).length + cs.length ≤ content.length)
  /-- the child has not begun to write -/
  quiet : j < 4 → s.pipe .p2 = []

theorem At.init (pid cpid : Nat) : At pid cpid (main pid (some cpid)) 0 0 content content := by
  refine ⟨?_, ?_, rfl, by omega, by omega, ?_, ?_, fun _ => rfl⟩
  · have hfds : parentFds 0 = fun _ _ => true := by
      funext p e
      cases p <;> cases e <;> rfl
    rw [hfds]
    rfl
  · have hfds : childFds 0 = fun _ _ => true := by
      funext p e
      cases p <;> cases e <;> rfl
    rw [hfds]
    rfl
  · simp [main]
  · simp [main]

variable {pid cpid size i j : Nat} {s t : Sys} {bs cs : Bytes}

/-! ## What one move does -/

@[simp] theorem Sys.setProc_self (s : Sys) (w : Who) (pr : Proc) :
    (s.setProc w pr).proc w = pr := Function.update_self ..

@[simp] theorem Sys.setProc_parent (s : Sys) (pr : Proc) :
    (s.setProc .parent pr).proc .child = s.proc .child := rfl

@[simp] theorem Sys.setProc_child (s : Sys) (pr : Proc) :
    (s.setProc .child pr).proc .parent = s.proc .parent := rfl

@[simp] theorem Sys.setProc_pipe (s : Sys) (w : Who) (pr : Proc) :
    (s.setProc w pr).pipe = s.pipe := rfl

@[simp] theorem Sys.setProc_out (s : Sys) (w : Who) (pr : Proc) :
    (s.setProc w pr).out = s.out := rfl

@[simp] theorem Sys.setPipe_proc (s : Sys) (p : Pipe) (bytes : Bytes) :
    (s.setPipe p bytes).proc = s.proc := rfl

@[simp] theorem Sys.setPipe_out (s : Sys) (p : Pipe) (bytes : Bytes) :
    (s.setPipe p bytes).out = s.out := rfl

@[simp] theorem Sys.setPipe_self (s : Sys) (p : Pipe) (bytes : Bytes) :
    (s.setPipe p bytes).pipe p = bytes := Function.update_self ..

@[simp] theorem Sys.setPipe_p1 (s : Sys) (bytes : Bytes) :
    (s.setPipe .p1 bytes).pipe .p2 = s.pipe .p2 := rfl

@[simp] theorem Sys.setPipe_p2 (s : Sys) (bytes : Bytes) :
    (s.setPipe .p2 bytes).pipe .p1 = s.pipe .p1 := rfl

theorem At.parent_next (h : At pid cpid s i j bs cs) (hi : i < 8)
    (hparent : t.proc .parent = ⟨pid, parentFds (i + 1), (parentCode bs).drop (i + 1)⟩)
    (hchild : t.proc .child = s.proc .child)
    (hout : t.out = s.out ++ if i = 6 then [(pid, "received pong")] else [])
    (hp₁ : t.pipe .p1 = s.pipe .p1) (hp₂ : i ≠ 3 → t.pipe .p2 = s.pipe .p2)
    (hwrite : i = 2 → bs = [] ∨ 6 ≤ j)
    (hread : i = 3 → 4 ≤ j ∧ (t.pipe .p2).length ≤ (s.pipe .p2).length) :
    At pid cpid t (i + 1) j bs cs := by
  obtain ⟨-, hc, hout₀, hends, horder, hping, hpong, hquiet⟩ := h
  have hbs : i = 2 → j < 3 → bs.length = 0 := by
    intro h₂ hj
    rcases hwrite h₂ with rfl | hj'
    · rfl
    · omega
  refine ⟨hparent, hchild.trans hc, ?_, by omega, by omega, ?_, ?_, fun hj => ?_⟩
  · rw [hout, hout₀]
    by_cases h₆ : i = 6
    · have hj : 4 ≤ j := horder (by omega)
      simp [h₆, hj]
    · rw [if_neg h₆, List.append_nil]
      congr 1
      by_cases h₇ : 7 ≤ i
      · rw [if_pos h₇, if_pos (by omega)]
      · rw [if_neg h₇, if_neg (by omega)]
  · rw [hp₁]
    omega
  · by_cases h₃ : i = 3
    · have := (hread h₃).2
      omega
    · rw [hp₂ h₃]
      omega
  · by_cases h₃ : i = 3
    · have := (hread h₃).1
      omega
    · rw [hp₂ h₃]
      exact hquiet hj

theorem At.child_next (h : At pid cpid s i j bs cs) (hj : j < 8)
    (hchild : t.proc .child = ⟨cpid, childFds (j + 1), (childCode cs).drop (j + 1)⟩)
    (hparent : t.proc .parent = s.proc .parent)
    (hout : t.out = s.out ++ if j = 3 then [(cpid, "received ping")] else [])
    (hp₂ : t.pipe .p2 = s.pipe .p2) (hp₁ : j ≠ 2 → t.pipe .p1 = s.pipe .p1)
    (hwrite : j = 4 → cs = [] ∨ 6 ≤ i)
    (hread : j = 2 → (t.pipe .p1).length ≤ (s.pipe .p1).length) :
    At pid cpid t i (j + 1) bs cs := by
  obtain ⟨hp, -, hout₀, hends, horder, hping, hpong, hquiet⟩ := h
  have hcs : j = 4 → i < 4 → cs.length = 0 := by
    intro h₄ hi
    rcases hwrite h₄ with rfl | hi'
    · rfl
    · omega
  refine ⟨hparent.trans hp, hchild, ?_, by omega, by omega, ?_, ?_, fun hj' => ?_⟩
  · rw [hout, hout₀]
    by_cases h₃ : j = 3
    · have hi : ¬ 7 ≤ i := by omega
      simp [h₃, hi]
    · rw [if_neg h₃, List.append_nil]
      congr 1
      by_cases h₄ : 4 ≤ j
      · rw [if_pos h₄, if_pos (by omega)]
      · rw [if_neg h₄, if_neg (by omega)]
  · by_cases h₂ : j = 2
    · have := hread h₂
      omega
    · rw [hp₁ h₂]
      omega
  · rw [hp₂]
    by_cases h₃ : j = 3
    · rw [hquiet (by omega)] at hpong ⊢
      omega
    · omega
  · rw [hp₂]
    exact hquiet (by omega)

theorem At.parent_byte {b : UInt8} (h : At pid cpid s 2 j (b :: bs) cs)
    (hparent : t.proc .parent = ⟨pid, parentFds 2, (parentCode bs).drop 2⟩)
    (hchild : t.proc .child = s.proc .child) (hout : t.out = s.out)
    (hp₁ : t.pipe .p1 = s.pipe .p1 ++ [b]) (hp₂ : t.pipe .p2 = s.pipe .p2) :
    At pid cpid t 2 j bs cs := by
  obtain ⟨-, hc, hout₀, hends, horder, hping, hpong, hquiet⟩ := h
  refine ⟨hparent, hchild.trans hc, hout.trans hout₀, hends, horder, ?_, ?_, ?_⟩
  · rw [hp₁, List.length_append, List.length_singleton]
    rw [List.length_cons] at hping
    omega
  · rw [hp₂]
    exact hpong
  · rw [hp₂]
    exact hquiet

theorem At.child_byte {b : UInt8} (h : At pid cpid s i 4 bs (b :: cs))
    (hchild : t.proc .child = ⟨cpid, childFds 4, (childCode cs).drop 4⟩)
    (hparent : t.proc .parent = s.proc .parent) (hout : t.out = s.out)
    (hp₂ : t.pipe .p2 = s.pipe .p2 ++ [b]) (hp₁ : t.pipe .p1 = s.pipe .p1) :
    At pid cpid t i 4 bs cs := by
  obtain ⟨hp, -, hout₀, hends, horder, hping, hpong, hquiet⟩ := h
  refine ⟨hparent.trans hp, hchild, hout.trans hout₀, hends, horder, ?_, ?_, ?_⟩
  · rw [hp₁]
    exact hping
  · rw [hp₂, List.length_append, List.length_singleton]
    rw [List.length_cons] at hpong
    omega
  · intro h₄
    omega

theorem parentFds_close : (parentFds 0).close .p1 .reading = parentFds 1 ∧
    (parentFds 1).close .p2 .writing = parentFds 2 ∧
    (parentFds 4).close .p1 .writing = parentFds 5 ∧
    (parentFds 5).close .p2 .reading = parentFds 6 := by
  refine ⟨?_, ?_, ?_, ?_⟩ <;> funext p e <;> cases p <;> cases e <;> rfl

theorem childFds_close : (childFds 0).close .p1 .writing = childFds 1 ∧
    (childFds 1).close .p2 .reading = childFds 2 ∧
    (childFds 5).close .p1 .reading = childFds 6 ∧
    (childFds 6).close .p2 .writing = childFds 7 := by
  refine ⟨?_, ?_, ?_, ?_⟩ <;> funext p e <;> cases p <;> cases e <;> rfl

theorem parentFds_same : parentFds 3 = parentFds 2 ∧ parentFds 4 = parentFds 3 ∧
    parentFds 7 = parentFds 6 ∧ parentFds 8 = fun _ _ => false := by
  refine ⟨?_, ?_, ?_, ?_⟩ <;> funext p e <;> cases p <;> cases e <;> rfl

theorem childFds_same : childFds 3 = childFds 2 ∧ childFds 4 = childFds 3 ∧
    childFds 5 = childFds 4 ∧ childFds 8 = fun _ _ => false := by
  refine ⟨?_, ?_, ?_, ?_⟩ <;> funext p e <;> cases p <;> cases e <;> rfl

theorem At.held (h : At pid cpid s i j bs cs) :
    (s.held .p1 .reading = true ↔ i < 1 ∨ j < 6) ∧
    (s.held .p1 .writing = true ↔ i < 5 ∨ j < 1) ∧
    (s.held .p2 .reading = true ↔ i < 6 ∨ j < 2) ∧
    (s.held .p2 .writing = true ↔ i < 2 ∨ j < 7) := by
  unfold Sys.held
  rw [h.parent, h.child]
  simp [parentFds, childFds]

/-- **A move of the parent**, by its position. -/
theorem At.parent_move (h : At pid cpid s i j bs cs) (hi : i < 8)
    (hs : s.move size .parent = some t) : ∃ i' bs', At pid cpid t i' j bs' cs := by
  have hp := h.parent
  obtain ⟨hc₁, hc₂, hc₃, hc₄⟩ := parentFds_close
  obtain ⟨hf₁, hf₂, hf₃, hf₄⟩ := parentFds_same
  unfold Sys.move at hs
  rw [hp] at hs
  obtain rfl | rfl | rfl | rfl | rfl | rfl | rfl | rfl :
      i = 0 ∨ i = 1 ∨ i = 2 ∨ i = 3 ∨ i = 4 ∨ i = 5 ∨ i = 6 ∨ i = 7 := by omega
  · obtain rfl := Option.some.inj hs
    exact ⟨1, bs, h.parent_next hi (by rw [Sys.setProc_self, hc₁]; rfl) rfl (by simp) rfl
      (fun _ => rfl) (by omega) (by omega)⟩
  · obtain rfl := Option.some.inj hs
    exact ⟨2, bs, h.parent_next hi (by rw [Sys.setProc_self, hc₂]; rfl) rfl (by simp) rfl
      (fun _ => rfl) (by omega) (by omega)⟩
  · cases bs with
    | nil =>
        obtain rfl := Option.some.inj hs
        exact ⟨3, [], h.parent_next hi (by rw [Sys.setCode, Sys.setProc_self, hp, hf₁]; rfl) rfl
          (by simp [Sys.setCode]) rfl (fun _ => rfl) (fun _ => .inl rfl) (by omega)⟩
    | cons b bs =>
        simp only [parentCode, List.drop_succ_cons, List.drop_zero] at hs
        split at hs
        · -- the child has closed its end
          rename_i hheld
          have hj : 6 ≤ j := by
            by_contra hj
            rw [(h.held.1).mpr (by omega)] at hheld
            cases hheld
          obtain rfl := Option.some.inj hs
          exact ⟨3, b :: bs, h.parent_next hi (by rw [Sys.setCode, Sys.setProc_self, hp, hf₁]; rfl)
            rfl (by simp [Sys.setCode]) rfl (fun _ => rfl) (fun _ => .inr hj) (by omega)⟩
        split at hs
        · obtain rfl := Option.some.inj hs
          exact ⟨2, bs, h.parent_byte (by rw [Sys.setCode, Sys.setProc_self]; simp [hp, parentCode])
            rfl rfl (by simp [Sys.setCode]) rfl⟩
        · cases hs
  · simp only [parentCode, List.drop_succ_cons, List.drop_zero] at hs
    split at hs
    · -- the pipe cannot be empty for good: the child has not written yet
      rename_i hempty
      split at hs
      · cases hs
      rename_i hheld
      have hj : 7 ≤ j := by
        by_contra hj
        exact hheld ((h.held.2.2.2).mpr (by omega))
      have := (h.pong.1 (by omega)).2 (by omega)
      rw [hempty] at this
      cases this
    · rename_i hfull
      have hj : 4 ≤ j := by
        by_contra hj
        exact hfull (h.quiet (by omega))
      obtain rfl := Option.some.inj hs
      exact ⟨4, bs, h.parent_next hi
        (by rw [Sys.setCode, Sys.setProc_self]; simp [hp, hf₂, parentCode]) rfl (by simp [Sys.setCode]) rfl (fun hne => absurd rfl hne) (by omega)
        (fun _ => ⟨hj, by simp [Sys.setCode]⟩)⟩
  · obtain rfl := Option.some.inj hs
    exact ⟨5, bs, h.parent_next hi (by rw [Sys.setProc_self, hc₃]; rfl) rfl (by simp) rfl
      (fun _ => rfl) (by omega) (by omega)⟩
  · obtain rfl := Option.some.inj hs
    exact ⟨6, bs, h.parent_next hi (by rw [Sys.setProc_self, hc₄]; rfl) rfl (by simp) rfl
      (fun _ => rfl) (by omega) (by omega)⟩
  · obtain rfl := Option.some.inj hs
    exact ⟨7, bs, h.parent_next hi
      (by rw [Sys.setCode, Sys.setProc_self]; simp [hp, hf₃, parentCode]) rfl (by simp [Sys.setCode]) rfl (fun _ => rfl) (by omega) (by omega)⟩
  · obtain rfl := Option.some.inj hs
    exact ⟨8, bs, h.parent_next hi (by rw [Sys.setProc_self, hf₄]; rfl) rfl (by simp) rfl
      (fun _ => rfl) (by omega) (by omega)⟩

/-- **A move of the child**, by its position. -/
theorem At.child_move (h : At pid cpid s i j bs cs) (hj : j < 8)
    (hs : s.move size .child = some t) : ∃ j' cs', At pid cpid t i j' bs cs' := by
  have hc := h.child
  obtain ⟨hc₁, hc₂, hc₃, hc₄⟩ := childFds_close
  obtain ⟨hf₁, hf₂, hf₃, hf₄⟩ := childFds_same
  unfold Sys.move at hs
  rw [hc] at hs
  obtain rfl | rfl | rfl | rfl | rfl | rfl | rfl | rfl :
      j = 0 ∨ j = 1 ∨ j = 2 ∨ j = 3 ∨ j = 4 ∨ j = 5 ∨ j = 6 ∨ j = 7 := by omega
  · obtain rfl := Option.some.inj hs
    exact ⟨1, cs, h.child_next hj (by rw [Sys.setProc_self, hc₁]; rfl) rfl (by simp) rfl
      (fun _ => rfl) (by omega) (by omega)⟩
  · obtain rfl := Option.some.inj hs
    exact ⟨2, cs, h.child_next hj (by rw [Sys.setProc_self, hc₂]; rfl) rfl (by simp) rfl
      (fun _ => rfl) (by omega) (by omega)⟩
  · simp only [childCode, List.drop_succ_cons, List.drop_zero] at hs
    split at hs
    · -- the parent holds its end until it has read `p2`
      rename_i hempty
      split at hs
      · cases hs
      rename_i hheld
      have hi : 5 ≤ i := by
        by_contra hi
        exact hheld ((h.held.2.1).mpr (by omega))
      have := h.order (by omega)
      omega
    · obtain rfl := Option.some.inj hs
      exact ⟨3, cs, h.child_next hj
        (by rw [Sys.setCode, Sys.setProc_self]; simp [hc, hf₁, childCode]) rfl (by simp [Sys.setCode]) rfl (fun hne => absurd rfl hne) (by omega)
        (fun _ => by simp [Sys.setCode])⟩
  · obtain rfl := Option.some.inj hs
    exact ⟨4, cs, h.child_next hj (by rw [Sys.setCode, Sys.setProc_self]; simp [hc, hf₂, childCode])
      rfl (by simp [Sys.setCode]) rfl (fun _ => rfl) (by omega) (by omega)⟩
  · cases cs with
    | nil =>
        obtain rfl := Option.some.inj hs
        exact ⟨5, [], h.child_next hj (by rw [Sys.setCode, Sys.setProc_self, hc, hf₃]; rfl) rfl
          (by simp [Sys.setCode]) rfl (fun _ => rfl) (fun _ => .inl rfl) (by omega)⟩
    | cons b cs =>
        simp only [childCode, List.drop_succ_cons, List.drop_zero] at hs
        split at hs
        · -- the parent has closed its end
          rename_i hheld
          have hi : 6 ≤ i := by
            by_contra hi
            rw [(h.held.2.2.1).mpr (by omega)] at hheld
            cases hheld
          obtain rfl := Option.some.inj hs
          exact ⟨5, b :: cs, h.child_next hj (by rw [Sys.setCode, Sys.setProc_self, hc, hf₃]; rfl)
            rfl (by simp [Sys.setCode]) rfl (fun _ => rfl) (fun _ => .inr hi) (by omega)⟩
        split at hs
        · obtain rfl := Option.some.inj hs
          exact ⟨4, cs, h.child_byte (by rw [Sys.setCode, Sys.setProc_self]; simp [hc, childCode])
            rfl rfl (by simp [Sys.setCode]) rfl⟩
        · cases hs
  · obtain rfl := Option.some.inj hs
    exact ⟨6, cs, h.child_next hj (by rw [Sys.setProc_self, hc₃]; rfl) rfl (by simp) rfl
      (fun _ => rfl) (by omega) (by omega)⟩
  · obtain rfl := Option.some.inj hs
    exact ⟨7, cs, h.child_next hj (by rw [Sys.setProc_self, hc₄]; rfl) rfl (by simp) rfl
      (fun _ => rfl) (by omega) (by omega)⟩
  · obtain rfl := Option.some.inj hs
    exact ⟨8, cs, h.child_next hj (by rw [Sys.setProc_self, hf₄]; rfl) rfl (by simp) rfl
      (fun _ => rfl) (by omega) (by omega)⟩

def Inv (pid cpid : Nat) (s : Sys) : Prop := ∃ i j bs cs, At pid cpid s i j bs cs

theorem Inv.step {w : Who} (h : Inv pid cpid s) (hs : Step size s w t) : Inv pid cpid t := by
  obtain ⟨i, j, bs, cs, h⟩ := h
  obtain ⟨hi, hj⟩ := h.ends
  cases w with
  | parent =>
      by_cases hend : i < 8
      · obtain ⟨i', bs', h'⟩ := h.parent_move hend hs
        exact ⟨i', j, bs', cs, h'⟩
      · obtain rfl : i = 8 := by omega
        unfold Step Sys.move at hs
        rw [h.parent] at hs
        cases hs
  | child =>
      by_cases hend : j < 8
      · obtain ⟨j', cs', h'⟩ := h.child_move hend hs
        exact ⟨i, j', bs, cs', h'⟩
      · obtain rfl : j = 8 := by omega
        unfold Step Sys.move at hs
        rw [h.child] at hs
        cases hs

/-! ## Neither process waits for good -/

/-- The parent waits at its `read` only: `p1` has room for all it writes. -/
theorem At.parent_waits (h : At pid cpid s i j bs cs) (hsize : content.length ≤ size)
    (hs : s.move size .parent = none) :
    i = 8 ∨ i = 3 ∧ s.pipe .p2 = [] := by
  have hp := h.parent
  obtain ⟨hi, -⟩ := h.ends
  unfold Sys.move at hs
  rw [hp] at hs
  obtain rfl | rfl | rfl | rfl | rfl | rfl | rfl | rfl | rfl :
      i = 0 ∨ i = 1 ∨ i = 2 ∨ i = 3 ∨ i = 4 ∨ i = 5 ∨ i = 6 ∨ i = 7 ∨ i = 8 := by omega
  · cases hs
  · cases hs
  · cases bs with
    | nil => cases hs
    | cons b bs =>
        simp only [parentCode, List.drop_succ_cons, List.drop_zero] at hs
        split at hs
        · cases hs
        split at hs
        · cases hs
        · have := h.ping.2 (by omega)
          rw [List.length_cons] at this
          omega
  · simp only [parentCode, List.drop_succ_cons, List.drop_zero] at hs
    split at hs
    · rename_i hempty
      exact .inr ⟨rfl, hempty⟩
    · cases hs
  · cases hs
  · cases hs
  · cases hs
  · cases hs
  · exact .inl rfl

theorem At.child_waits (h : At pid cpid s i j bs cs) (hsize : content.length ≤ size)
    (hs : s.move size .child = none) :
    j = 8 ∨ j = 2 ∧ s.pipe .p1 = [] := by
  have hc := h.child
  obtain ⟨-, hj⟩ := h.ends
  unfold Sys.move at hs
  rw [hc] at hs
  obtain rfl | rfl | rfl | rfl | rfl | rfl | rfl | rfl | rfl :
      j = 0 ∨ j = 1 ∨ j = 2 ∨ j = 3 ∨ j = 4 ∨ j = 5 ∨ j = 6 ∨ j = 7 ∨ j = 8 := by omega
  · cases hs
  · cases hs
  · simp only [childCode, List.drop_succ_cons, List.drop_zero] at hs
    split at hs
    · rename_i hempty
      exact .inr ⟨rfl, hempty⟩
    · cases hs
  · cases hs
  · cases cs with
    | nil => cases hs
    | cons b cs =>
        simp only [childCode, List.drop_succ_cons, List.drop_zero] at hs
        split at hs
        · cases hs
        split at hs
        · cases hs
        · have := h.pong.2 (by omega)
          rw [List.length_cons] at this
          omega
  · cases hs
  · cases hs
  · cases hs
  · exact .inl rfl

/-- **No deadlock**: when nobody can move, both programs have ended. -/
theorem At.stuck (h : At pid cpid s i j bs cs) (hsize : content.length ≤ size)
    (hs : ∀ w, s.move size w = none) : i = 8 ∧ j = 8 := by
  have hpos : content.length = 12 := rfl
  rcases h.parent_waits hsize (hs .parent) with rfl | ⟨rfl, hempty⟩
  · rcases h.child_waits hsize (hs .child) with rfl | ⟨rfl, -⟩
    · exact ⟨rfl, rfl⟩
    · have := h.order (by omega)
      omega
  · rcases h.child_waits hsize (hs .child) with rfl | ⟨rfl, hempty'⟩
    · have := (h.pong.1 (by omega)).2 (by omega)
      rw [hempty, List.length_nil] at this
      omega
    · have := (h.ping.1 (by omega)).2 (by omega)
      rw [hempty', List.length_nil] at this
      omega

/-! ## Every run ends -/

def Call.cost : Call → Nat
  | .write _ bytes => bytes.length + 1
  | _ => 1

def cost (code : List Call) : Nat := (code.map Call.cost).sum

def Sys.cost (s : Sys) : Nat :=
  Pingpong.cost (s.proc .parent).code + Pingpong.cost (s.proc .child).code

theorem Sys.cost_setProc {w : Who} {pr : Proc} (u : Sys) (hu : u.proc = s.proc)
    (h : Pingpong.cost pr.code < Pingpong.cost (s.proc w).code) :
    (u.setProc w pr).cost < s.cost := by
  unfold Sys.cost
  cases w with
  | parent =>
      rw [Sys.setProc_self, Sys.setProc_parent, hu]
      omega
  | child =>
      rw [Sys.setProc_self, Sys.setProc_child, hu]
      omega

theorem Sys.cost_lt {w : Who} (hs : s.move size w = some t) : t.cost < s.cost := by
  have hcons : ∀ (c : Call) (code : List Call),
      Pingpong.cost (c :: code) = c.cost + Pingpong.cost code := fun c code => by
    simp [Pingpong.cost]
  have hpos : ∀ c : Call, 0 < c.cost := fun c => by
    cases c <;> simp [Call.cost]
  unfold Sys.move at hs
  split at hs
  · cases hs
  · rename_i hcode
    obtain rfl := Option.some.inj hs
    refine Sys.cost_setProc s rfl ?_
    rw [hcode, hcons]
    exact Nat.lt_add_of_pos_left (hpos _)
  · rename_i hcode
    split at hs
    · split at hs
      · cases hs
      · obtain rfl := Option.some.inj hs
        refine Sys.cost_setProc s rfl ?_
        rw [hcode, hcons]
        exact Nat.lt_add_of_pos_left (hpos _)
    · obtain rfl := Option.some.inj hs
      refine Sys.cost_setProc _ rfl ?_
      rw [hcode, hcons]
      exact Nat.lt_add_of_pos_left (hpos _)
  · rename_i hcode
    obtain rfl := Option.some.inj hs
    refine Sys.cost_setProc s rfl ?_
    rw [hcode, hcons]
    exact Nat.lt_add_of_pos_left (hpos _)
  · rename_i hcode
    split at hs
    · obtain rfl := Option.some.inj hs
      refine Sys.cost_setProc s rfl ?_
      rw [hcode, hcons]
      exact Nat.lt_add_of_pos_left (hpos _)
    split at hs
    · obtain rfl := Option.some.inj hs
      refine Sys.cost_setProc _ rfl ?_
      simp only [hcode, hcons, Call.cost, List.length_cons]
      omega
    · cases hs
  · rename_i hcode
    obtain rfl := Option.some.inj hs
    refine Sys.cost_setProc _ rfl ?_
    rw [hcode, hcons]
    exact Nat.lt_add_of_pos_left (hpos _)
  · rename_i hcode
    obtain rfl := Option.some.inj hs
    refine Sys.cost_setProc s rfl ?_
    rw [hcode, hcons]
    have : Pingpong.cost [] = 0 := rfl
    rw [this]
    have := hpos .exit
    omega

/-- **`ping`, then `pong`, on every schedule.** When a pipe holds one message, whatever the
order of the moves of the two processes, the lines printed so far are a beginning of `ping`
by the child and `pong` by the parent; no run is longer than 40 moves; and a run that cannot
go on has printed both lines, ended both programs and closed every end. -/
theorem pingpong_in_order (hsize : content.length ≤ size) {ls : List Who}
    (hr : Run (Step size) (main pid (some cpid)) ls s) :
    s.out <+: [(cpid, "received ping"), (pid, "received pong")] ∧ ls.length ≤ 40 ∧
      ((∀ w, s.move size w = none) →
        s.out = [(cpid, "received ping"), (pid, "received pong")] ∧
          (∀ w, (s.proc w).code = []) ∧ ∀ p e, s.held p e = false) := by
  obtain ⟨i, j, bs, cs, h⟩ : Inv pid cpid s :=
    hr.invariant (fun s w t h hs => Inv.step h hs) ⟨0, 0, _, _, At.init pid cpid⟩
  refine ⟨?_, ?_, fun hs => ?_⟩
  · rw [h.out]
    by_cases hj : 4 ≤ j
    · by_cases hi : 7 ≤ i
      · rw [if_pos hj, if_pos hi]
        exact List.prefix_refl _
      · rw [if_pos hj, if_neg hi]
        exact ⟨[(pid, "received pong")], rfl⟩
    · have hi : ¬ 7 ≤ i := fun hi => hj (h.order (by omega))
      rw [if_neg hj, if_neg hi]
      exact List.nil_prefix
  · have hlen := hr.length_le Sys.cost (I := fun _ => True)
      (fun s w t _ hs => ⟨trivial, Sys.cost_lt hs⟩) trivial
    have hcost : (main pid (some cpid)).cost = 40 := by
      simp [Sys.cost, Pingpong.cost, main, parentCode, childCode, Call.cost, content]
    omega
  · obtain ⟨rfl, rfl⟩ := h.stuck hsize hs
    refine ⟨h.out, fun w => ?_, fun p e => ?_⟩
    · cases w with
      | parent =>
          rw [h.parent]
          rfl
      | child =>
          rw [h.child]
          rfl
    · unfold Sys.held
      rw [h.parent, h.child]
      cases p <;> cases e <;> rfl

/-- A pipe of 512 bytes; the parent writes all it has before the child moves. -/
theorem pingpong_in_order_parent_first : ∃ s,
    Run (Step 512) (main 3 (some 4)) (List.replicate 15 Who.parent ++
      List.replicate 20 Who.child ++ List.replicate 5 Who.parent) s ∧
    s.out = [(4, "received ping"), (3, "received pong")] := by
  obtain ⟨s, hr, hstuck⟩ : ∃ s, Run (Step 512) (main 3 (some 4))
      (List.replicate 15 Who.parent ++ List.replicate 20 Who.child ++
        List.replicate 5 Who.parent) s ∧ ∀ w, s.move 512 w = none := by
    refine ⟨_, Run.iff_foldlM.mpr rfl, fun w => ?_⟩
    cases w <;> rfl
  exact ⟨s, hr, ((pingpong_in_order (by decide) hr).2.2 hstuck).1⟩

end Xv6Labs.Pingpong
