import Xv6Labs.Lib.CString

/-!
# `xargs`

`main` of `xargs.c`, with the processes it forks. All of them run the same loop
over one standard input: a child whose `exec` fails is not stopped and goes on
reading where its parent stopped, while the parent waits for it.

`buf` and `args` have 1024 and 32 cells; a store outside them is an error of the
run, since the C program has no defined behaviour there. A command that runs
leaves the standard input alone.
-/

namespace Xv6Labs.Xargs

open Xv6Labs.Lib

/-! ## The program -/

/-- What becomes of one `fork` call, and of the `exec` call in the child. -/
inductive Outcome where
  | forkFails
  | execFails
  | runs
deriving DecidableEq

/-- What the processes share: the bytes left on standard input, the outcomes of
the `fork` calls to come, and the argument vectors `exec` was called with. -/
structure World where
  input : Bytes
  outcomes : List Outcome
  execs : List (List Bytes)

/-- What a process has of its own: `buf`, and `p` as an index into it. -/
structure Proc where
  buf : Bytes
  p : Nat

def newline : UInt8 := 10

/-- The `fork` at the end of a line; `mainLoop` is the rest of the loop, in
either process. -/
def endLine (cmd : List Bytes) (mainLoop : World → Proc → Option World)
    (w : World) (buf : Bytes) (p : Nat) : Option World :=
  let buf := writeAt buf p [0]
  let outcome := w.outcomes.headD .forkFails
  let w := { w with outcomes := w.outcomes.tail }
  if outcome = .forkFails then mainLoop w ⟨buf, p⟩
  -- the child stores to args[argc-1] and args[argc]
  else if 32 ≤ cmd.length + 1 then none
  else
    let w := { w with execs := w.execs ++ [cmd ++ [cstr buf]] }
    if outcome = .runs then mainLoop w ⟨buf, 0⟩
    else
      match mainLoop w ⟨buf, p⟩ with
      | none => none
      | some w => mainLoop w ⟨buf, 0⟩

/-- The `while` loop of a process up to its `exit(0)`. `cmd` is `argv[1]` to
`argv[argc-1]`; every round reads a byte, so `fuel` bounds the bytes read. -/
def mainLoop (cmd : List Bytes) : Nat → World → Proc → Option World
  | 0, _, _ => none
  | fuel + 1, w, s =>
      match w.input with
      | [] => some w
      | c :: rest =>
          -- read(0, p, 1)
          if s.buf.length ≤ s.p then none
          else
            let w := { w with input := rest }
            let buf := writeAt s.buf s.p [c]
            if c = newline then endLine cmd (mainLoop cmd fuel) w buf s.p
            else mainLoop cmd fuel w ⟨buf, s.p + 1⟩

/-- `main`, with `buf` as it finds it on the stack. -/
def main (cmd : List Bytes) (fuel : Nat) (w : World) (buf : Bytes) : Option World :=
  if 32 < cmd.length then none else mainLoop cmd fuel w ⟨buf, 0⟩

/-! ## What it should do -/

structure Round where
  line : Bytes
  outcome : Outcome

/-- A line without newline and NUL that fits in `buf`. -/
structure Round.Valid (r : Round) : Prop where
  noNewline : newline ∉ r.line
  noNul : (0 : UInt8) ∉ r.line
  short : r.line.length < 1024

def stdin (rs : List Round) : Bytes := rs.flatMap fun r => r.line ++ [newline]

def start (rs : List Round) : World where
  input := stdin rs
  outcomes := rs.map Round.outcome
  execs := []

def expected (cmd : List Bytes) (rs : List Round) : List (List Bytes) :=
  (rs.filter fun r => r.outcome ≠ .forkFails).map fun r => cmd ++ [r.line]

/-- What the loop does, line by line: `stale` is what is left in `buf` before
`p` when a line begins. -/
def lineLoop (cmd : List Bytes) (stale : Bytes) : List Round → Option (List (List Bytes))
  | [] => some []
  | r :: rs =>
      if 1024 ≤ stale.length + r.line.length then none
      else if r.outcome = .forkFails then lineLoop cmd (stale ++ r.line) rs
      else if 32 ≤ cmd.length + 1 then none
      else
        (lineLoop cmd (if r.outcome = .runs then [] else stale ++ r.line) rs).map
          ((cmd ++ [stale ++ r.line]) :: ·)

/-! ## From bytes to lines -/

variable {cmd : List Bytes} {w : World} {buf s line rest : Bytes} {fuel : Nat}

theorem mainLoop_collect (hline : newline ∉ line) (hbuf : buf.length = 1024)
    (hs : buf.take s.length = s) (hroom : s.length + line.length < 1024) :
    ∃ buf', buf'.length = 1024 ∧ buf'.take (s ++ line).length = s ++ line ∧
      mainLoop cmd (line.length + (fuel + 1))
          { w with input := line ++ newline :: rest } ⟨buf, s.length⟩ =
        endLine cmd (mainLoop cmd fuel) { w with input := rest } buf'
          (s ++ line).length := by
  induction line generalizing s buf with
  | nil =>
      have hlt : ¬ buf.length ≤ s.length := by
        simp only [List.length_nil] at hroom
        omega
      refine ⟨writeAt buf s.length [newline], ?_, ?_, ?_⟩
      · rw [length_writeAt (by simp only [List.length_singleton]; omega), hbuf]
      · rw [List.append_nil, writeAt, hs, List.append_assoc, List.take_left]
      · rw [List.append_nil, List.length_nil, Nat.zero_add, mainLoop]
        simp only [List.nil_append, if_neg hlt, if_true]
  | cons c line ih =>
      have hc : c ≠ newline := fun h => hline (h ▸ List.mem_cons_self)
      rw [List.length_cons] at hroom
      have hlt : ¬ buf.length ≤ s.length := by omega
      have hlen : (writeAt buf s.length [c]).length = 1024 := by
        rw [length_writeAt (by simp only [List.length_singleton]; omega), hbuf]
      have htake : (writeAt buf s.length [c]).take (s ++ [c]).length = s ++ [c] := by
        rw [List.length_append, take_writeAt (by omega), hs]
      obtain ⟨buf', h₁, h₂, h₃⟩ := ih
        (fun h => hline (List.mem_cons_of_mem c h)) hlen htake
        (by rw [List.length_append, List.length_singleton]; omega)
      refine ⟨buf', h₁, ?_, ?_⟩
      · simpa using h₂
      · rw [List.length_cons, show line.length + 1 + (fuel + 1) =
          (line.length + (fuel + 1)) + 1 by omega, mainLoop]
        simp only [List.cons_append, if_neg hlt, if_neg hc]
        simpa using h₃

/-- A line that does not fit is stored past the end of `buf`. -/
theorem mainLoop_overflow {p : Nat} (hline : newline ∉ line) (hbuf : buf.length = 1024)
    (hroom : 1024 ≤ p + line.length) :
    mainLoop cmd fuel { w with input := line ++ newline :: rest } ⟨buf, p⟩ = none := by
  induction line generalizing buf p fuel with
  | nil =>
      cases fuel with
      | zero => rfl
      | succ fuel =>
          have hfull : buf.length ≤ p := by
            rw [List.length_nil] at hroom
            omega
          rw [mainLoop]
          simp only [List.nil_append, if_pos hfull]
  | cons c line ih =>
      cases fuel with
      | zero => rfl
      | succ fuel =>
          have hc : c ≠ newline := fun h => hline (h ▸ List.mem_cons_self)
          rw [List.length_cons] at hroom
          rw [mainLoop]
          simp only [List.cons_append, if_neg hc]
          split
          · rfl
          · rename_i hlt
            refine ih (fun h => hline (List.mem_cons_of_mem c h)) ?_ (by omega)
            rw [length_writeAt (by simp only [List.length_singleton]; omega), hbuf]

theorem mainLoop_eof {s : Proc} (hw : w.input = []) (hfuel : 0 < fuel) :
    mainLoop cmd fuel w s = some w := by
  obtain ⟨n, rfl⟩ : ∃ n, fuel = n + 1 := ⟨fuel - 1, by omega⟩
  rw [mainLoop, hw]

theorem stdin_cons (r : Round) (rs : List Round) :
    stdin (r :: rs) = r.line ++ newline :: stdin rs := by
  simp [stdin]

/-- **The processes run the line loop.** From the beginning of a line, with
`stale` in front of `p`, they use up the input as `lineLoop` says. -/
theorem mainLoop_eq_lineLoop {rs : List Round} {stale : Bytes} {execs : List (List Bytes)}
    (hrs : ∀ r ∈ rs, r.Valid) (hnul : (0 : UInt8) ∉ stale) (hbuf : buf.length = 1024)
    (hstale : buf.take stale.length = stale) (hfuel : (stdin rs).length < fuel) :
    mainLoop cmd fuel ⟨stdin rs, rs.map Round.outcome, execs⟩ ⟨buf, stale.length⟩ =
      (lineLoop cmd stale rs).map fun new => ⟨[], [], execs ++ new⟩ := by
  induction rs generalizing stale buf fuel execs with
  | nil =>
      rw [mainLoop_eof rfl (by omega), lineLoop, Option.map_some, List.append_nil]
      rfl
  | cons r rs ih =>
      obtain ⟨hr, hrs⟩ := List.forall_mem_cons.mp hrs
      rw [lineLoop, stdin_cons, List.map_cons]
      by_cases hfull : 1024 ≤ stale.length + r.line.length
      · rw [if_pos hfull]
        exact mainLoop_overflow (w := ⟨[], r.outcome :: rs.map Round.outcome, execs⟩)
          hr.noNewline hbuf hfull
      rw [if_neg hfull]
      rw [stdin_cons, List.length_append, List.length_cons] at hfuel
      obtain ⟨n, rfl⟩ : ∃ n, fuel = r.line.length + (n + 1) :=
        ⟨fuel - r.line.length - 1, by omega⟩
      obtain ⟨buf₁, hlen₁, htake₁, hrun⟩ := @mainLoop_collect cmd
        ⟨[], r.outcome :: rs.map Round.outcome, execs⟩ buf stale r.line (stdin rs) n
        hr.noNewline hbuf hstale (by omega)
      have hnul₁ : (0 : UInt8) ∉ stale ++ r.line := by
        rw [List.mem_append]
        rintro (h | h)
        · exact hnul h
        · exact hr.noNul h
      -- the buffer with the newline turned into a NUL
      have hpos : (stale ++ r.line).length + [(0 : UInt8)].length ≤ buf₁.length := by
        rw [hlen₁, List.length_append, List.length_singleton]
        omega
      have hlen₂ : (writeAt buf₁ (stale ++ r.line).length [0]).length = 1024 := by
        rw [length_writeAt hpos, hlen₁]
      have htake₂ : (writeAt buf₁ (stale ++ r.line).length [0]).take
          (stale ++ r.line).length = stale ++ r.line := by
        rw [writeAt, htake₁, List.append_assoc, List.take_left]
      have hcstr := cstr_writeAt_zero hnul₁ htake₁
      rw [hrun, endLine]
      generalize writeAt buf₁ (stale ++ r.line).length [0] = buf₂ at hlen₂ htake₂ hcstr ⊢
      simp only [List.headD_cons, List.tail_cons, hcstr]
      have hfuel' : (stdin rs).length < n := by omega
      cases hout : r.outcome with
      | forkFails =>
          simp only [if_true]
          exact ih hrs hnul₁ hlen₂ htake₂ hfuel'
      | execFails =>
          simp only [reduceCtorEq, if_false]
          split
          · rfl
          · -- the child reads on to the end, then the parent finds nothing
            rw [ih hrs hnul₁ hlen₂ htake₂ hfuel']
            cases lineLoop cmd (stale ++ r.line) rs with
            | none => rfl
            | some new =>
                simp only [Option.map_some]
                rw [mainLoop_eof rfl (by omega), List.append_assoc]
                rfl
      | runs =>
          simp only [reduceCtorEq, if_false, if_true]
          split
          · rfl
          · have hrest : mainLoop cmd n ⟨stdin rs, rs.map Round.outcome,
                execs ++ [cmd ++ [stale ++ r.line]]⟩ ⟨buf₂, ([] : Bytes).length⟩ = _ :=
              ih hrs List.not_mem_nil hlen₂ rfl hfuel'
            rw [List.length_nil] at hrest
            rw [hrest]
            cases lineLoop cmd [] rs with
            | none => rfl
            | some new =>
                simp only [Option.map_some, List.append_assoc]
                rfl

/-! ## When every line gets its command -/

/-- Every line fits behind the lines just before it that led to no command,
`n` bytes at the start. -/
def Fits : Nat → List Round → Prop
  | _, [] => True
  | n, r :: rs => n + r.line.length < 1024 ∧
      Fits (if r.outcome = .runs then 0 else n + r.line.length) rs

/-- The inputs and outcomes for which the loop works. -/
structure Regular (cmd : List Bytes) (rs : List Round) : Prop where
  /-- `args` has room for the line and the null pointer, if a child needs it -/
  args : cmd.length ≤ 30 ∨ cmd.length ≤ 32 ∧ ∀ r ∈ rs, r.outcome = .forkFails
  /-- after a line that led to no command, no `fork` succeeds, unless it was empty -/
  clean : rs.Pairwise fun a b =>
    a.outcome ≠ .runs → b.outcome ≠ .forkFails → a.line = []
  fits : Fits 0 rs

theorem expected_cons (cmd : List Bytes) (r : Round) (rs : List Round) :
    expected cmd (r :: rs) =
      if r.outcome = .forkFails then expected cmd rs
      else (cmd ++ [r.line]) :: expected cmd rs := by
  unfold expected
  by_cases h : r.outcome = .forkFails <;> simp [h]

theorem vector_eq_iff {cmd : List Bytes} {stale line : Bytes} :
    cmd ++ [stale ++ line] = cmd ++ [line] ↔ stale = [] := by
  rw [List.append_cancel_left_eq, List.singleton_inj]
  constructor
  · intro h
    have hlen := congrArg List.length h
    rw [List.length_append] at hlen
    exact List.length_eq_zero_iff.mp (by omega)
  · rintro rfl
    rfl

/-- What stays in `buf` is empty, or no later `fork` succeeds. -/
theorem stale_iff {line : Bytes} {rs : List Round} :
    (∀ b ∈ rs, b.outcome ≠ .forkFails → line = []) ↔
      line = [] ∨ ∀ b ∈ rs, b.outcome = .forkFails := by
  constructor
  · intro h
    by_cases hline : line = []
    · exact .inl hline
    · exact .inr fun b hb => by_contra fun hno => hline (h b hb hno)
  · rintro (hline | hall) b hb hno
    · exact hline
    · exact absurd (hall b hb) hno

theorem lineLoop_exec_iff {r : Round} {rs : List Round} {stale left : Bytes} :
    (if 32 ≤ cmd.length + 1 then none
      else (lineLoop cmd left rs).map ((cmd ++ [stale ++ r.line]) :: ·)) =
        some ((cmd ++ [r.line]) :: expected cmd rs) ↔
      cmd.length ≤ 30 ∧ stale = [] ∧ lineLoop cmd left rs = some (expected cmd rs) := by
  split
  · simp only [reduceCtorEq, false_iff]
    rintro ⟨hcmd, -⟩
    omega
  · have hcmd : cmd.length ≤ 30 := by omega
    rw [Option.map_eq_some_iff]
    simp only [List.cons.injEq, vector_eq_iff, hcmd, true_and]
    constructor
    · rintro ⟨out, hout, hstale, rfl⟩
      exact ⟨hstale, hout⟩
    · rintro ⟨hstale, hout⟩
      exact ⟨_, hout, hstale, rfl⟩

/-- **The line loop is right exactly when nothing stale meets a `fork` that
succeeds**, and every store is in bounds. -/
theorem lineLoop_eq_expected_iff {rs : List Round} {stale : Bytes} :
    lineLoop cmd stale rs = some (expected cmd rs) ↔
      (cmd.length ≤ 30 ∨ ∀ r ∈ rs, r.outcome = .forkFails) ∧
      (stale = [] ∨ ∀ r ∈ rs, r.outcome = .forkFails) ∧
      (rs.Pairwise fun a b =>
        a.outcome ≠ .runs → b.outcome ≠ .forkFails → a.line = []) ∧
      Fits stale.length rs := by
  induction rs generalizing stale with
  | nil => simp [lineLoop, expected, Fits]
  | cons r rs ih =>
      rw [lineLoop, expected_cons, Fits, List.pairwise_cons]
      by_cases hfull : 1024 ≤ stale.length + r.line.length
      · rw [if_pos hfull]
        simp only [reduceCtorEq, false_iff]
        rintro ⟨-, -, -, hfit, -⟩
        omega
      rw [if_neg hfull]
      have hfit : stale.length + r.line.length < 1024 := by omega
      simp only [hfit, true_and, List.forall_mem_cons]
      cases hout : r.outcome with
      | forkFails =>
          simp only [if_true, true_and, reduceCtorEq, if_false, ne_eq, not_false_eq_true,
            forall_const]
          rw [ih, List.length_append, List.append_eq_nil_iff]
          have hstale := @stale_iff r.line rs
          tauto
      | execFails =>
          simp only [reduceCtorEq, if_false, ne_eq, not_false_eq_true, forall_const,
            false_and, or_false]
          rw [lineLoop_exec_iff, ih, List.length_append, List.append_eq_nil_iff]
          have hstale := @stale_iff r.line rs
          tauto
      | runs =>
          simp only [reduceCtorEq, if_false, if_true, ne_eq, not_true_eq_false,
            false_and, or_false, false_imp_iff, implies_true, true_and]
          rw [lineLoop_exec_iff, ih]
          simp only [List.length_nil]
          tauto

theorem main_eq_lineLoop {rs : List Round} (hrs : ∀ r ∈ rs, r.Valid)
    (hbuf : buf.length = 1024) (hfuel : (stdin rs).length < fuel)
    (hcmd : cmd.length ≤ 32) :
    main cmd fuel (start rs) buf =
      (lineLoop cmd [] rs).map fun new => ⟨[], [], [] ++ new⟩ := by
  rw [main, if_neg (by omega)]
  exact mainLoop_eq_lineLoop hrs List.not_mem_nil hbuf rfl hfuel

/-- Running "echo" on the lines "a" and "b" when the first `fork` fails calls
`exec` with "ab". -/
theorem xargs_joins_lines_after_failed_fork :
    (∀ r ∈ [Round.mk [97] .forkFails, Round.mk [98] .runs], r.Valid) ∧
    ∃ w, main [[101, 99, 104, 111]] 5
        (start [Round.mk [97] .forkFails, Round.mk [98] .runs])
        (List.replicate 1024 0) = some w ∧
      w.execs = [[[101, 99, 104, 111], [97, 98]]] ∧
      w.execs ≠ expected [[101, 99, 104, 111]]
        [Round.mk [97] .forkFails, Round.mk [98] .runs] := by
  have hvalid : ∀ r ∈ [Round.mk [97] .forkFails, Round.mk [98] .runs], r.Valid := by
    simp only [List.forall_mem_cons]
    exact ⟨⟨by decide, by decide, by decide⟩, ⟨by decide, by decide, by decide⟩, by simp⟩
  refine ⟨hvalid, ?_⟩
  rw [main_eq_lineLoop hvalid List.length_replicate (by decide) (by decide)]
  exact ⟨_, rfl, rfl, by decide⟩

/-- **`xargs` runs each line's command exactly in the regular cases.** -/
theorem xargs_one_line_each_iff {rs : List Round} (hrs : ∀ r ∈ rs, r.Valid)
    (hbuf : buf.length = 1024) (hfuel : (stdin rs).length < fuel) :
    (∃ w, main cmd fuel (start rs) buf = some w ∧ w.execs = expected cmd rs) ↔
      Regular cmd rs := by
  by_cases hcmd : cmd.length ≤ 32
  · rw [main_eq_lineLoop hrs hbuf hfuel hcmd]
    have hloop := @lineLoop_eq_expected_iff cmd rs []
    constructor
    · rintro ⟨w, hw, hexecs⟩
      obtain ⟨new, hnew, rfl⟩ := Option.map_eq_some_iff.mp hw
      rw [List.nil_append] at hexecs
      obtain ⟨hargs, -, hclean, hfits⟩ := hloop.mp (hexecs ▸ hnew)
      exact ⟨hargs.imp_right fun h => ⟨hcmd, h⟩, hclean, hfits⟩
    · rintro ⟨hargs, hclean, hfits⟩
      have hnew := hloop.mpr ⟨hargs.imp_right And.right, .inl rfl, hclean, hfits⟩
      exact ⟨_, by rw [hnew, Option.map_some], rfl⟩
  · constructor
    · rintro ⟨w, hw, -⟩
      rw [main, if_pos (by omega)] at hw
      cases hw
    · rintro ⟨hargs | hargs, -, -⟩ <;> omega

/-- "echo" on "1", an empty line whose `fork` fails, and "2". -/
theorem xargs_one_line_each_two_lines :
    ∃ w, main [[101, 99, 104, 111]] 6
        (start [Round.mk [49] .runs, Round.mk [] .forkFails, Round.mk [50] .runs])
        (List.replicate 1024 0) = some w ∧
      w.execs = [[[101, 99, 104, 111], [49]], [[101, 99, 104, 111], [50]]] := by
  have hvalid : ∀ r ∈ [Round.mk [49] .runs, Round.mk [] .forkFails,
      Round.mk [50] .runs], r.Valid := by
    simp only [List.forall_mem_cons]
    exact ⟨⟨by decide, by decide, by decide⟩, ⟨by decide, by decide, by decide⟩,
      ⟨by decide, by decide, by decide⟩, by simp⟩
  refine (xargs_one_line_each_iff hvalid List.length_replicate (by decide)).mpr ?_
  exact ⟨.inl (by decide), by simp, by simp [Fits]⟩

end Xv6Labs.Xargs
