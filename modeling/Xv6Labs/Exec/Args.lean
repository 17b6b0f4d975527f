import Xv6Labs.Lib.Holds
import Xv6Labs.Riscv

/-!
# The arguments of a new program

The part of `exec` that pushes the argument strings and the `argv` array on the user
stack. Addresses are `uint64`, so a string longer than `sp` makes `sp` wrap around; the
test `sp < stackbase` does not see that, `copyout` does.

`copyout` is a parameter. What `exec` relies on is in `UserMem.Copies`: it succeeds
exactly when the user may write the whole range, and then that range holds the bytes.
-/

namespace Xv6Labs.Exec

open Xv6Labs.Lib

/-! ## The code -/

/-- User memory as `copyout` finds it. -/
structure UserMem (σ : Type*) where
  /-- what the program reads -/
  mem : σ → Mem
  /-- the page is mapped with `PTE_U` and `PTE_W` -/
  writable : σ → Nat → Prop
  /-- `none` is -1 -/
  copyout : σ → Nat → Bytes → Option σ

/-- How the loop and what follows it leave `exec`. -/
inductive Stop where
  /-- `goto bad` -/
  | bad
  /-- a store outside `ustack` -/
  | outside
deriving DecidableEq

/-- `a - b` on `uint64`. -/
def sub64 (a b : Nat) : Nat := (a + 2 ^ 64 - b % 2 ^ 64) % 2 ^ 64

/-- `sp -= sp % 16`. -/
def align16 (sp : Nat) : Nat := sub64 sp (sp % 16)

section Code

variable {σ : Type*} (U : UserMem σ) (MAXARG stackbase : Nat)

/-- The loop over `argv`; the strings come without their NUL, `argc` is the length of
`ustack`. -/
def pushStrings : List Bytes → σ → Nat → List Nat → Except Stop (σ × Nat × List Nat)
  | [], k, sp, ustack => .ok (k, sp, ustack)
  | s :: argv, k, sp, ustack =>
      if MAXARG ≤ ustack.length then .error .bad
      else
        let sp := sub64 sp (s.length + 1)
        let sp := align16 sp
        if sp < stackbase then .error .bad
        else
          match U.copyout k sp (s ++ [0]) with
          | none => .error .bad
          | some k => pushStrings argv k sp (ustack ++ [sp])

/-- The array of pointers below the strings; `argc` and `sp` at the end. -/
def pushVector (k : σ) (sp : Nat) (ustack : List Nat) : Except Stop (σ × Nat × Nat) :=
  let argc := ustack.length
  -- ustack[argc] = 0
  if MAXARG ≤ argc then .error .outside
  else
    let sp := sub64 sp ((argc + 1) * 8)
    let sp := align16 sp
    if sp < stackbase then .error .bad
    else
      match U.copyout k sp ((ustack ++ [0]).flatMap le64) with
      | none => .error .bad
      | some k => .ok (k, sp, argc)

/-- From `sp = sz` to the value of `a1`. -/
def pushArgs (k : σ) (sz : Nat) (argv : List Bytes) : Except Stop (σ × Nat × Nat) :=
  match pushStrings U MAXARG stackbase argv k sz [] with
  | .error e => .error e
  | .ok (k, sp, ustack) => pushVector U MAXARG stackbase k sp ustack

end Code

/-! ## What it relies on -/

/-- The contract of `copyout`. -/
structure UserMem.Copies {σ : Type*} (U : UserMem σ) : Prop where
  ok : ∀ k va bs, (∀ x, va ≤ x → x < va + bs.length → U.writable k x) →
    ∃ k', U.copyout k va bs = some k'
  only : ∀ k va bs k', U.copyout k va bs = some k' →
    ∀ x, va ≤ x → x < va + bs.length → U.writable k x
  mem : ∀ k va bs k', U.copyout k va bs = some k' → U.mem k' = (U.mem k).store va bs
  writable : ∀ k va bs k', U.copyout k va bs = some k' → U.writable k' = U.writable k

/-- The stack pages `[stackbase, sz)`; the guard page below is not for the user, and
nothing is mapped from `sz` on. -/
structure Stack {σ : Type*} (U : UserMem σ) (k : σ) (stackbase sz : Nat) : Prop where
  writable : ∀ x, stackbase ≤ x → (U.writable k x ↔ x < sz)
  le : stackbase ≤ sz
  aligned : sz % 4096 = 0
  bound : sz ≤ MAXVA

/-! ## Sizes -/

def slot (s : Bytes) : Nat := (s.length + 16) / 16 * 16

def vector (argc : Nat) : Nat := (8 * (argc + 1) + 15) / 16 * 16

def slots (argv : List Bytes) : Nat := (argv.map slot).sum

def argsSize (argv : List Bytes) : Nat := slots argv + vector argv.length

/-- Where the strings go when the first one is pushed at `sp`. -/
def addresses : Nat → List Bytes → List Nat
  | _, [] => []
  | sp, s :: argv => (sp - slot s) :: addresses (sp - slot s) argv

@[simp] theorem slots_nil : slots [] = 0 := rfl

@[simp] theorem slots_cons (s : Bytes) (argv : List Bytes) :
    slots (s :: argv) = slot s + slots argv := by
  simp [slots]

@[simp] theorem length_addresses (sp : Nat) (argv : List Bytes) :
    (addresses sp argv).length = argv.length := by
  induction argv generalizing sp with
  | nil => rfl
  | cons s argv ih => simp [addresses, ih]

theorem align16_sub64 {sp len : Nat} (hsp : sp % 16 = 0) (hbound : sp ≤ MAXVA)
    (hlen : len < 2 ^ 40) :
    (align16 (sub64 sp len) = sp - (len + 15) / 16 * 16 ∧ (len + 15) / 16 * 16 ≤ sp) ∨
      (sp < len ∧ MAXVA < align16 (sub64 sp len)) := by
  unfold align16 sub64
  simp only [MAXVA] at *
  by_cases hle : len ≤ sp
  · left
    omega
  · right
    omega

/-! ## One block -/

section Block

variable {σ : Type*} {U : UserMem σ} {k k' : σ} {MAXARG stackbase sz sp : Nat} {bs : Bytes}

structure Top (stackbase sz sp : Nat) : Prop where
  ge : stackbase ≤ sp
  le : sp ≤ sz
  aligned : sp % 16 = 0

theorem Stack.copyout (hU : U.Copies) (hst : Stack U k stackbase sz)
    (h : U.copyout k sp bs = some k') : Stack U k' stackbase sz where
  writable := by
    rw [hU.writable _ _ _ _ h]
    exact hst.writable
  le := hst.le
  aligned := hst.aligned
  bound := hst.bound

theorem Stack.top (hst : Stack U k stackbase sz) : Top stackbase sz sz where
  ge := hst.le
  le := Nat.le_refl _
  aligned := by
    have := hst.aligned
    omega

/-- **A block that has room is stored**, below what the stack has already. -/
theorem push_of_room (hU : U.Copies) (hst : Stack U k stackbase sz)
    (htop : Top stackbase sz sp) (hlen : bs.length < 2 ^ 40)
    (hroom : (bs.length + 15) / 16 * 16 ≤ sp - stackbase) :
    ∃ sp' k', align16 (sub64 sp bs.length) = sp' ∧ sp' = sp - (bs.length + 15) / 16 * 16 ∧
      U.copyout k sp' bs = some k' ∧ Top stackbase sz sp' ∧ Stack U k' stackbase sz ∧
      (U.mem k').Holds sp' bs ∧ ∀ x, x < sp' ∨ sp ≤ x → U.mem k' x = U.mem k x := by
  obtain ⟨hge, hle, haligned⟩ := htop
  have hbound := hst.bound
  rcases align16_sub64 haligned (Nat.le_trans hle hbound) hlen with ⟨hsp, hfit⟩ | ⟨hlt, -⟩
  · have htop' : Top stackbase sz (sp - (bs.length + 15) / 16 * 16) :=
      ⟨by omega, by omega, by omega⟩
    obtain ⟨k', hk'⟩ := hU.ok k (sp - (bs.length + 15) / 16 * 16) bs (fun x h₁ h₂ =>
      (hst.writable x (Nat.le_trans htop'.ge h₁)).mpr (by omega))
    refine ⟨_, k', hsp, rfl, hk', htop', hst.copyout hU hk', ?_, fun x hx => ?_⟩
    · rw [hU.mem _ _ _ _ hk']
      exact Mem.holds_store _ _ _
    · rw [hU.mem _ _ _ _ hk']
      exact Mem.store_of_notMem (by omega)
  · omega

/-- **One that has none is refused**: by the test on `sp`, or by `copyout` when `sp`
went around. -/
theorem push_of_no_room (hU : U.Copies) (hst : Stack U k stackbase sz)
    (htop : Top stackbase sz sp) (hlen : bs.length < 2 ^ 40) (hbs : 0 < bs.length)
    (hroom : ¬ (bs.length + 15) / 16 * 16 ≤ sp - stackbase) :
    align16 (sub64 sp bs.length) < stackbase ∨
      U.copyout k (align16 (sub64 sp bs.length)) bs = none := by
  obtain ⟨hge, hle, haligned⟩ := htop
  have hbound := hst.bound
  rcases align16_sub64 haligned (Nat.le_trans hle hbound) hlen with ⟨hsp, hfit⟩ | ⟨-, hlt⟩
  · left
    omega
  · right
    cases hcopy : U.copyout k (align16 (sub64 sp bs.length)) bs with
    | none => rfl
    | some k' =>
        have hw := hU.only _ _ _ _ hcopy _ (Nat.le_refl _) (Nat.lt_add_of_pos_right hbs)
        have hlt' := (hst.writable _ (by omega)).mp hw
        omega

end Block

/-! ## The strings -/

/-- The strings stand below `sp`, the first one on top. -/
def Pushed (m : Mem) : Nat → List Bytes → Prop
  | _, [] => True
  | sp, s :: argv => m.Holds (sp - slot s) (s ++ [0]) ∧ Pushed m (sp - slot s) argv

theorem Pushed.holds {m : Mem} {sp : Nat} {argv : List Bytes} (h : Pushed m sp argv) {i : Nat}
    (hi : i < argv.length) (hi' : i < (addresses sp argv).length) :
    m.Holds (addresses sp argv)[i] (argv[i] ++ [0]) := by
  induction argv generalizing sp i with
  | nil => cases hi
  | cons s argv ih =>
      cases i with
      | zero => exact h.1
      | succ i => exact ih h.2 (Nat.lt_of_succ_lt_succ hi) (by simpa [addresses] using hi')

/-- Nothing of the strings lies outside `[sp - slots argv, sp)`. -/
theorem Pushed.congr {m m' : Mem} {sp : Nat} {argv : List Bytes} (h : Pushed m sp argv)
    (hfit : slots argv ≤ sp)
    (hm : ∀ x, sp - slots argv ≤ x → x < sp → m' x = m x) : Pushed m' sp argv := by
  induction argv generalizing sp with
  | nil => trivial
  | cons s argv ih =>
      rw [slots_cons] at hfit hm
      have hslot : s.length + 1 ≤ slot s := by
        unfold slot
        omega
      constructor
      · refine h.1.congr (fun x h₁ h₂ => hm x (by omega) ?_)
        rw [List.length_append, List.length_singleton] at h₂
        omega
      · exact ih h.2 (by omega) (fun x h₁ h₂ => hm x (by omega) (by omega))

theorem addresses_lt {sp a : Nat} {argv : List Bytes} (hfit : slots argv ≤ sp)
    (ha : a ∈ addresses sp argv) : sp - slots argv ≤ a ∧ a < sp := by
  induction argv generalizing sp with
  | nil => cases ha
  | cons s argv ih =>
      have hslot : 0 < slot s := by
        unfold slot
        omega
      rw [slots_cons] at hfit ⊢
      rcases List.mem_cons.mp ha with rfl | ha
      · omega
      · have := ih (by omega) ha
        omega

section Strings

variable {σ : Type*} {U : UserMem σ} {k k' : σ} {MAXARG stackbase sz sp : Nat}
  {argv : List Bytes} {ustack : List Nat}

theorem pushStrings_next {s : Bytes} {sp' : Nat} (hcount : ustack.length < MAXARG)
    (hsp : align16 (sub64 sp (s.length + 1)) = sp') (hge : stackbase ≤ sp')
    (hcopy : U.copyout k sp' (s ++ [0]) = some k') :
    pushStrings U MAXARG stackbase (s :: argv) k sp ustack =
      pushStrings U MAXARG stackbase argv k' sp' (ustack ++ [sp']) := by
  rw [pushStrings, if_neg (Nat.not_le.mpr hcount)]
  simp only [hsp, if_neg (Nat.not_lt.mpr hge), hcopy]

/-- **The strings that fit are all pushed.** -/
theorem pushStrings_of_fit (hU : U.Copies) (hst : Stack U k stackbase sz)
    (htop : Top stackbase sz sp) (hlen : ∀ s ∈ argv, s.length < 2 ^ 31)
    (hcount : ustack.length + argv.length ≤ MAXARG) (hfit : slots argv ≤ sp - stackbase) :
    ∃ k', pushStrings U MAXARG stackbase argv k sp ustack =
        .ok (k', sp - slots argv, ustack ++ addresses sp argv) ∧
      Top stackbase sz (sp - slots argv) ∧ Stack U k' stackbase sz ∧
      Pushed (U.mem k') sp argv ∧
      ∀ x, x < sp - slots argv ∨ sp ≤ x → U.mem k' x = U.mem k x := by
  induction argv generalizing k sp ustack with
  | nil =>
      refine ⟨k, ?_, htop, hst, trivial, fun _ _ => rfl⟩
      rw [pushStrings, addresses, List.append_nil, slots_nil, Nat.sub_zero]
  | cons s argv ih =>
      rw [List.length_cons] at hcount
      rw [slots_cons] at hfit
      have hbytes : (s ++ [0]).length = s.length + 1 := by simp
      have hslot : ((s ++ [0]).length + 15) / 16 * 16 = slot s := by
        rw [hbytes, slot]
      have hs := hlen s List.mem_cons_self
      have hshort : (s ++ [0]).length < 2 ^ 40 := by omega
      obtain ⟨sp', k₁, hsp', hlow, hcopy, htop', hst', hheld, hframe⟩ :=
        push_of_room hU hst htop hshort (by omega)
      rw [hslot] at hlow
      rw [hbytes] at hsp'
      have hcount' : (ustack ++ [sp']).length + argv.length ≤ MAXARG := by
        rw [List.length_append, List.length_singleton]
        omega
      obtain ⟨k₂, hrest, htop₂, hst₂, hpushed, hframe₂⟩ := ih hst' htop'
        (fun t ht => hlen t (List.mem_cons_of_mem _ ht)) hcount' (by omega)
      have hge := htop.ge
      have hdown : sp' - slots argv = sp - (slot s + slots argv) := by omega
      refine ⟨k₂, ?_, by rwa [slots_cons, ← hdown], hst₂, ⟨?_, hlow ▸ hpushed⟩, ?_⟩
      · rw [pushStrings_next (by omega) hsp' htop'.ge hcopy, hrest, addresses, ← hlow,
          slots_cons, hdown, List.append_assoc, List.singleton_append]
      · rw [← hlow]
        exact hheld.congr (fun x h₁ _ => hframe₂ x (Or.inr h₁))
      · rw [slots_cons]
        rintro x (hx | hx)
        · rw [hframe₂ x (by omega), hframe x (by omega)]
        · rw [hframe₂ x (by omega), hframe x (by omega)]

/-- **Otherwise the program is not started.** -/
theorem pushStrings_of_not_fit (hU : U.Copies) (hst : Stack U k stackbase sz)
    (htop : Top stackbase sz sp) (hlen : ∀ s ∈ argv, s.length < 2 ^ 31)
    (hcount : ustack.length ≤ MAXARG)
    (hfit : ¬ (ustack.length + argv.length ≤ MAXARG ∧ slots argv ≤ sp - stackbase)) :
    pushStrings U MAXARG stackbase argv k sp ustack = .error .bad := by
  induction argv generalizing k sp ustack with
  | nil => exact absurd ⟨hcount, Nat.zero_le _⟩ hfit
  | cons s argv ih =>
      rw [List.length_cons, slots_cons] at hfit
      by_cases hfull : MAXARG ≤ ustack.length
      · rw [pushStrings, if_pos hfull]
      · have hbytes : (s ++ [0]).length = s.length + 1 := by simp
        have hslot : ((s ++ [0]).length + 15) / 16 * 16 = slot s := by
          rw [hbytes, slot]
        have hs := hlen s List.mem_cons_self
        have hshort : (s ++ [0]).length < 2 ^ 40 := by omega
        by_cases hroom : slot s ≤ sp - stackbase
        · obtain ⟨sp', k₁, hsp', hlow, hcopy, htop', hst', -⟩ :=
            push_of_room hU hst htop hshort (by omega)
          rw [hbytes] at hsp'
          rw [hslot] at hlow
          rw [pushStrings_next (Nat.not_le.mp hfull) hsp' htop'.ge hcopy]
          refine ih hst' htop' (fun t ht => hlen t (List.mem_cons_of_mem _ ht))
            (by rw [List.length_append, List.length_singleton]; omega) ?_
          rw [List.length_append, List.length_singleton]
          omega
        · have hrefused := push_of_no_room hU hst htop hshort (by omega)
            (by omega)
          rw [hbytes] at hrefused
          rw [pushStrings, if_neg hfull]
          rcases hrefused with hlow | hcopy
          · rw [if_pos hlow]
          · simp only [hcopy, ite_self]

end Strings

/-! ## The array of pointers -/

section Vector

variable {σ : Type*} {U : UserMem σ} {k : σ} {MAXARG stackbase sz sp : Nat}
  {ustack : List Nat}

theorem pushVector_of_fit (hU : U.Copies) (hst : Stack U k stackbase sz)
    (htop : Top stackbase sz sp) (hcount : ustack.length < MAXARG)
    (hsmall : ustack.length ≤ 2 ^ 34) (hfit : vector ustack.length ≤ sp - stackbase) :
    ∃ k' sp', pushVector U MAXARG stackbase k sp ustack = .ok (k', sp', ustack.length) ∧
      sp' = sp - vector ustack.length ∧ Top stackbase sz sp' ∧
      (U.mem k').Holds sp' ((ustack ++ [0]).flatMap le64) ∧
      ∀ x, x < sp' ∨ sp ≤ x → U.mem k' x = U.mem k x := by
  have hbytes : ((ustack ++ [0]).flatMap le64).length = (ustack.length + 1) * 8 := by
    rw [Mem.length_words, List.length_append, List.length_singleton, Nat.mul_comm]
  have hvector : (((ustack ++ [0]).flatMap le64).length + 15) / 16 * 16 =
      vector ustack.length := by
    rw [hbytes, vector, Nat.mul_comm _ 8]
  have hshort : ((ustack ++ [0]).flatMap le64).length < 2 ^ 40 := by omega
  obtain ⟨sp', k', hsp', hlow, hcopy, htop', -, hheld, hframe⟩ :=
    push_of_room hU hst htop hshort (by omega)
  rw [hbytes] at hsp'
  rw [hvector] at hlow
  refine ⟨k', sp', ?_, hlow, htop', hheld, hframe⟩
  simp only [pushVector, if_neg (Nat.not_le.mpr hcount), hsp',
    if_neg (Nat.not_lt.mpr htop'.ge), hcopy]

theorem pushVector_of_not_fit (hU : U.Copies) (hst : Stack U k stackbase sz)
    (htop : Top stackbase sz sp) (hcount : ustack.length < MAXARG)
    (hsmall : ustack.length ≤ 2 ^ 34) (hfit : ¬ vector ustack.length ≤ sp - stackbase) :
    pushVector U MAXARG stackbase k sp ustack = .error .bad := by
  have hbytes : ((ustack ++ [0]).flatMap le64).length = (ustack.length + 1) * 8 := by
    rw [Mem.length_words, List.length_append, List.length_singleton, Nat.mul_comm]
  have hvector : (((ustack ++ [0]).flatMap le64).length + 15) / 16 * 16 =
      vector ustack.length := by
    rw [hbytes, vector, Nat.mul_comm _ 8]
  have hshort : ((ustack ++ [0]).flatMap le64).length < 2 ^ 40 := by omega
  have hrefused := push_of_no_room hU hst htop hshort (by omega) (by omega)
  rw [hbytes] at hrefused
  simp only [pushVector, if_neg (Nat.not_le.mpr hcount)]
  rcases hrefused with hlow | hcopy
  · rw [if_pos hlow]
  · simp only [hcopy, ite_self]

end Vector

/-- Every string takes at least 16 bytes. -/
theorem length_le_slots (argv : List Bytes) : 16 * argv.length ≤ slots argv := by
  induction argv with
  | nil => exact Nat.zero_le _
  | cons s argv ih =>
      have hslot : 16 ≤ slot s := by
        unfold slot
        omega
      rw [slots_cons, List.length_cons]
      omega

/-! ## What `main` finds -/

/-- `main(argc, argv)` with `argc` strings, the array at `a1`. -/
structure Passed (m : Mem) (a1 : Nat) (argv : List Bytes) : Prop where
  aligned : a1 % 16 = 0
  strings : ∀ i (hi : i < argv.length) n, argv[i].length < n →
    m.string (m.load64 (a1 + 8 * i)) n = argv[i]
  last : m.load64 (a1 + 8 * argv.length) = 0

theorem passed_of_pushed {m : Mem} {a1 sp : Nat} {argv : List Bytes} (haligned : a1 % 16 = 0)
    (hsp : sp ≤ MAXVA) (hfit : slots argv ≤ sp) (hpushed : Pushed m sp argv)
    (hnul : ∀ s ∈ argv, (0 : UInt8) ∉ s)
    (hheld : m.Holds a1 ((addresses sp argv ++ [0]).flatMap le64)) : Passed m a1 argv := by
  have hwords : ∀ w ∈ addresses sp argv ++ [0], w < 2 ^ 64 := by
    intro w hw
    simp only [MAXVA] at hsp
    rcases List.mem_append.mp hw with hw | hw
    · have := addresses_lt hfit hw
      omega
    · rw [List.mem_singleton.mp hw]
      decide
  have hlen := length_addresses sp argv
  refine ⟨haligned, fun i hi n hn => ?_, ?_⟩
  · have hi' : i < (addresses sp argv).length := by rwa [hlen]
    rw [hheld.words hwords (by rw [List.length_append]; omega), List.getElem_append_left hi']
    exact (hpushed.holds hi hi').string (hnul _ (List.getElem_mem hi)) hn
  · have hlast := hheld.words hwords (i := argv.length)
      (by rw [List.length_append, List.length_singleton]; omega)
    rw [hlast, List.getElem_append_right (Nat.le_of_eq hlen)]
    simp [hlen]

/-- **`main` gets the arguments of `exec`.** Exactly when there are fewer than `MAXARG` of
them and they fit into the stack with the array of pointers, the new program finds them
all, in order, and nothing outside `[sp, sz)` is written. With `MAXARG` arguments that fit
the terminating 0 goes behind the end of `ustack`; every other call fails. -/
theorem arguments_reach_main {σ : Type*} {U : UserMem σ} {k : σ} {MAXARG stackbase sz : Nat}
    {argv : List Bytes} (hU : U.Copies) (hst : Stack U k stackbase sz)
    (hnul : ∀ s ∈ argv, (0 : UInt8) ∉ s) (hlen : ∀ s ∈ argv, s.length < 2 ^ 31) :
    (argv.length < MAXARG ∧ argsSize argv ≤ sz - stackbase →
      ∃ k' sp, pushArgs U MAXARG stackbase k sz argv = .ok (k', sp, argv.length) ∧
        stackbase ≤ sp ∧ sp = sz - argsSize argv ∧ Passed (U.mem k') sp argv ∧
        ∀ x, x < sp ∨ sz ≤ x → U.mem k' x = U.mem k x) ∧
    (argv.length = MAXARG ∧ slots argv ≤ sz - stackbase →
      pushArgs U MAXARG stackbase k sz argv = .error .outside) ∧
    (¬ (argv.length < MAXARG ∧ argsSize argv ≤ sz - stackbase) →
      ¬ (argv.length = MAXARG ∧ slots argv ≤ sz - stackbase) →
      pushArgs U MAXARG stackbase k sz argv = .error .bad) := by
  have hmany := length_le_slots argv
  have hbound := hst.bound
  have hle := hst.le
  by_cases hfit : argv.length ≤ MAXARG ∧ slots argv ≤ sz - stackbase
  · -- the strings are pushed
    have hcount : ([] : List Nat).length + argv.length ≤ MAXARG := by
      simpa using hfit.1
    obtain ⟨k₁, hrun, htop, hst₁, hpushed, hframe⟩ :=
      pushStrings_of_fit hU hst hst.top hlen hcount hfit.2
    have hargc : (addresses sz argv).length = argv.length := length_addresses sz argv
    rw [List.nil_append] at hrun
    have hcode : pushArgs U MAXARG stackbase k sz argv =
        pushVector U MAXARG stackbase k₁ (sz - slots argv) (addresses sz argv) := by
      simp only [pushArgs, hrun]
    have hsmall : (addresses sz argv).length ≤ 2 ^ 34 := by
      simp only [MAXVA] at hbound
      omega
    rw [hcode]
    refine ⟨fun h => ?_, fun h => ?_, fun h₁ h₂ => ?_⟩
    · unfold argsSize at h
      obtain ⟨k₂, sp, hvec, hsp, htop₂, hheld, hframe₂⟩ := pushVector_of_fit hU hst₁ htop
        (hargc ▸ h.1) hsmall (by rw [hargc]; omega)
      rw [hargc] at hvec hsp
      refine ⟨k₂, sp, hvec, htop₂.ge, by unfold argsSize; omega, ?_, ?_⟩
      · refine passed_of_pushed htop₂.aligned hbound (by omega) ?_ hnul hheld
        exact hpushed.congr (by omega) (fun x h₁ _ => hframe₂ x (Or.inr h₁))
      · rintro x (hx | hx)
        · rw [hframe₂ x (by omega), hframe x (by omega)]
        · rw [hframe₂ x (by omega), hframe x (by omega)]
    · simp only [pushVector, hargc, h.1, Nat.le_refl, if_true]
    · unfold argsSize at h₁
      exact pushVector_of_not_fit hU hst₁ htop (by omega) hsmall (by rw [hargc]; omega)
  · -- one of them is not
    have hbad : pushArgs U MAXARG stackbase k sz argv = .error .bad := by
      have hno : ¬ (([] : List Nat).length + argv.length ≤ MAXARG ∧
          slots argv ≤ sz - stackbase) := by
        simpa using hfit
      have hrun := pushStrings_of_not_fit hU hst hst.top hlen (Nat.zero_le _) hno
      simp only [pushArgs, hrun]
    have hsize : slots argv ≤ argsSize argv := Nat.le_add_right _ _
    refine ⟨fun h => ?_, fun h => ?_, fun _ _ => hbad⟩
    · exact absurd ⟨by omega, by omega⟩ hfit
    · exact absurd ⟨by omega, by omega⟩ hfit

/-! ### A stack of one page -/

def onePage : UserMem Mem where
  mem := id
  writable _ x := 12288 ≤ x ∧ x < 16384
  copyout m va bs :=
    if bs = [] ∨ 12288 ≤ va ∧ va + bs.length ≤ 16384 then some (m.store va bs) else none

theorem onePage_copyout {m m' : Mem} {va : Nat} {bs : Bytes} :
    onePage.copyout m va bs = some m' ↔
      (bs = [] ∨ 12288 ≤ va ∧ va + bs.length ≤ 16384) ∧ m.store va bs = m' := by
  simp [onePage]

theorem onePage_copies : onePage.Copies where
  ok k va bs h := by
    refine ⟨k.store va bs, onePage_copyout.mpr ⟨?_, rfl⟩⟩
    rcases List.eq_nil_or_concat bs with hbs | ⟨cs, c, rfl⟩
    · exact Or.inl hbs
    · rw [List.concat_eq_append, List.length_append, List.length_singleton] at h ⊢
      have hfirst : 12288 ≤ va ∧ va < 16384 := h va (by omega) (by omega)
      have hlast : 12288 ≤ va + cs.length ∧ va + cs.length < 16384 :=
        h (va + cs.length) (by omega) (by omega)
      exact Or.inr ⟨hfirst.1, by omega⟩
  only k va bs k' h x h₁ h₂ := by
    rcases (onePage_copyout.mp h).1 with rfl | ⟨hge, hle⟩
    · rw [List.length_nil] at h₂
      omega
    · exact ⟨by omega, by omega⟩
  mem _ _ _ _ h := (onePage_copyout.mp h).2.symm
  writable _ _ _ _ _ := rfl

theorem onePage_stack (m : Mem) : Stack onePage m 12288 16384 where
  writable x hx := ⟨fun h => h.2, fun h => ⟨hx, h⟩⟩
  le := by decide
  aligned := by decide
  bound := by decide

/-- `ls -l`. -/
theorem arguments_reach_main_ls : ∃ m sp,
    pushArgs onePage 32 12288 (fun _ => 0) 16384 [[108, 115], [45, 108]] = .ok (m, sp, 2) ∧
      12288 ≤ sp ∧ sp = 16320 ∧ Passed m sp [[108, 115], [45, 108]] ∧
      ∀ x, x < sp ∨ 16384 ≤ x → m x = 0 :=
  (arguments_reach_main onePage_copies (onePage_stack _) (by decide) (by decide)).1
    (by decide)

end Xv6Labs.Exec
