import Mathlib.Logic.Function.Basic

/-!
# Runs of a labelled machine

A machine is a step relation `step : S → L → S → Prop`: the label `l` takes
`s` to `t`. A label with no successor in `s` is one the machine does not
survive there (a panic, a process that exits), so a run simply ends before it.

Three views of a run are used:

- `Run step s ls t`, the labels `ls` lead from `s` to `t`;
- `Always step P s ls`, every state met along `ls` satisfies `P`;
- `Each step Q s ls`, every label of `ls` meets `Q` in the state it is
  issued in.

The rules below turn a fact about one step into a fact about whole runs.
-/

namespace Xv6Labs.Lib

variable {S T L : Type*}

/-- The labels `ls` lead from `s` to `t`. -/
inductive Run (step : S → L → S → Prop) : S → List L → S → Prop
  | nil (s : S) : Run step s [] s
  | cons {s t u : S} {l : L} {ls : List L} (h : step s l t)
      (hs : Run step t ls u) : Run step s (l :: ls) u

/-- Every state met along `ls`, the first one included, satisfies `P`. -/
def Always (step : S → L → S → Prop) (P : S → Prop) : S → List L → Prop
  | s, [] => P s
  | s, l :: ls => P s ∧ ∀ t, step s l t → Always step P t ls

/-- Every label of `ls` meets `Q` in the state it is issued in. -/
def Each (step : S → L → S → Prop) (Q : S → L → Prop) : S → List L → Prop
  | _, [] => True
  | s, l :: ls => Q s l ∧ ∀ t, step s l t → Each step Q t ls

section Rules

variable {step : S → L → S → Prop} {I P : S → Prop} {Q Q' : S → L → Prop}

/-- **The invariant rule**: what every step preserves, every run preserves. -/
theorem Run.invariant (hstep : ∀ s l t, I s → step s l t → I t)
    {s t : S} {ls : List L} (hr : Run step s ls t) (hs : I s) : I t := by
  induction hr with
  | nil s => exact hs
  | cons h _ ih => exact ih (hstep _ _ _ hs h)

/-- **The counting rule**: an invariant about how many labels of a kind were met. -/
theorem Run.countP {I : Nat → S → Prop} {c : L → Bool}
    (hstep : ∀ n s l t, I n s → step s l t → I n t ∨ c l = true ∧ I (n + 1) t)
    {s t : S} {ls : List L} (hr : Run step s ls t) {n : Nat} (hs : I n s) :
    ∃ k ≤ ls.countP c, I (n + k) t := by
  induction hr generalizing n with
  | nil s => exact ⟨0, Nat.zero_le _, hs⟩
  | cons h _ ih =>
      rw [List.countP_cons]
      rcases hstep _ _ _ _ hs h with hI | ⟨hc, hI⟩
      · obtain ⟨k, hk, ht⟩ := ih hI
        exact ⟨k, by omega, ht⟩
      · obtain ⟨k, hk, ht⟩ := ih hI
        refine ⟨k + 1, by rw [if_pos hc]; omega, ?_⟩
        rwa [Nat.add_assoc, Nat.add_comm 1 k] at ht

theorem Run.append {s t u : S} {ls ls' : List L} (h : Run step s ls t)
    (h' : Run step t ls' u) : Run step s (ls ++ ls') u := by
  induction h with
  | nil s => exact h'
  | cons hl _ ih => exact .cons hl (ih h')

theorem Run.iff_foldlM {move : S → L → Option S} {s t : S} {ls : List L} :
    Run (fun s l t => move s l = some t) s ls t ↔ ls.foldlM move s = some t := by
  induction ls generalizing s with
  | nil =>
      constructor
      · rintro ⟨⟩
        rfl
      · intro h
        obtain rfl := Option.some.inj h
        exact .nil s
  | cons l ls ih =>
      rw [List.foldlM_cons]
      constructor
      · rintro (_ | ⟨h, hs⟩)
        rw [h]
        exact ih.mp hs
      · intro h
        obtain ⟨u, hu, hs⟩ := Option.bind_eq_some_iff.mp h
        exact .cons hu (ih.mpr hs)

/-- **The simulation rule**: a relation that every step preserves against a
deterministic reference machine holds at the end of every run. -/
theorem Run.simulation {R : S → T → Prop} {spec : T → L → T}
    (hstep : ∀ s l s' t, R s t → step s l s' → R s' (spec t l))
    {s s' : S} {ls : List L} (hr : Run step s ls s') {t : T} (hs : R s t) :
    R s' (ls.foldl spec t) := by
  induction hr generalizing t with
  | nil s => exact hs
  | cons h _ ih => exact ih (hstep _ _ _ _ hs h)

/-- **The loop rule**: what each round of a `for` loop that may stop with an error
preserves holds when the loop has run through. -/
theorem foldlM_range_ok {E : Type*} {f : S → Nat → Except E S} {P : Nat → S → Prop} (n : Nat)
    (hstep : ∀ i s t, i < n → P i s → f s i = .ok t → P (i + 1) t) {s t : S} (h₀ : P 0 s)
    (hok : (List.range n).foldlM f s = .ok t) : P n t := by
  induction n generalizing t with
  | zero =>
      obtain rfl := Except.ok.inj hok
      exact h₀
  | succ n ih =>
      rw [List.range_succ, List.foldlM_append] at hok
      cases hrun : (List.range n).foldlM f s with
      | error e =>
          rw [hrun] at hok
          cases hok
      | ok u =>
          rw [hrun] at hok
          have hu := ih (fun i s t hi => hstep i s t (by omega)) hrun
          have hlast : f u n = .ok t := by
            change (List.foldlM f u [n]) = .ok t at hok
            rw [List.foldlM_cons] at hok
            cases hf : f u n with
            | error e =>
                rw [hf] at hok
                cases hok
            | ok v =>
                rw [hf] at hok
                exact hok
          exact hstep n u t (by omega) hu hlast

theorem ok_of_bind {E A B : Type*} {e : Except E A} {g : A → Option B} {b : B}
    (h : e.toOption.bind g = some b) : ∃ a, e = .ok a ∧ g a = some b := by
  cases e with
  | error e => cases h
  | ok a => exact ⟨a, rfl, h⟩

/-- **The variant rule**: when every step out of an `I`-state lowers the measure
`m`, a run is no longer than what it lowers `m` by. -/
theorem Run.length_le (m : S → Nat)
    (hstep : ∀ s l t, I s → step s l t → I t ∧ m t < m s)
    {s t : S} {ls : List L} (hr : Run step s ls t) (hs : I s) :
    ls.length + m t ≤ m s := by
  induction hr with
  | nil s => exact Nat.le_of_eq (Nat.zero_add (m s))
  | cons h _ ih =>
      obtain ⟨hI, hlt⟩ := hstep _ _ _ hs h
      have hrest := ih hI
      rw [List.length_cons]
      omega

/-- A machine that never gets stuck in an `I`-state and stays there runs any
labels. -/
theorem Run.exists_of_total (hstep : ∀ s l, I s → ∃ t, step s l t ∧ I t) :
    ∀ (ls : List L) {s : S}, I s → ∃ t, Run step s ls t ∧ I t
  | [], s, hs => ⟨s, .nil s, hs⟩
  | l :: ls, s, hs => by
      obtain ⟨t, ht, hIt⟩ := hstep s l hs
      obtain ⟨u, hu, hIu⟩ := Run.exists_of_total hstep ls hIt
      exact ⟨u, .cons ht hu, hIu⟩

theorem Always.head {s : S} {ls : List L} (h : Always step P s ls) : P s := by
  cases ls with
  | nil => exact h
  | cons l ls => exact h.1

theorem Always.last {s t : S} {ls : List L} (h : Always step P s ls)
    (hr : Run step s ls t) : P t := by
  induction hr with
  | nil s => exact h
  | cons hl _ ih => exact ih (h.2 _ hl)

theorem Always.imp {P' : S → Prop} (himp : ∀ s, P s → P' s) :
    ∀ {ls : List L} {s : S}, Always step P s ls → Always step P' s ls
  | [], _, h => himp _ h
  | _ :: _, _, h => ⟨himp _ h.1, fun t ht => Always.imp himp (h.2 t ht)⟩

theorem each_of_forall {C : L → Prop} :
    ∀ {ls : List L} {s : S}, (∀ l ∈ ls, C l) → Each step (fun _ l => C l) s ls
  | [], _, _ => trivial
  | _ :: _, _, h =>
      ⟨h _ List.mem_cons_self, fun _ _ =>
        each_of_forall (fun l hl => h l (List.mem_cons_of_mem _ hl))⟩

/-- **The guarded invariant rule**: if a step that meets `Q` keeps `I`, then
along a run whose steps all meet `Q` every state satisfies `I`. -/
theorem always_of_each (hstep : ∀ s l t, I s → Q s l → step s l t → I t) :
    ∀ {ls : List L} {s : S}, I s → Each step Q s ls → Always step I s ls
  | [], _, hs, _ => hs
  | _ :: _, _, hs, h =>
      ⟨hs, fun t ht => always_of_each hstep (hstep _ _ t hs h.1 ht) (h.2 t ht)⟩

/-- Along a run whose steps all meet `Q`, every step meets whatever `Q` and
the invariant give. -/
theorem each_of_each (hstep : ∀ s l t, I s → Q s l → step s l t → I t)
    (hQ : ∀ s l, I s → Q s l → Q' s l) :
    ∀ {ls : List L} {s : S}, I s → Each step Q s ls → Each step Q' s ls
  | [], _, _, _ => trivial
  | _ :: _, _, hs, h =>
      ⟨hQ _ _ hs h.1, fun t ht =>
        each_of_each hstep hQ (hstep _ _ t hs h.1 ht) (h.2 t ht)⟩

/-- **The exact form of the guarded rule**: when a step out of an `I`-state
reaches an `I`-state exactly when it meets `Q`, a run stays inside `I` exactly
when all its steps meet `Q`. Labels without a successor must meet `Q`; `J` is
an invariant of the machine the argument may use. -/
theorem always_iff_each {J : S → Prop}
    (hJ : ∀ s l t, J s → step s l t → J t)
    (hstuck : ∀ s l, J s → I s → (∀ t, ¬ step s l t) → Q s l)
    (hstep : ∀ s l t, J s → I s → step s l t → (I t ↔ Q s l)) :
    ∀ {ls : List L} {s : S}, J s → I s →
      (Always step I s ls ↔ Each step Q s ls)
  | [], _, _, hs => ⟨fun _ => trivial, fun _ => hs⟩
  | l :: ls, s, hj, hs => by
      constructor
      · rintro ⟨-, h⟩
        refine ⟨?_, fun t ht => ?_⟩
        · by_cases hex : ∃ t, step s l t
          · obtain ⟨t, ht⟩ := hex
            exact (hstep s l t hj hs ht).mp (h t ht).head
          · exact hstuck s l hj hs (fun t ht => hex ⟨t, ht⟩)
        · exact (always_iff_each hJ hstuck hstep (hJ s l t hj ht)
            (h t ht).head).mp (h t ht)
      · rintro ⟨hQ, h⟩
        refine ⟨hs, fun t ht => ?_⟩
        have hIt : I t := (hstep s l t hj hs ht).mpr hQ
        exact (always_iff_each hJ hstuck hstep (hJ s l t hj ht) hIt).mpr (h t ht)

end Rules

end Xv6Labs.Lib
