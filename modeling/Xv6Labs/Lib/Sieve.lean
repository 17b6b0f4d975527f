import Mathlib.Data.Nat.Prime.Basic
import Mathlib.Data.List.Sort

/-!
# The sieve of repeated filters

`sieve` keeps the head of a list and filters its multiples out of the tail, again
and again. On a strictly increasing list that is closed under divisors it keeps
exactly the primes; all numbers from 2 to a bound are such a list.
-/

namespace Xv6Labs.Lib

def sift (p : Nat) (xs : List Nat) : List Nat := xs.filter (fun n => n % p ≠ 0)

@[simp] theorem sift_nil (p : Nat) : sift p [] = [] := rfl

theorem sift_cons_of_dvd {p n : Nat} (xs : List Nat) (h : n % p = 0) :
    sift p (n :: xs) = sift p xs := by
  unfold sift
  rw [List.filter_cons_of_neg (by simp [h])]

theorem sift_cons_of_not_dvd {p n : Nat} (xs : List Nat) (h : n % p ≠ 0) :
    sift p (n :: xs) = n :: sift p xs := by
  unfold sift
  rw [List.filter_cons_of_pos (by simp [h])]

def sieve : List Nat → List Nat
  | [] => []
  | p :: xs => p :: sieve (sift p xs)
termination_by xs => xs.length
decreasing_by exact Nat.lt_succ_of_le (List.length_filter_le _ _)

@[simp] theorem sieve_nil : sieve [] = [] := by
  rw [sieve]

theorem sieve_cons (p : Nat) (xs : List Nat) : sieve (p :: xs) = p :: sieve (sift p xs) := by
  rw [sieve]

/-- Strictly increasing, from 2 on, and with every divisor of every member. -/
structure Sievable (xs : List Nat) : Prop where
  sorted : xs.Pairwise (· < ·)
  two_le : ∀ n ∈ xs, 2 ≤ n
  divisors : ∀ n ∈ xs, ∀ d, 2 ≤ d → d ∣ n → d ∈ xs

variable {p : Nat} {xs : List Nat}

theorem mem_sift {n : Nat} : n ∈ sift p xs ↔ n ∈ xs ∧ ¬ p ∣ n := by
  unfold sift
  rw [List.mem_filter, decide_eq_true_eq, Nat.dvd_iff_mod_eq_zero, ne_eq]

/-- The head is prime: a proper divisor would come before it. -/
theorem Sievable.head_prime (h : Sievable (p :: xs)) : p.Prime := by
  rw [Nat.prime_def]
  refine ⟨h.two_le p List.mem_cons_self, fun d hd => ?_⟩
  rcases Nat.lt_or_ge d 2 with hlt | hge
  · have hpos : 0 < d := Nat.pos_of_dvd_of_pos hd
      (Nat.lt_of_lt_of_le Nat.two_pos (h.two_le p List.mem_cons_self))
    exact .inl (by omega)
  · right
    rcases List.mem_cons.mp (h.divisors p List.mem_cons_self d hge hd) with heq | hin
    · exact heq
    · have hlt := List.rel_of_pairwise_cons h.sorted hin
      have hle := Nat.le_of_dvd (Nat.lt_of_lt_of_le Nat.two_pos
        (h.two_le p List.mem_cons_self)) hd
      omega

theorem Sievable.sift (h : Sievable (p :: xs)) : Sievable (sift p xs) := by
  refine ⟨(h.sorted.of_cons).filter _, fun n hn => ?_, fun n hn d hd hdvd => ?_⟩
  · exact h.two_le n (List.mem_cons_of_mem _ (mem_sift.mp hn).1)
  · obtain ⟨hin, hnot⟩ := mem_sift.mp hn
    have hpd : ¬ p ∣ d := fun hh => hnot (hh.trans hdvd)
    refine mem_sift.mpr ⟨?_, hpd⟩
    rcases List.mem_cons.mp (h.divisors n (List.mem_cons_of_mem _ hin) d hd hdvd) with
      rfl | hin'
    · exact absurd (Nat.dvd_refl d) hpd
    · exact hin'

theorem Sievable.primes_sift (h : Sievable (p :: xs)) :
    (Lib.sift p xs).filter (fun n => n.Prime) = xs.filter (fun n => n.Prime) := by
  unfold Lib.sift
  rw [List.filter_filter]
  refine List.filter_congr (fun n hn => ?_)
  have hlt := List.rel_of_pairwise_cons h.sorted hn
  by_cases hprime : n.Prime
  · have hmod : n % p ≠ 0 := by
      intro hz
      rcases (Nat.dvd_prime hprime).mp (Nat.dvd_of_mod_eq_zero hz) with hone | heq
      · exact h.head_prime.one_lt.ne' hone
      · omega
    simp [hprime, hmod]
  · simp [hprime]

/-- **The sieve keeps exactly the primes.** -/
theorem sieve_eq_primes : ∀ {xs : List Nat}, Sievable xs →
    sieve xs = xs.filter (fun n => n.Prime)
  | [], _ => by simp
  | p :: xs, h => by
      rw [sieve_cons, sieve_eq_primes h.sift, h.primes_sift, List.filter_cons_of_pos]
      exact decide_eq_true h.head_prime
termination_by xs => xs.length
decreasing_by exact Nat.lt_succ_of_le (List.length_filter_le _ _)

def upTo (a b : Nat) : List Nat := List.range' a (b + 1 - a)

theorem upTo_of_le {a b : Nat} (h : a ≤ b) : upTo a b = a :: upTo (a + 1) b := by
  unfold upTo
  rw [show b + 1 - a = (b + 1 - (a + 1)) + 1 by omega, List.range'_succ]

theorem upTo_of_lt {a b : Nat} (h : b < a) : upTo a b = [] := by
  unfold upTo
  rw [show b + 1 - a = 0 by omega, List.range'_zero]

theorem mem_upTo {a b n : Nat} : n ∈ upTo a b ↔ a ≤ n ∧ n ≤ b := by
  unfold upTo
  rw [List.mem_range'_1]
  omega

theorem sievable_upTo (b : Nat) : Sievable (upTo 2 b) := by
  refine ⟨List.pairwise_lt_range', fun n hn => (mem_upTo.mp hn).1, fun n hn d hd hdvd => ?_⟩
  obtain ⟨hlo, hhi⟩ := mem_upTo.mp hn
  have hle := Nat.le_of_dvd (by omega) hdvd
  exact mem_upTo.mpr ⟨hd, by omega⟩

end Xv6Labs.Lib
