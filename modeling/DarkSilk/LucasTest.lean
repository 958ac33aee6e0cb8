import Mathlib.NumberTheory.LucasPrimality
import Mathlib.Tactic.NormNum.Prime

/-! Large primes by the test of Lucas: a number whose predecessor has only known prime
factors is prime if some power of full order exists modulo it. The test is evaluated. -/
namespace DarkSilk
namespace LucasTest

/-- A power modulo `p`, with an exponent of at most so many binary digits. -/
def powMod (p : ℕ) : ℕ → ℕ → ℕ → ℕ
  | 0, _, _ => 1%p
  | k+1, a, n => if n%2 = 1 then a*powMod p k (a*a%p) (n/2)%p else powMod p k (a*a%p) (n/2)

theorem powMod_eq {p k n} (hn : n < 2^k) (a) : powMod p k a n = a^n%p := by
  induction k generalizing a n with
  | zero =>
    obtain rfl : n = 0 := by simpa using hn
    rw [powMod,pow_zero]
  | succ k ih =>
    have hhalf : n/2 < 2^k := by
      rw [pow_succ] at hn
      omega
    have hsq : powMod p k (a*a%p) (n/2) = a^(2*(n/2))%p := by
      rw [ih hhalf,← Nat.pow_mod,pow_mul,sq]
    rw [powMod,hsq]
    split_ifs with hodd
    · have hexp : a^n = a*a^(2*(n/2)) := by
        rw [← pow_succ']
        congr 1
        omega
      rw [hexp,Nat.mul_mod_mod]
    · congr 2
      omega

/-- `a` has full order modulo `p`, where all prime factors of the predecessor are listed. -/
def lucas (k p a : ℕ) (fs : List ℕ) : Bool :=
  1 < p && p ≤ 2^k && fs.prod^k%(p-1) = 0 && powMod p k a (p-1) = 1 && fs.all fun q => powMod p k a ((p-1)/q) ≠ 1

theorem natCast_pow_eq_one_iff {p} (hp : 1 < p) (a n : ℕ) : (a : ZMod p)^n = 1 ↔ a^n%p = 1 := by
  rw [← Nat.cast_pow,← Nat.cast_one,ZMod.natCast_eq_natCast_iff',Nat.mod_eq_of_lt hp]

theorem prime_of_lucas (k a fs) {p} (hfs : ∀ q ∈ fs, q.Prime) (h : lucas k p a fs) : p.Prime := by
  simp only [lucas,Bool.and_eq_true,decide_eq_true_eq,List.all_eq_true] at h
  obtain ⟨⟨⟨⟨hp,hk⟩,hdvd⟩,hfull⟩,hpart⟩ := h
  have hlt : ∀ n ≤ p-1, n < 2^k := fun n hn => by omega
  apply lucas_primality p (a : ZMod p)
  · rw [natCast_pow_eq_one_iff hp,← powMod_eq (hlt _ le_rfl)]
    exact hfull
  · intro q hq hqp
    -- a prime factor of the predecessor divides the product of the list, so it is in it
    have hprod : q ∣ fs.prod := hq.dvd_of_dvd_pow (hqp.trans (Nat.dvd_of_mod_eq_zero hdvd))
    obtain ⟨r,hr,hqr⟩ := (Prime.dvd_prod_iff hq.prime).mp hprod
    obtain rfl := (Nat.prime_dvd_prime_iff_eq hq (hfs r hr)).mp hqr
    rw [Ne,natCast_pow_eq_one_iff hp,← powMod_eq (hlt _ (Nat.div_le_self _ _))]
    exact hpart q hr

end LucasTest
end DarkSilk
