import DarkSilk.Decoder
import DarkSilk.LucasTest
import Mathlib.GroupTheory.OrderOfElement
import Mathlib.Data.ZMod.Basic

/-! Stealth payments. The sender derives a one-time key from the keys of an address, the
receiver finds the same key and the secret that belongs to it. The curve is a group with a
generator of prime order, and points and numbers travel as big-endian bytes. -/
namespace DarkSilk

open PrefixCode List Option

def bin2bn (l : List UInt8) : ℕ := leValue l.reverse
def numBytes (n : ℕ) : ℕ := (n.size+7)/8
def bn2bin (n : ℕ) : List UInt8 := (leBytes (numBytes n) n).reverse

variable {n k : ℕ}

theorem numBytes_le_iff : numBytes n ≤ k ↔ n < 256^k := by
  have hpow : 256^k = 2^(8*k) := by norm_num [pow_mul]
  rw [hpow,← Nat.size_le,numBytes]
  omega

theorem numBytes_eq_succ_iff : numBytes n = k+1 ↔ 256^k ≤ n ∧ n < 256^(k+1) := by
  rw [← not_lt,← numBytes_le_iff,← numBytes_le_iff]
  omega

@[simp] theorem length_bn2bin (n) : (bn2bin n).length = numBytes n := by
  rw [bn2bin,length_reverse,length_leBytes]

@[simp] theorem bin2bn_bn2bin (n) : bin2bn (bn2bin n) = n := by
  rw [bin2bn,bn2bin,reverse_reverse]
  exact leValue_leBytes (numBytes_le_iff.mp le_rfl)

open LucasTest

def secp256k1Order : ℕ := 0xFFFFFFFFFFFFFFFFFFFFFFFFFFFFFFFEBAAEDCE6AF48A03BBFD25E8CD0364141

theorem lucas_chain : lucas 57 107361793816595537 3 [2,16699,85831,4681609] ∧
    lucas 68 174723607534414371449 3 [2,17,59,4051,120233,44706919] ∧
    lucas 30 545358713 5 [2,41,59,28181] ∧
    lucas 39 297159362677 2 [2,3,11,461,1627771] ∧
    lucas 95 29047611873442575647497758179 2 [2,293,305873,545358713,297159362677] ∧
    lucas 109 341948486974166000522343609283189 2 [2,3,109,29047611873442575647497758179] ∧
    lucas 256 secp256k1Order 7 [2,3,149,631,107361793816595537,174723607534414371449,
      341948486974166000522343609283189] := by decide +kernel

theorem prime_107361793816595537 : Nat.Prime 107361793816595537 := by
  apply prime_of_lucas 57 3 [2,16699,85831,4681609]
  · simp only [forall_mem_cons]
    exact ⟨by norm_num,by norm_num,by norm_num,by norm_num,by simp⟩
  · exact lucas_chain.1

theorem prime_174723607534414371449 : Nat.Prime 174723607534414371449 := by
  apply prime_of_lucas 68 3 [2,17,59,4051,120233,44706919]
  · simp only [forall_mem_cons]
    exact ⟨by norm_num,by norm_num,by norm_num,by norm_num,by norm_num,by norm_num,by simp⟩
  · exact lucas_chain.2.1

theorem prime_545358713 : Nat.Prime 545358713 := by
  apply prime_of_lucas 30 5 [2,41,59,28181]
  · simp only [forall_mem_cons]
    exact ⟨by norm_num,by norm_num,by norm_num,by norm_num,by simp⟩
  · exact lucas_chain.2.2.1

theorem prime_297159362677 : Nat.Prime 297159362677 := by
  apply prime_of_lucas 39 2 [2,3,11,461,1627771]
  · simp only [forall_mem_cons]
    exact ⟨by norm_num,by norm_num,by norm_num,by norm_num,by norm_num,by simp⟩
  · exact lucas_chain.2.2.2.1

theorem prime_29047611873442575647497758179 : Nat.Prime 29047611873442575647497758179 := by
  apply prime_of_lucas 95 2 [2,293,305873,545358713,297159362677]
  · simp only [forall_mem_cons]
    exact ⟨by norm_num,by norm_num,by norm_num,prime_545358713,prime_297159362677,by simp⟩
  · exact lucas_chain.2.2.2.2.1

theorem prime_341948486974166000522343609283189 : Nat.Prime 341948486974166000522343609283189 := by
  apply prime_of_lucas 109 2 [2,3,109,29047611873442575647497758179]
  · simp only [forall_mem_cons]
    exact ⟨by norm_num,by norm_num,by norm_num,prime_29047611873442575647497758179,by simp⟩
  · exact lucas_chain.2.2.2.2.2.1

theorem prime_secp256k1Order : Nat.Prime secp256k1Order := by
  apply prime_of_lucas 256 7 [2,3,149,631,107361793816595537,174723607534414371449,
    341948486974166000522343609283189]
  · simp only [forall_mem_cons]
    exact ⟨by norm_num,by norm_num,by norm_num,by norm_num,prime_107361793816595537,prime_174723607534414371449,prime_341948486974166000522343609283189,by simp⟩
  · exact lucas_chain.2.2.2.2.2.2

def ec_secret_size : ℕ := 32
def ec_compressed_size : ℕ := 33

@[ext]
structure EcSecret where
  e : List UInt8
  length_eq : e.length = ec_secret_size

def EcSecret.toBn (secret : EcSecret) : ℕ := bin2bn secret.e

/-- What the library says of the curve: a group, a generator of the known order, and the
compressed points as numbers, which begin with a byte 2 or 3. -/
structure Secp256k1 where
  Point : Type
  [group : AddCommGroup Point]
  generator : Point
  addOrderOf_generator : addOrderOf generator = secp256k1Order
  point2bn : Point → ℕ
  bn2point : ℕ → Option Point
  point2bn_zero : point2bn 0 = 0
  point2bn_mem : ∀ Q ≠ 0, 2*256^32 ≤ point2bn Q ∧ point2bn Q < 4*256^32
  bn2point_point2bn : ∀ Q ≠ 0, bn2point (point2bn Q) = some Q

attribute [instance] Secp256k1.group

variable (C : Secp256k1) (sha256 : List UInt8 → EcSecret)

/-- A point as 33 bytes. Only the point at infinity has another length. -/
def Secp256k1.compressed (Q : C.Point) : Option (List UInt8) :=
  if numBytes (C.point2bn Q) ≠ ec_compressed_size then none else some (bn2bin (C.point2bn Q))

def secretToPublicKey (secret : EcSecret) : Option (List UInt8) :=
  C.compressed (secret.toBn • C.generator)

/-- The hash of the common point, from one secret and the other public key. -/
def sharedSecret (secret : EcSecret) (pubkey : List UInt8) : Option EcSecret := do
  let Q ← C.bn2point (bin2bn pubkey)
  let vchOutQ ← C.compressed (secret.toBn • Q)
  return sha256 vchOutQ

def stealthSecret (secret : EcSecret) (pubkey pkSpend : List UInt8) :
    Option (EcSecret × List UInt8) := do
  let sharedSOut ← sharedSecret C sha256 secret pubkey
  let R ← C.bn2point (bin2bn pkSpend)
  let pkOut ← C.compressed (R+sharedSOut.toBn • C.generator)
  return (sharedSOut,pkOut)

/-- The sum modulo the order is taken only if it fills all the bytes of a secret. -/
def stealthSharedToSecretSpend (sharedS spendSecret : EcSecret) : Option EcSecret :=
  let bnSpend := (spendSecret.toBn+sharedS.toBn)%secp256k1Order
  if bnSpend = 0 then none
  else if h : numBytes bnSpend = ec_secret_size then some ⟨bn2bin bnSpend,(length_bn2bin bnSpend).trans h⟩
  else none

def stealthSecretSpend (scanSecret : EcSecret) (ephemPubkey : List UInt8) (spendSecret : EcSecret) :
    Option EcSecret := do
  let c ← sharedSecret C sha256 scanSecret ephemPubkey
  stealthSharedToSecretSpend c spendSecret

variable {C} {sha256} {Q : C.Point} {e d f : EcSecret}

def EcSecret.Valid (secret : EcSecret) : Prop := 0 < secret.toBn ∧ secret.toBn < secp256k1Order

def Secp256k1.encode (C : Secp256k1) (Q : C.Point) : List UInt8 := bn2bin (C.point2bn Q)

theorem compressed_eq (hQ : Q ≠ 0) : C.compressed Q = some (C.encode Q) := by
  obtain ⟨hlo,hhi⟩ := C.point2bn_mem Q hQ
  have hlen : numBytes (C.point2bn Q) = ec_compressed_size := numBytes_eq_succ_iff.mpr (by omega)
  rw [Secp256k1.compressed,if_neg (not_not.mpr hlen)]
  rfl

theorem bn2point_encode (hQ : Q ≠ 0) : C.bn2point (bin2bn (C.encode Q)) = some Q := by
  rw [Secp256k1.encode,bin2bn_bn2bin]
  exact C.bn2point_point2bn Q hQ

theorem nsmul_generator_eq_zero_iff : k • C.generator = 0 ↔ secp256k1Order ∣ k := by
  rw [← C.addOrderOf_generator]
  exact addOrderOf_dvd_iff_nsmul_eq_zero.symm

theorem mod_nsmul_generator (k) : (k%secp256k1Order) • C.generator = k • C.generator := by
  rw [← C.addOrderOf_generator,mod_addOrderOf_nsmul]

theorem EcSecret.Valid.not_dvd (he : e.Valid) : ¬ secp256k1Order ∣ e.toBn :=
  Nat.not_dvd_of_pos_of_lt he.1 he.2

theorem EcSecret.Valid.nsmul_ne_zero (he : e.Valid) : e.toBn • C.generator ≠ 0 :=
  fun h => he.not_dvd (nsmul_generator_eq_zero_iff.mp h)

/-- The common point is a point, because the order is a prime. -/
theorem common_ne_zero (he : e.Valid) (hd : d.Valid) : (e.toBn*d.toBn) • C.generator ≠ 0 := by
  intro h
  rcases (Nat.Prime.dvd_mul prime_secp256k1Order).mp (nsmul_generator_eq_zero_iff.mp h) with h | h
  · exact he.not_dvd h
  · exact hd.not_dvd h

theorem secretToPublicKey_eq (he : e.Valid) :
    secretToPublicKey C e = some (C.encode (e.toBn • C.generator)) := compressed_eq he.nsmul_ne_zero

def commonHash (C : Secp256k1) (sha256 : List UInt8 → EcSecret) (e d : EcSecret) : EcSecret :=
  sha256 (C.encode ((e.toBn*d.toBn) • C.generator))

theorem commonHash_comm : commonHash C sha256 e d = commonHash C sha256 d e := by
  rw [commonHash,commonHash,Nat.mul_comm]

theorem sharedSecret_eq (he : e.Valid) (hd : d.Valid) :
    sharedSecret C sha256 e (C.encode (d.toBn • C.generator)) = some (commonHash C sha256 e d) := by
  have hmul : e.toBn • d.toBn • C.generator = (e.toBn*d.toBn) • C.generator := (mul_nsmul' _ _ _).symm
  simp only [sharedSecret,bn2point_encode hd.nsmul_ne_zero,hmul,compressed_eq (common_ne_zero he hd),
    bind_eq_bind,bind_some]
  rfl

theorem stealthSecret_eq (he : e.Valid) (hd : d.Valid) (hf : f.Valid) :
    stealthSecret C sha256 e (C.encode (d.toBn • C.generator)) (C.encode (f.toBn • C.generator)) =
      (C.compressed ((f.toBn+(commonHash C sha256 e d).toBn) • C.generator)).map
        fun pkOut => (commonHash C sha256 e d,pkOut) := by
  simp only [stealthSecret,sharedSecret_eq he hd,bn2point_encode hf.nsmul_ne_zero,bind_eq_bind,bind_some,
    ← add_nsmul]
  cases C.compressed ((f.toBn+(commonHash C sha256 e d).toBn) • C.generator) <;> rfl

theorem stealthSecretSpend_eq (hd : d.Valid) (he : e.Valid) :
    stealthSecretSpend C sha256 d (C.encode (e.toBn • C.generator)) f =
      stealthSharedToSecretSpend (commonHash C sha256 e d) f := by
  simp only [stealthSecretSpend,sharedSecret_eq hd he,bind_eq_bind,bind_some, commonHash_comm (e := e)]

theorem stealthSharedToSecretSpend_eq_some_iff {sharedS s} :
    stealthSharedToSecretSpend sharedS f = some s ↔
    256^31 ≤ (f.toBn+sharedS.toBn)%secp256k1Order ∧
      s.e = bn2bin ((f.toBn+sharedS.toBn)%secp256k1Order) := by
  have hlt : (f.toBn+sharedS.toBn)%secp256k1Order < 256^32 := (Nat.mod_lt _ (by decide)).trans (by decide)
  have hlen : numBytes ((f.toBn+sharedS.toBn)%secp256k1Order) = ec_secret_size ↔
      256^31 ≤ (f.toBn+sharedS.toBn)%secp256k1Order := by
    rw [ec_secret_size,numBytes_eq_succ_iff]
    exact and_iff_left hlt
  unfold stealthSharedToSecretSpend
  dsimp only
  split_ifs with hzero hfull
  · simp [hzero]
  · rw [some.injEq,EcSecret.ext_iff,and_iff_right (hlen.mp hfull)]
    exact eq_comm
  · exact ⟨nofun,fun h => absurd (hlen.mpr h.1) hfull⟩

/-- A payment with these ephemeral, scan and spend secrets can be spent: both sides come to
the same key, and both ways to its secret lead to one that belongs to it. -/
def StealthSpendable (C : Secp256k1) (sha256 : List UInt8 → EcSecret) (e d f : EcSecret) : Prop :=
  ∃ P Q R, secretToPublicKey C e = some P ∧ secretToPublicKey C d = some Q ∧ secretToPublicKey C f = some R ∧
    stealthSecret C sha256 e Q R = stealthSecret C sha256 d P R ∧
    ((f.toBn+(commonHash C sha256 e d).toBn)%secp256k1Order ≠ 0 → ∃ sharedS pk s,
      stealthSecret C sha256 d P R = some (sharedS,pk) ∧ stealthSecretSpend C sha256 d P f = some s ∧
        stealthSharedToSecretSpend sharedS f = some s ∧ secretToPublicKey C s = some pk)

/-- Both sides agree on the key, and the receiver has its secret unless the sum of the spend
secret and the hash has a leading zero byte. -/
theorem stealth_spendable_iff (C : Secp256k1) (sha256 : List UInt8 → EcSecret) {e d f : EcSecret}
    (he : e.Valid) (hd : d.Valid) (hf : f.Valid) :
    stealthSecret C sha256 e (C.encode (d.toBn • C.generator)) (C.encode (f.toBn • C.generator)) =
      stealthSecret C sha256 d (C.encode (e.toBn • C.generator)) (C.encode (f.toBn • C.generator)) ∧
    (StealthSpendable C sha256 e d f ↔ (f.toBn+(commonHash C sha256 e d).toBn)%secp256k1Order = 0 ∨
      256^31 ≤ (f.toBn+(commonHash C sha256 e d).toBn)%secp256k1Order) := by
  have hagree : stealthSecret C sha256 e (C.encode (d.toBn • C.generator)) (C.encode (f.toBn • C.generator)) =
      stealthSecret C sha256 d (C.encode (e.toBn • C.generator)) (C.encode (f.toBn • C.generator)) := by
    rw [stealthSecret_eq he hd hf,stealthSecret_eq hd he hf,commonHash_comm]
  refine ⟨hagree,?_,?_⟩
  · rintro ⟨P,Q,R,hP,-,-,-,hspend⟩
    rw [secretToPublicKey_eq he] at hP
    cases hP
    by_cases hzero : (f.toBn+(commonHash C sha256 e d).toBn)%secp256k1Order = 0
    · exact .inl hzero
    · obtain ⟨_,_,s,-,hs,-,-⟩ := hspend hzero
      rw [stealthSecretSpend_eq hd he] at hs
      exact .inr (stealthSharedToSecretSpend_eq_some_iff.mp hs).1
  · intro hcond
    refine ⟨_,_,_,secretToPublicKey_eq he,secretToPublicKey_eq hd,secretToPublicKey_eq hf,hagree,fun hzero => ?_⟩
    have hfull := hcond.resolve_left hzero
    have hne : (f.toBn+(commonHash C sha256 e d).toBn) • C.generator ≠ 0 := by
      rw [Ne,nsmul_generator_eq_zero_iff]
      exact fun h => hzero (Nat.mod_eq_zero_of_dvd h)
    have hlen : (bn2bin ((f.toBn+(commonHash C sha256 e d).toBn)%secp256k1Order)).length = ec_secret_size := by
      rw [length_bn2bin,ec_secret_size,numBytes_eq_succ_iff]
      exact ⟨hfull,(Nat.mod_lt _ (by decide)).trans (by decide)⟩
    obtain ⟨s,hs⟩ : ∃ s : EcSecret, s.e = bn2bin ((f.toBn+(commonHash C sha256 e d).toBn)%secp256k1Order) :=
      ⟨⟨_,hlen⟩,rfl⟩
    have hspend := stealthSharedToSecretSpend_eq_some_iff.mpr ⟨hfull,hs⟩
    refine ⟨commonHash C sha256 e d,
      C.encode ((f.toBn+(commonHash C sha256 e d).toBn) • C.generator),s,?_,?_,hspend,?_⟩
    · rw [← hagree,stealthSecret_eq he hd hf,compressed_eq hne]
      rfl
    · rw [stealthSecretSpend_eq hd he]
      exact hspend
    · rw [secretToPublicKey,EcSecret.toBn,hs,bin2bn_bn2bin,mod_nsmul_generator,compressed_eq hne]

/-! The integers modulo the order as the curve, and a hash that does not depend on the point. -/
namespace Sample

instance : NeZero secp256k1Order := ⟨by decide⟩

def curve : Secp256k1 where
  Point := ZMod secp256k1Order
  generator := 1
  addOrderOf_generator := ZMod.addOrderOf_one secp256k1Order
  point2bn := fun Q => if Q = 0 then 0 else 2*256^32+Q.val
  bn2point := fun n => if 2*256^32 ≤ n then some ((n-2*256^32 : ℕ) : ZMod secp256k1Order) else none
  point2bn_zero := if_pos rfl
  point2bn_mem := fun Q hQ => by
    have hval : Q.val < 256^32 := (ZMod.val_lt Q).trans (by decide)
    rw [if_neg hQ]
    omega
  bn2point_point2bn := fun Q hQ => by
    rw [if_neg hQ,if_pos (by omega),Nat.add_sub_cancel_left,ZMod.natCast_zmod_val]

/-- A secret with some first byte. -/
def secret (b : UInt8) : EcSecret := ⟨b::List.replicate 31 0,rfl⟩

/-- The hash that a spend secret with first byte 128 adds up with to a number of 31 bytes. -/
def shortHash : EcSecret := ⟨bn2bin (secp256k1Order-128*256^31+256^30),by decide +kernel⟩

theorem secret_valid : (secret 1).Valid ∧ (secret 2).Valid ∧ (secret 128).Valid := by
  unfold EcSecret.Valid
  decide +kernel

end Sample

open Sample

theorem stealth_spendable_iff_large : StealthSpendable curve (fun _ => secret 1) (secret 1)
    (secret 2) (secret 128) :=
  (stealth_spendable_iff curve (fun _ => secret 1) secret_valid.1 secret_valid.2.1
    secret_valid.2.2).2.mpr (.inr (by decide +kernel))

/-- The sum is 256^30, and the receiver cannot spend the payment. -/
theorem stealth_unspendable : (secret 1).Valid ∧ (secret 2).Valid ∧ (secret 128).Valid ∧
    ¬ StealthSpendable curve (fun _ => shortHash) (secret 1) (secret 2) (secret 128) := by
  refine ⟨secret_valid.1,secret_valid.2.1,secret_valid.2.2,?_⟩
  rintro ⟨P,Q,R,hP,-,-,-,hspend⟩
  rw [secretToPublicKey_eq secret_valid.1] at hP
  obtain rfl := some.inj hP
  have hsum : ((secret 128).toBn+shortHash.toBn)%secp256k1Order = 256^30 := by decide +kernel
  obtain ⟨_,_,s,-,hs,-,-⟩ := hspend (by rw [commonHash,hsum]; decide)
  rw [stealthSecretSpend_eq secret_valid.2.1 secret_valid.1,
    stealthSharedToSecretSpend_eq_some_iff,commonHash,hsum] at hs
  exact absurd hs.1 (by decide)

end DarkSilk
