import DarkSilk.Script

/-! The numbers of scripts, in the two representations of the source: the big numbers of
OpenSSL, taken as exact integers, and a 64-bit integer with its own reading and writing of
bytes. On operands of up to four bytes the two agree. -/

namespace DarkSilk

open PrefixCode List

namespace Script

def INT_MAX : ℤ := 2147483647
def INT_MIN : ℤ := -2147483648

namespace CBigNum

/-- The bytes are a magnitude, lowest first, with the sign in the highest bit. -/
def setvch (vch : List UInt8) : ℤ :=
  match vch.getLast? with
  | none => 0
  | some top => if 0x80 ≤ top then -leValue (vch.dropLast++[top-0x80]) else leValue vch

/-- Out of range numbers become the largest or the smallest one. -/
def getint (n : ℤ) : ℤ :=
  if 0 ≤ n then (if INT_MAX < n then INT_MAX else n) else if INT_MAX < -n then INT_MIN else n

end CBigNum

namespace CScriptNum

def nMaxNumSize : ℕ := 4

def orBytes : ℕ → UInt64 → List UInt8 → UInt64
  | _, result, [] => result
  | i, result, b::vch => orBytes (i+1) (result ||| b.toUInt64 <<< UInt64.ofNat (8*i)) vch

/-- A set top bit is removed, and makes the number negative. -/
def setVch (vch : List UInt8) : Int64 :=
  match vch.getLast? with
  | none => 0
  | some top =>
    let result := orBytes 0 0 vch
    if top &&& 0x80 ≠ 0 then -(result &&& ~~~((0x80 : UInt64) <<< UInt64.ofNat (8*(vch.length-1)))).toInt64
    else result.toInt64

def absBytes : ℕ → UInt64 → List UInt8
  | 0, _ => []
  | fuel+1, absvalue => if absvalue = 0 then [] else (absvalue &&& 0xff).toUInt8::absBytes fuel (absvalue >>> 8)

def serialize (value : Int64) : List UInt8 :=
  if value = 0 then []
  else
    let neg : Bool := value < 0
    let result := absBytes 8 (if neg then -value else value).toUInt64
    match result.getLast? with
    | none => []
    | some top =>
      if top &&& 0x80 ≠ 0 then result++[if neg then 0x80 else 0]
      else if neg then result.dropLast++[top ||| 0x80] else result

/-- With fewest bytes: the highest one is needed for more than the sign. -/
def isMinimal (vch : List UInt8) : Bool :=
  match vch.getLast? with
  | none => true
  | some top => top &&& 0x7f ≠ 0 || (1 < vch.length && (vch.dropLast.getLast?.getD 0) &&& 0x80 ≠ 0)

def getint (value : Int64) : ℤ :=
  if INT_MAX < value.toInt then INT_MAX else if value.toInt < INT_MIN then INT_MIN else value.toInt

end CScriptNum

theorem leValue_concat (l b) : leValue (l++[b]) = leValue l+2^(8*l.length)*b.toNat := by
  have hpow : (256 : ℕ)^l.length = 2^(8*l.length) := by rw [pow_mul]; norm_num
  rw [leValue_append,hpow]
  simp [leValue]

theorem leValue_concat_lt (l) {b} (hb : b.toNat < 128) : leValue (l++[b]) < 2^(8*l.length+7) := by
  have hpow : (256 : ℕ)^l.length = 2^(8*l.length) := by rw [pow_mul]; norm_num
  have hlow := leValue_lt l
  have h1 : 2^(8*l.length)*(b.toNat+1) ≤ 2^(8*l.length)*2^7 := Nat.mul_le_mul_left _ (by omega)
  rw [leValue_concat,pow_add]
  rw [hpow] at hlow
  rw [Nat.mul_add,Nat.mul_one] at h1
  exact lt_of_lt_of_le (by omega) h1

open CScriptNum

theorem toNat_orBytes {vch i result} (hlow : result.toNat < 256^i) (hlen : i+vch.length ≤ 8) :
    (orBytes i result vch).toNat = result.toNat+256^i*leValue vch := by
  induction vch generalizing i result with
  | nil => simp [orBytes,leValue]
  | cons b vch ih =>
    have hi : i < 8 := by
      rw [length_cons] at hlen
      omega
    have hb := b.toNat_lt
    have hpow : (256 : ℕ)^i = 2^(8*i) := by rw [pow_mul]; norm_num
    have hbig : b.toNat*2^(8*i) < 2^64 := by
      have h1 : b.toNat*2^(8*i) < 2^8*2^(8*i) := Nat.mul_lt_mul_of_pos_right hb (by positivity)
      have h2 : 2^8*2^(8*i) ≤ 2^64 := by
        rw [← pow_add]
        exact Nat.pow_le_pow_right (by norm_num) (by omega)
      omega
    have hshift : (b.toUInt64 <<< UInt64.ofNat (8*i)).toNat = b.toNat*2^(8*i) := by
      rw [UInt64.toNat_shiftLeft,UInt8.toNat_toUInt64,UInt64.toNat_ofNat',
        Nat.mod_eq_of_lt (show 8*i < 2^64 by omega),
        Nat.mod_eq_of_lt (show 8*i < 64 by omega),Nat.shiftLeft_eq,Nat.mod_eq_of_lt hbig]
    have hor : (result ||| b.toUInt64 <<< UInt64.ofNat (8*i)).toNat = result.toNat+256^i*b.toNat := by
      rw [UInt64.toNat_or,hshift,Nat.or_comm,← Nat.shiftLeft_eq,← Nat.shiftLeft_add_eq_or_of_lt (hpow ▸ hlow),
        Nat.shiftLeft_eq,hpow]
      ring
    rw [orBytes,ih (by rw [hor,pow_succ]; nlinarith) (by rw [length_cons] at hlen; omega),hor,leValue,pow_succ]
    ring

theorem and_sign_ne_zero (b : UInt8) : b &&& 0x80 ≠ 0 ↔ 0x80 ≤ b := by
  have hall : ∀ n < 256, (UInt8.ofNat n &&& 0x80 ≠ 0 ↔ 0x80 ≤ UInt8.ofNat n) := by decide +kernel
  have hb := hall b.toNat b.toNat_lt
  rwa [UInt8.ofNat_toNat] at hb

theorem toNat_lt_of_not_sign {b : UInt8} (h : ¬ 0x80 ≤ b) : b.toNat < 128 := by
  have h1 := mt UInt8.le_iff_toNat_le.mpr h
  have h2 : (0x80 : UInt8).toNat = 128 := rfl
  omega

theorem and_not_bit {k r} (hk : k < 64) (hr : r < 2^k) : (2^k+r) &&& (2^64-1-2^k) = r := by
  apply Nat.eq_of_testBit_eq
  intro i
  have hmask : (2^64-1-2^k).testBit i = (decide (i < 64) && !(2^k).testBit i) := by
    rw [Nat.sub_sub,Nat.add_comm 1]
    exact Nat.testBit_two_pow_sub_succ (Nat.pow_lt_pow_right (by norm_num) hk) i
  rw [Nat.testBit_and,hmask,Nat.testBit_two_pow]
  rcases lt_trichotomy i k with hik | rfl | hik
  · rw [Nat.testBit_two_pow_add_gt hik]
    simp [show i < 64 by omega,show k ≠ i by omega]
  · simp [Nat.testBit_lt_two_pow hr]
  · have hlow : (2^k+r).testBit i = false := by
      apply Nat.testBit_lt_two_pow
      have h1 : 2^(k+1) ≤ 2^i := Nat.pow_le_pow_right (by norm_num) hik
      rw [pow_succ] at h1
      omega
    have hr' : r.testBit i = false := by
      apply Nat.testBit_lt_two_pow
      have h1 : 2^k ≤ 2^i := Nat.pow_le_pow_right (by norm_num) (by omega)
      omega
    rw [hlow,hr']
    rfl

theorem toInt_toInt64_of_lt {n : UInt64} (h : n.toNat < 2^63) : n.toInt64.toInt = n.toNat := by
  apply BitVec.toInt_eq_toNat_of_lt
  show 2*n.toNat < 2^64
  omega

theorem bmod_of_small {a} (hlow : -2^63 ≤ a) (hhigh : a < 2^63) : a.bmod (2^64) = a :=
  Int.bmod_eq_of_le (by norm_num; omega) (by norm_num; omega)

theorem toInt_setVch {vch : List UInt8} (hlen : vch.length ≤ nMaxNumSize) :
    (setVch vch).toInt = CBigNum.setvch vch := by
  rcases eq_nil_or_concat vch with rfl | ⟨l,top,rfl⟩
  · rfl
  · rw [concat_eq_append] at hlen ⊢
    have hl : l.length ≤ 3 := by
      rw [length_append,length_singleton,nMaxNumSize] at hlen
      omega
    have hbound : (2 : ℕ)^(8*l.length+7) ≤ 2^31 := Nat.pow_le_pow_right (by norm_num) (by omega)
    have htop := top.toNat_lt
    have hresult : (orBytes 0 0 (l++[top])).toNat = leValue (l++[top]) := by
      rw [toNat_orBytes (by simp) (by rw [length_append,length_singleton]; omega)]
      simp
    simp only [setVch,CBigNum.setvch,getLast?_concat,dropLast_concat]
    by_cases hneg : 0x80 ≤ top
    · have htop' : 128 ≤ top.toNat := UInt8.le_iff_toNat_le.mp hneg
      rw [if_pos ((and_sign_ne_zero top).mpr hneg),if_pos hneg]
      have hsub : (top-0x80).toNat = top.toNat-128 := UInt8.toNat_sub_of_le top 0x80 hneg
      have hr : leValue (l++[top-0x80]) < 2^(8*l.length+7) := leValue_concat_lt l (by omega)
      have hsplit : leValue (l++[top]) = 2^(8*l.length+7)+leValue (l++[top-0x80]) := by
        rw [leValue_concat,leValue_concat,hsub,pow_add]
        obtain ⟨d,hd⟩ := Nat.exists_eq_add_of_le htop'
        rw [hd,Nat.add_sub_cancel_left]
        ring
      have hshift : ((0x80 : UInt64) <<< UInt64.ofNat (8*((l++[top]).length-1))).toNat = 2^(8*l.length+7) := by
        rw [length_append,length_singleton,Nat.add_sub_cancel,UInt64.toNat_shiftLeft,UInt64.toNat_ofNat',
          Nat.mod_eq_of_lt (show 8*l.length < 2^64 by omega),Nat.mod_eq_of_lt (show 8*l.length < 64 by omega),Nat.shiftLeft_eq]
        show 128*2^(8*l.length)%2^64 = _
        rw [pow_add] at hbound ⊢
        rw [Nat.mod_eq_of_lt (by omega)]
        ring
      have hmasked : (orBytes 0 0 (l++[top]) &&&
          ~~~((0x80 : UInt64) <<< UInt64.ofNat (8*((l++[top]).length-1)))).toNat = leValue (l++[top-0x80]) := by
        rw [UInt64.toNat_and,UInt64.toNat_not,hshift,hresult,hsplit]
        exact and_not_bit (by omega) hr
      have hsmall : leValue (l++[top-0x80]) < 2^31 := lt_of_lt_of_le hr hbound
      rw [Int64.toInt_neg,toInt_toInt64_of_lt (by rw [hmasked]; omega),hmasked,
        bmod_of_small (by omega) (by omega)]
    · have hsmall : leValue (l++[top]) < 2^31 :=
        lt_of_lt_of_le (leValue_concat_lt l (toNat_lt_of_not_sign hneg)) hbound
      rw [if_neg (fun h => hneg ((and_sign_ne_zero top).mp h)),if_neg hneg,
        toInt_toInt64_of_lt (by rw [hresult]; omega),
        hresult]

def Small (n : ℤ) : Prop := -2^31 < n ∧ n < 2^31

theorem small_setvch {vch} (hlen : vch.length ≤ 4) : Small (CBigNum.setvch vch) := by
  rcases eq_nil_or_concat vch with rfl | ⟨l,top,rfl⟩
  · exact ⟨by decide,by decide⟩
  · rw [concat_eq_append] at hlen ⊢
    rw [length_append,length_singleton] at hlen
    have hbound : (2 : ℕ)^(8*l.length+7) ≤ 2^31 := Nat.pow_le_pow_right (by norm_num) (by omega)
    have htop := top.toNat_lt
    simp only [CBigNum.setvch,getLast?_concat,dropLast_concat]
    by_cases hneg : 0x80 ≤ top
    · have hsub : (top-0x80).toNat = top.toNat-128 := UInt8.toNat_sub_of_le top 0x80 hneg
      have hsmall : leValue (l++[top-0x80]) < 2^31 :=
        lt_of_lt_of_le (leValue_concat_lt l (by omega)) hbound
      rw [if_pos hneg]
      constructor <;> omega
    · have hsmall : leValue (l++[top]) < 2^31 :=
        lt_of_lt_of_le (leValue_concat_lt l (toNat_lt_of_not_sign hneg)) hbound
      rw [if_neg hneg]
      constructor <;> omega

theorem getint_eq {n} (h : Small n) : CBigNum.getint n = n := by
  rcases h with ⟨hlow,hhigh⟩
  simp only [CBigNum.getint,INT_MAX]
  split_ifs <;> omega

theorem getint_toInt {value} (h : Small value.toInt) : getint value = value.toInt := by
  rcases h with ⟨hlow,hhigh⟩
  simp only [getint,INT_MAX,INT_MIN]
  split_ifs <;> omega

theorem or_sign (b : UInt8) (hb : ¬ 0x80 ≤ b) : b ||| 0x80 = b+0x80 := by
  have hall : ∀ n < 256, ¬ 0x80 ≤ UInt8.ofNat n → UInt8.ofNat n ||| 0x80 = UInt8.ofNat n+0x80 := by
    decide +kernel
  have h := hall b.toNat b.toNat_lt
  rw [UInt8.ofNat_toNat] at h
  exact h hb

theorem absBytes_eq {k m n} (hk : n.toNat < 256^k) (hm : n.toNat ≤ m) :
    absBytes k n = natBytes m n.toNat := by
  induction k generalizing m n with
  | zero =>
    have hzero : n.toNat = 0 := by omega
    rw [hzero]
    cases m <;> rfl
  | succ k ih =>
    rw [absBytes]
    by_cases hn : n = 0
    · rw [if_pos hn,hn]
      cases m <;> rfl
    · have hpos : n.toNat ≠ 0 := fun h => hn (UInt64.toNat_inj.mp h)
      obtain ⟨m,rfl⟩ : ∃ m', m = m'+1 := ⟨m-1,by omega⟩
      have hshift : (n >>> 8).toNat = n.toNat/256 := by
        rw [UInt64.toNat_shiftRight]
        exact Nat.shiftRight_eq_div_pow _ 8
      have hbyte : (n &&& 0xff).toUInt8 = UInt8.ofNat n.toNat := by
        apply UInt8.toNat_inj.mp
        rw [UInt64.toNat_toUInt8,UInt64.toNat_and,UInt8.toNat_ofNat']
        have hmask : n.toNat &&& 255 = n.toNat%256 := Nat.and_two_pow_sub_one_eq_mod n.toNat 8
        show (n.toNat &&& 255)%2^8 = _
        rw [hmask]
        omega
      have hrest : absBytes k (n >>> 8) = natBytes m (n >>> 8).toNat := by
        rw [pow_succ] at hk
        apply ih <;> omega
      rw [if_neg hn,natBytes,if_neg hpos,hbyte,hrest,hshift]

theorem toNat_abs (value : Int64) :
    (if value < 0 then -value else value).toUInt64.toNat = value.toInt.natAbs := by
  have hbits : ∀ v : Int64, 0 ≤ v.toInt → v.toUInt64.toNat = v.toInt.natAbs := by
    intro v hv
    have hmsb : v.toBitVec.toInt = v.toInt := rfl
    show v.toBitVec.toNat = _
    rw [BitVec.toInt_eq_toNat_cond] at hmsb
    split_ifs at hmsb <;> omega
  have hle := value.le_toInt
  by_cases hmin : value = Int64.minValue
  · rw [hmin]
    decide
  · have hmin' : value.toInt ≠ -2^63 := fun h => hmin (Int64.toInt_inj.mp h)
    split_ifs with hneg
    · have hneg' : value.toInt < 0 := Int64.lt_iff_toInt_lt.mp hneg
      have hflip : (-value).toInt = -value.toInt := by rw [Int64.toInt_neg,bmod_of_small (by omega) (by omega)]
      rw [hbits (-value) (by omega),hflip,Int.natAbs_neg]
    · have hpos : ¬ value.toInt < 0 := fun h => hneg (Int64.lt_iff_toInt_lt.mpr h)
      exact hbits value (by omega)

theorem serialize_eq_getvch (value : Int64) : serialize value = getvch value.toInt := by
  have hbytes : absBytes 8 (if value < 0 then -value else value).toUInt64 =
      natBytes value.toInt.natAbs value.toInt.natAbs := by
    rw [← toNat_abs value]
    exact absBytes_eq (UInt64.toNat_lt _) le_rfl
  have hneg : (value < 0) ↔ value.toInt < 0 := Int64.lt_iff_toInt_lt
  unfold serialize getvch
  by_cases hzero : value = 0
  · rw [if_pos hzero,hzero]
    rfl
  · rw [if_neg hzero]
    simp only [decide_eq_true_eq,hbytes]
    cases (natBytes value.toInt.natAbs value.toInt.natAbs).getLast? with
    | none => rfl
    | some top =>
      dsimp only
      by_cases hsign : 0x80 ≤ top
      · rw [if_pos ((and_sign_ne_zero top).mpr hsign),if_pos hsign]
        simp only [hneg]
      · rw [if_neg (fun h => hsign ((and_sign_ne_zero top).mp h)),if_neg hsign]
        simp only [hneg,or_sign top hsign]

theorem setvch_getvch (n) : CBigNum.setvch (getvch n) = n := by
  have hvalue := leValue_natBytes (le_refl n.natAbs)
  cases hlast : (natBytes n.natAbs n.natAbs).getLast? with
  | none =>
    rw [getLast?_eq_none_iff.mp hlast] at hvalue
    have hzero : n = 0 := Int.natAbs_eq_zero.mp hvalue.symm
    rw [hzero]
    rfl
  | some top =>
    have hsplit := dropLast_append_getLast? top hlast
    by_cases hsign : 0x80 ≤ top
    · have hget : getvch n = natBytes n.natAbs n.natAbs++[if n < 0 then 0x80 else 0] := by
        simp [getvch,hlast,hsign]
      rw [hget]
      by_cases hneg : n < 0
      · simp only [CBigNum.setvch,hneg,getLast?_concat,dropLast_concat,if_true,UInt8.sub_self,
          leValue_append_zero,
          hvalue,show (0x80 : UInt8) ≤ 0x80 by decide]
        omega
      · simp only [CBigNum.setvch,hneg,getLast?_concat,if_false,leValue_append_zero,hvalue,
          show ¬ (0x80 : UInt8) ≤ 0 by decide]
        omega
    · have htop := toNat_lt_of_not_sign hsign
      by_cases hneg : n < 0
      · have hget : getvch n = (natBytes n.natAbs n.natAbs).dropLast++[top+0x80] := by
          simp [getvch,hlast,hsign,hneg]
        have hover : 0x80 ≤ top+0x80 := by
          rw [UInt8.le_iff_toNat_le,UInt8.toNat_add]
          show 128 ≤ (top.toNat+128)%256
          omega
        rw [hget]
        simp only [CBigNum.setvch,getLast?_concat,if_pos hover,dropLast_concat,UInt8.add_sub_cancel,
          hsplit,hvalue]
        omega
      · have hget : getvch n = natBytes n.natAbs n.natAbs := by simp [getvch,hlast,hsign,hneg]
        rw [hget]
        simp only [CBigNum.setvch,hlast,if_neg hsign,hvalue]
        omega

end Script

end DarkSilk
