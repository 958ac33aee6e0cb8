import Mathlib.Tactic

/-! Bytes as text. The encoder and the decoder of Base64 go over their input with the bits that
are left over from the last byte or character. -/
namespace DarkSilk

open List Option

namespace Base64

def pbase64 : List UInt8 :=
  "ABCDEFGHIJKLMNOPQRSTUVWXYZabcdefghijklmnopqrstuvwxyz0123456789+/".toList.map fun c => c.toNat.toUInt8

def symbol (n : ℕ) : UInt8 := pbase64.getD n 0

/-- The table of the decoder, without a value for other characters. -/
def decode64 (c : UInt8) : Option ℕ := pbase64.idxOf? c

/-- The loop over the bytes, and the padding at its end. -/
def encodeFrom : ℕ → ℕ → List UInt8 → List UInt8
  | 0, _, [] => []
  | mode, left, [] => symbol left::61::if mode = 1 then [61] else []
  | 0, _, enc::l => symbol (enc.toNat/4)::encodeFrom 1 (enc.toNat%4*16) l
  | 1, left, enc::l => symbol (left+enc.toNat/16)::encodeFrom 2 (enc.toNat%16*4) l
  | _, left, enc::l => symbol (left+enc.toNat/64)::symbol (enc.toNat%64)::encodeFrom 0 left l

def encodeBase64 (l : List UInt8) : List UInt8 := encodeFrom 0 0 l

structure Stop where
  vchRet : List UInt8
  mode : ℕ
  left : ℕ
  p : List UInt8

def Stop.push (n : ℕ) (r : Stop) : Stop := { r with vchRet := UInt8.ofNat n::r.vchRet }

def decodeFrom : ℕ → ℕ → List UInt8 → Stop
  | mode, left, [] => ⟨[],mode,left,[]⟩
  | mode, left, c::p =>
    match decode64 c, mode with
    | none, mode => ⟨[],mode,left,c::p⟩
    | some dec, 0 => decodeFrom 1 dec p
    | some dec, 1 => (decodeFrom 2 (dec%16) p).push (left*4+dec/16)
    | some dec, 2 => (decodeFrom 3 (dec%4) p).push (left*16+dec/4)
    | some dec, _ => (decodeFrom 0 left p).push (left*64+dec)

/-- A character after the end is the zero byte. -/
def Stop.invalid (r : Stop) : Bool :=
  match r.mode with
  | 0 => false
  | 1 => true
  | 2 => r.left ≠ 0 || r.p.getD 0 0 ≠ 61 || r.p.getD 1 0 ≠ 61 || (decode64 (r.p.getD 2 0)).isSome
  | _ => r.left ≠ 0 || r.p.getD 0 0 ≠ 61 || (decode64 (r.p.getD 1 0)).isSome

def decodeBase64 (s : List UInt8) : List UInt8 × Bool :=
  ((decodeFrom 0 0 s).vchRet,(decodeFrom 0 0 s).invalid)

/-- What stands behind the characters that are decoded, and their padding. -/
def Stop.trailing (r : Stop) : List UInt8 :=
  r.p.drop (if r.mode = 2 then 2 else if r.mode = 3 then 1 else 0)

theorem decode_symbol : ∀ n < 64, decode64 (symbol n) = some n := by decide +kernel

theorem symbol_of_decode {c : UInt8} {n} (h : decode64 c = some n) : n < 64 ∧ symbol n = c := by
  have hall : ∀ i : Fin 256, (decode64 (UInt8.ofNat i)).all fun n => n < 64 ∧
      symbol n = UInt8.ofNat i := by decide +kernel
  have hc := hall ⟨c.toNat,c.toNat_lt⟩
  rw [UInt8.ofNat_toNat,h] at hc
  simpa using hc

@[simp] theorem decode_padding : decode64 61 = none ∧ decode64 0 = none := by decide +kernel

theorem ofNat_eq {n : ℕ} {a : UInt8} (h : n = a.toNat) : UInt8.ofNat n = a := by
  rw [h,UInt8.ofNat_toNat]

theorem decode_encode (left left') : ∀ l, (decodeFrom 0 left (encodeFrom 0 left' l)).vchRet = l ∧
    (decodeFrom 0 left (encodeFrom 0 left' l)).invalid = false
  | [] => ⟨rfl,rfl⟩
  | [a] => by
    have ha := a.toNat_lt
    have h1 := decode_symbol (a.toNat/4) (by omega)
    have h2 := decode_symbol (a.toNat%4*16) (by omega)
    have hv : UInt8.ofNat (a.toNat/4*4+a.toNat%4*16/16) = a := ofNat_eq (by omega)
    simp only [encodeFrom,decodeFrom,h1,h2,decode_padding,Stop.push,hv]
    simp [Stop.invalid]
  | [a,b] => by
    have ha := a.toNat_lt
    have hb := b.toNat_lt
    have h1 := decode_symbol (a.toNat/4) (by omega)
    have h2 := decode_symbol (a.toNat%4*16+b.toNat/16) (by omega)
    have h3 := decode_symbol (b.toNat%16*4) (by omega)
    have hv : UInt8.ofNat (a.toNat/4*4+(a.toNat%4*16+b.toNat/16)/16) = a := ofNat_eq (by omega)
    have hw : UInt8.ofNat ((a.toNat%4*16+b.toNat/16)%16*16+b.toNat%16*4/4) = b := ofNat_eq (by omega)
    simp only [encodeFrom,decodeFrom,h1,h2,h3,decode_padding,Stop.push,hv,hw]
    simp [Stop.invalid]
  | a::b::c::l => by
    have ha := a.toNat_lt
    have hb := b.toNat_lt
    have hc := c.toNat_lt
    have h1 := decode_symbol (a.toNat/4) (by omega)
    have h2 := decode_symbol (a.toNat%4*16+b.toNat/16) (by omega)
    have h3 := decode_symbol (b.toNat%16*4+c.toNat/64) (by omega)
    have h4 := decode_symbol (c.toNat%64) (by omega)
    have hv : UInt8.ofNat (a.toNat/4*4+(a.toNat%4*16+b.toNat/16)/16) = a := ofNat_eq (by omega)
    have hw : UInt8.ofNat ((a.toNat%4*16+b.toNat/16)%16*16+(b.toNat%16*4+c.toNat/64)/4) = b :=
      ofNat_eq (by omega)
    have hx : UInt8.ofNat ((b.toNat%16*4+c.toNat/64)%4*64+c.toNat%64) = c := ofNat_eq (by omega)
    obtain ⟨hret,hvalid⟩ := decode_encode ((b.toNat%16*4+c.toNat/64)%4) (b.toNat%16*4) l
    simp only [encodeFrom,decodeFrom,h1,h2,h3,h4,Stop.push,hv,hw,hx,hret]
    exact ⟨trivial,hvalid⟩

theorem toNat_ofNat {n : ℕ} (h : n < 256) : (UInt8.ofNat n).toNat = n := UInt8.toNat_ofNat_of_lt' h

/-- Characters that are accepted are the encoding of what they stand for. -/
theorem encode_decode {n : ℕ} :
    ∀ {s} (left left'), s.length = n → (decodeFrom 0 left s).invalid = false →
    encodeFrom 0 left' (decodeFrom 0 left s).vchRet++(decodeFrom 0 left s).trailing = s := by
  induction n using Nat.strong_induction_on with
  | _ n ih =>
  intro s left left' hlen hvalid
  rcases s with _ | ⟨c1,s⟩
  · rfl
  cases h1 : decode64 c1 with
  | none => simp [decodeFrom,h1,encodeFrom,Stop.trailing]
  | some d1 =>
  obtain ⟨hd1,rfl⟩ := symbol_of_decode h1
  rcases s with _ | ⟨c2,s⟩
  · simp [decodeFrom,h1,Stop.invalid] at hvalid
  cases h2 : decode64 c2 with
  | none => simp [decodeFrom,h1,h2,Stop.invalid] at hvalid
  | some d2 =>
  obtain ⟨hd2,rfl⟩ := symbol_of_decode h2
  have hv : (UInt8.ofNat (d1*4+d2/16)).toNat = d1*4+d2/16 := toNat_ofNat (by omega)
  have hb1 : (d1*4+d2/16)/4 = d1 := by omega
  rcases s with _ | ⟨c3,s⟩
  · simp [decodeFrom,h1,h2,Stop.push,Stop.invalid] at hvalid
  cases h3 : decode64 c3 with
  | none =>
    -- the bits that are left are zero, and the padding is complete
    simp only [decodeFrom,h1,h2,h3,Stop.push,Stop.invalid] at hvalid
    rcases s with _ | ⟨c4,s⟩
    · simp at hvalid
    simp only [getD_cons_zero,getD_cons_succ,Bool.or_eq_false_iff,decide_eq_false_iff_not,not_not] at hvalid
    obtain ⟨⟨⟨hleft,rfl⟩,rfl⟩,-⟩ := hvalid
    have hb2 : (d1*4+d2/16)%4*16 = d2 := by omega
    simp only [decodeFrom,h1,h2,h3,Stop.push,Stop.trailing,encodeFrom,hv,hb1,hb2]
    rfl
  | some d3 =>
  obtain ⟨hd3,rfl⟩ := symbol_of_decode h3
  have hw : (UInt8.ofNat (d2%16*16+d3/4)).toNat = d2%16*16+d3/4 := toNat_ofNat (by omega)
  rcases s with _ | ⟨c4,s⟩
  · simp [decodeFrom,h1,h2,h3,Stop.push,Stop.invalid] at hvalid
  cases h4 : decode64 c4 with
  | none =>
    simp only [decodeFrom,h1,h2,h3,h4,Stop.push,Stop.invalid,getD_cons_zero,Bool.or_eq_false_iff,
      decide_eq_false_iff_not,not_not] at hvalid
    obtain ⟨⟨hleft,rfl⟩,-⟩ := hvalid
    have hb2 : (d1*4+d2/16)%4*16+(d2%16*16+d3/4)/16 = d2 := by omega
    have hb3 : (d2%16*16+d3/4)%16*4 = d3 := by omega
    simp only [decodeFrom,h1,h2,h3,h4,Stop.push,Stop.trailing,encodeFrom,hv,hw,hb1,hb2,hb3]
    rfl
  | some d4 =>
  obtain ⟨hd4,rfl⟩ := symbol_of_decode h4
  have hx : (UInt8.ofNat (d3%4*64+d4)).toNat = d3%4*64+d4 := toNat_ofNat (by omega)
  have hb2 : (d1*4+d2/16)%4*16+(d2%16*16+d3/4)/16 = d2 := by omega
  have hb3 : (d2%16*16+d3/4)%16*4+(d3%4*64+d4)/64 = d3 := by omega
  have hb4 : (d3%4*64+d4)%64 = d4 := by omega
  simp only [decodeFrom,h1,h2,h3,h4,Stop.push] at hvalid ⊢
  have hrest := ih s.length (by simp at hlen; omega) (d3%4) ((d2%16*16+d3/4)%16*4) rfl hvalid
  simp only [encodeFrom,hv,hw,hx,hb1,hb2,hb3,hb4]
  exact congrArg (symbol d1::symbol d2::symbol d3::symbol d4::·) hrest

/-- Encodings are decoded, and what is decoded without a fault is an encoding exactly if nothing
follows it. -/
theorem base64_iff (b s : List UInt8) :
    decodeBase64 (encodeBase64 b) = (b,false) ∧
    (((decodeBase64 s).2 = false → encodeBase64 (decodeBase64 s).1 = s) ↔
      ((decodeBase64 s).2 = false → (decodeFrom 0 0 s).trailing = [])) := by
  refine ⟨Prod.ext_iff.mpr (decode_encode 0 0 b),forall_congr' fun hvalid => ?_⟩
  have hs := encode_decode 0 0 rfl hvalid
  constructor
  · intro heq
    exact append_right_eq_self.mp (hs.trans heq.symm)
  · intro hnil
    rwa [hnil,append_nil] at hs

theorem base64_iff_man : encodeBase64 (decodeBase64 [84,87,70,117]).1 = [84,87,70,117] :=
  (base64_iff [] [84,87,70,117]).2.mpr (fun _ => by decide +kernel) (by decide +kernel)

/-- A text that goes on after whole groups is decoded without a fault. -/
theorem decodes_garbage :
    (decodeBase64 [84,87,70,117,33]).2 = false ∧ encodeBase64 (decodeBase64 [84,87,70,117,33]).1 =
      [84,87,70,117] := by
  decide +kernel

end Base64

end DarkSilk
