import Mathlib

/-! Self-delimiting encodings. An encoder is prefix free on a class of values when
the encoding of a value can be told apart from whatever follows it; such encoders
compose, and are in particular injective. Fixed-width little-endian numbers and
counted lists are the two building blocks. -/
namespace DarkSilk

open List
namespace PrefixCode

variable {α β σ : Type}

/-- On values of `P`, what follows an encoding does not influence the value read. -/
def PrefixFreeOn (P : α → Prop) (enc : α → List σ) : Prop :=
  ∀ ⦃a b⦄, P a → P b → ∀ ⦃r s⦄, enc a++r = enc b++s → a = b ∧ r = s

variable {P : α → Prop} {enc : α → List σ} {a b : α}

theorem PrefixFreeOn.injOn (h : PrefixFreeOn P enc) (ha : P a) (hb : P b) (he : enc a = enc b) :
    a = b :=
  (h ha hb (r := []) (s := []) (by simp [he])).1

theorem PrefixFreeOn.eq_of_isPrefix (h : PrefixFreeOn P enc) (ha : P a) (hb : P b) {l}
    (hal : enc a <+: l) (hbl : enc b <+: l) : a = b := by
  obtain ⟨r,hr⟩ := hal
  obtain ⟨s,hs⟩ := hbl
  exact (h ha hb (hr.trans hs.symm)).1

theorem PrefixFreeOn.mono {Q : α → Prop} (h : PrefixFreeOn P enc) (hq : ∀ a, Q a → P a) :
    PrefixFreeOn Q enc :=
  fun _ _ ha hb _ _ he => h (hq _ ha) (hq _ hb) he

theorem PrefixFreeOn.of_length (n) (hl : ∀ a, (enc a).length = n)
    (hi : ∀ a b, P a → P b → enc a = enc b → a = b) :
    PrefixFreeOn P enc := by
  intro a b ha hb r s he
  obtain ⟨h1,h2⟩ := append_inj he ((hl a).trans (hl b).symm)
  exact ⟨hi a b ha hb h1,h2⟩

theorem PrefixFreeOn.comp (h : PrefixFreeOn P enc) {f : β → α}
    (hf : Function.Injective f) : PrefixFreeOn (fun b => P (f b)) (fun b => enc (f b)) := by
  intro a b ha hb r s he
  obtain ⟨h1,h2⟩ := h ha hb he
  exact ⟨hf h1,h2⟩

theorem PrefixFreeOn.append {Q : β → Prop} {enc'} (h : PrefixFreeOn P enc)
    (h' : PrefixFreeOn Q enc') :
    PrefixFreeOn (fun x : α × β => P x.1 ∧ Q x.2) (fun x => enc x.1++enc' x.2) := by
  rintro ⟨a,a'⟩ ⟨b,b'⟩ ⟨ha,ha'⟩ ⟨hb,hb'⟩ r s he
  simp only [append_assoc] at he
  obtain ⟨rfl,h1⟩ := h ha hb he
  obtain ⟨rfl,h2⟩ := h' ha' hb' h1
  exact ⟨rfl,h2⟩

theorem PrefixFreeOn.flatMap (h : PrefixFreeOn P enc) :
    ∀ {l m : List α}, l.length = m.length → (∀ a ∈ l, P a) → (∀ a ∈ m, P a) → ∀ {r s : List σ},
      l.flatMap enc++r = m.flatMap enc++s → l = m ∧ r = s
  | [], [], _, _, _, _, _, he => ⟨rfl,he⟩
  | a::l, b::m, hlen, hl, hm, r, s, he => by
    simp only [flatMap_cons,append_assoc] at he
    obtain ⟨rfl,h1⟩ := h (hl a mem_cons_self) (hm b mem_cons_self) he
    obtain ⟨rfl,h2⟩ := h.flatMap (by simpa using hlen) (fun x hx => hl x (mem_cons_of_mem _ hx))
      (fun x hx => hm x (mem_cons_of_mem _ hx)) h1
    exact ⟨rfl,h2⟩

theorem PrefixFreeOn.counted {Q : ℕ → Prop} {count : ℕ → List σ}
    (hc : PrefixFreeOn Q count) (h : PrefixFreeOn P enc) :
    PrefixFreeOn (fun l : List α => Q l.length ∧ ∀ a ∈ l, P a) (fun l =>
      count l.length++l.flatMap enc) := by
  rintro l m ⟨hl,hl'⟩ ⟨hm,hm'⟩ r s he
  simp only [append_assoc] at he
  obtain ⟨h1,h2⟩ := hc hl hm he
  exact h.flatMap h1 hl' hm' h2

theorem prefixFreeOn_singleton : PrefixFreeOn (fun _ : σ => True) (fun a => [a]) :=
  .of_length 1 (fun _ => rfl) (fun _ _ _ _ h => singleton_inj.mp h)

/-- The `k` low bytes of a number, the lowest first. -/
def leBytes : ℕ → ℕ → List UInt8
  | 0, _ => []
  | k+1, n => UInt8.ofNat n::leBytes k (n/256)

@[simp] theorem length_leBytes (k n) : (leBytes k n).length = k := by
  induction k generalizing n with
  | zero => rfl
  | succ k ih => simp [leBytes,ih]

variable {m n k : ℕ}

theorem ofNat_eq_ofNat (h : UInt8.ofNat m = UInt8.ofNat n) : m%256 = n%256 := by
  simpa using congrArg UInt8.toNat h

theorem leBytes_inj (hm : m < 256^k) (hn : n < 256^k) (h : leBytes k m = leBytes k n) : m = n := by
  induction k generalizing m n with
  | zero => omega
  | succ k ih =>
    simp only [leBytes,cons.injEq] at h
    have h1 := ofNat_eq_ofNat h.1
    have h2 := ih (by rw [pow_succ] at hm; omega) (by rw [pow_succ] at hn; omega) h.2
    omega

theorem prefixFreeOn_leBytes (k) : PrefixFreeOn (fun n => n < 256^k) (leBytes k) :=
  .of_length k (length_leBytes k) (fun _ _ ha hb h => leBytes_inj ha hb h)

/-- A number behind a mark that tells how many bytes follow; below `base` the mark
is the number itself. -/
theorem prefixFreeOn_marked {Q : ℕ → Prop} {enc : ℕ → List UInt8} {mark width : ℕ → ℕ} (base)
    (henc : ∀ n, enc n = UInt8.ofNat (mark n)::leBytes (width (mark n)) n) (hlt : ∀ n, mark n < 256)
    (hmark : ∀ n, Q n → mark n < base ∧ mark n = n ∨ base ≤ mark n ∧ n < 256^width (mark n)) :
    PrefixFreeOn Q enc := by
  intro m n hm hn r s h
  rw [henc,henc,cons_append,cons_append,cons.injEq] at h
  have heq : mark m = mark n := by
    have h1 := ofNat_eq_ofNat h.1
    rwa [Nat.mod_eq_of_lt (hlt m),Nat.mod_eq_of_lt (hlt n)] at h1
  rw [heq] at h
  obtain ⟨h1,h2⟩ := append_inj h.2 (by simp)
  refine ⟨?_,h2⟩
  have hm' := hmark m hm
  rw [heq] at hm'
  rcases hm',hmark n hn with ⟨⟨hlm,hem⟩ | ⟨hlm,hem⟩,⟨hln,hen⟩ | ⟨hln,hen⟩⟩
  · exact hem.symm.trans hen
  · omega
  · omega
  · exact leBytes_inj hem hen h1

def leValue : List UInt8 → ℕ
  | [] => 0
  | b::l => b.toNat+256*leValue l

theorem leValue_lt (l) : leValue l < 256^l.length := by
  induction l with
  | nil => simp [leValue]
  | cons b l ih =>
    have hb := b.toNat_lt
    rw [leValue,length_cons,pow_succ]
    omega

theorem leValue_append (l l') : leValue (l++l') = leValue l+256^l.length*leValue l' := by
  induction l with
  | nil => simp [leValue]
  | cons b l ih =>
    rw [cons_append,leValue,leValue,ih,length_cons,pow_succ]
    ring

theorem leValue_leBytes (h : n < 256^k) : leValue (leBytes k n) = n := by
  induction k generalizing n with
  | zero => simp [leBytes,leValue]; omega
  | succ k ih =>
    rw [leBytes,leValue,ih (by rw [pow_succ] at h; omega)]
    simp only [UInt8.toNat_ofNat']
    omega

theorem leBytes_leValue (l) : leBytes l.length (leValue l) = l := by
  induction l with
  | nil => rfl
  | cons b l ih =>
    have hb := b.toNat_lt
    have hlow : UInt8.ofNat (b.toNat+256*leValue l) = b := by
      apply UInt8.toNat_inj.mp
      rw [UInt8.toNat_ofNat']
      omega
    have hhigh : (b.toNat+256*leValue l)/256 = leValue l := by omega
    rw [leValue,length_cons,leBytes,hlow,hhigh,ih]

theorem leValue_append_zero (l) : leValue (l++[0]) = leValue l := by
  induction l with
  | nil => rfl
  | cons b l ih => simp [leValue,ih]

/-- The bytes of a number up to its highest nonzero one; the first argument bounds
the number of bytes. -/
def natBytes : ℕ → ℕ → List UInt8
  | 0, _ => []
  | k+1, n => if n = 0 then [] else UInt8.ofNat n::natBytes k (n/256)

theorem leValue_natBytes (h : n ≤ k) : leValue (natBytes k n) = n := by
  induction k generalizing n with
  | zero => simp [natBytes,leValue]; omega
  | succ k ih =>
    rw [natBytes]
    split_ifs with h0
    · simp [leValue,h0]
    · rw [leValue,ih (by omega)]
      simp only [UInt8.toNat_ofNat']
      omega

end PrefixCode
end DarkSilk
