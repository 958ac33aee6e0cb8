import DarkSilk.PrefixCode

/-! Readers of self-delimiting encodings. A reader takes a value off the front of a
string, or fails; it reads an encoder if every value comes back from its encoding,
whatever follows. Fixed-width numbers and counted lists are again the building blocks. -/
namespace DarkSilk

open List Option
namespace PrefixCode

variable {α β σ : Type}

abbrev Reader (σ α : Type) := StateT (List σ) Option α

/-- On values of `P`, the reader undoes the encoder and leaves what follows. -/
def Reads (P : α → Prop) (enc : α → List σ) (dec : Reader σ α) : Prop :=
  ∀ ⦃a⦄, P a → ∀ r, dec.run (enc a++r) = some (a,r)

variable {P : α → Prop} {enc : α → List σ} {dec : Reader σ α}

theorem Reads.run_bind (h : Reads P enc dec) {a} (ha : P a) (f : α → Reader σ β) (r) :
    (dec >>= f).run (enc a++r) = (f a).run r := by
  rw [StateT.run_bind,h ha r]
  rfl

theorem Reads.next (h : Reads (fun _ => True) enc dec) {a} (f : α → Reader σ β) (r) :
    (dec >>= f).run (enc a++r) = (f a).run r := h.run_bind trivial f r

theorem Reads.mono {Q : α → Prop} (h : Reads P enc dec) (hq : ∀ a, Q a → P a) : Reads Q enc dec :=
  fun _ ha r => h (hq _ ha) r

def readOne : Reader σ σ
  | [] => none
  | a::l => some (a,l)

theorem reads_readOne : Reads (fun _ : σ => True) (fun a => [a]) readOne := fun _ _ _ => rfl

def readMany (dec : Reader σ α) : ℕ → Reader σ (List α)
  | 0 => pure []
  | n+1 => do
    let a ← dec
    let l ← readMany dec n
    return a::l

theorem Reads.run_readMany (h : Reads P enc dec) {l} (hl : ∀ a ∈ l, P a) (r) :
    (readMany dec l.length).run (l.flatMap enc++r) = some (l,r) := by
  induction l with
  | nil => rfl
  | cons a l ih =>
    rw [flatMap_cons,append_assoc,length_cons,readMany,h.run_bind (hl a mem_cons_self),
      StateT.run_bind,ih fun x hx => hl x (mem_cons_of_mem a hx)]
    rfl

theorem Reads.many (h : Reads P enc dec) (n) :
    Reads (fun l : List α => n = l.length ∧ ∀ a ∈ l, P a) (fun l =>
      l.flatMap enc) (readMany dec n) := by
  rintro l ⟨rfl,hl⟩ r
  exact h.run_readMany hl r

theorem Reads.counted {Q : ℕ → Prop} {count : ℕ → List σ}
    {readCount : Reader σ ℕ} (hc : Reads Q count readCount) (h : Reads P enc dec) :
    Reads (fun l : List α => Q l.length ∧ ∀ a ∈ l, P a) (fun l => count l.length++l.flatMap enc)
      (readCount >>= readMany dec) := by
  rintro l ⟨hlen,hl⟩ r
  rw [append_assoc,hc.run_bind hlen,h.run_readMany hl]

variable {Q : α → Prop} {R : β → Prop}

/-- Whatever the reader accepts, what it takes off has the property. -/
def Yields (Q : α → Prop) (dec : Reader σ α) : Prop := ∀ ⦃l a r⦄, dec.run l = some (a,r) → Q a

theorem yields_true (dec : Reader σ α) : Yields (fun _ => True) dec := fun _ _ _ _ => trivial

theorem Yields.pure {a} (h : Q a) : Yields Q (pure a : Reader σ α) := by
  intro l b r hb
  cases hb
  exact h

theorem yields_failure : Yields Q (failure : Reader σ α) := fun _ _ _ h => nomatch h

theorem Yields.bind (h : Yields Q dec) {f} (hf : ∀ a, Q a → Yields R (f a)) :
    Yields R (dec >>= f) := by
  intro l b r hb
  rw [StateT.run_bind] at hb
  cases hrun : dec.run l with
  | none =>
    rw [hrun] at hb
    cases hb
  | some x =>
    rw [hrun] at hb
    exact hf x.1 (h hrun) hb

theorem Yields.skip {f} (hf : ∀ a, Yields R (f a)) : Yields R (dec >>= f) :=
  (yields_true dec).bind fun a _ => hf a

theorem Yields.mono {Q' : α → Prop} (h : Yields Q dec) (hq : ∀ a, Q a → Q' a) : Yields Q' dec :=
  fun _ _ _ hrun => hq _ (h hrun)

theorem Yields.map {f} {Q' : β → Prop} (h : Yields Q dec) (hf : ∀ a, Q a → Q' (f a)) :
    Yields Q' (f <$> dec) := by
  rw [map_eq_pure_bind]
  exact h.bind fun a ha => .pure (hf a ha)

theorem Yields.many (h : Yields Q dec) (n) :
    Yields (fun l => l.length = n ∧ ∀ a ∈ l, Q a) (readMany dec n) := by
  induction n with
  | zero => exact .pure ⟨rfl,by simp⟩
  | succ n ih =>
    refine h.bind fun a ha => ih.bind fun l hl => .pure ⟨by simp [hl.1],?_⟩
    simpa using ⟨ha,hl.2⟩

theorem Yields.counted {C : ℕ → Prop} {readCount} (hc : Yields C readCount) (h : Yields Q dec) :
    Yields (fun l : List α => C l.length ∧ ∀ a ∈ l, Q a) (readCount >>= readMany dec) :=
  hc.bind fun n hn => (h.many n).mono fun _ hl => ⟨hl.1.symm ▸ hn,hl.2⟩

structure Restores (Q : α → Prop) (enc : α → List σ) (dec : Reader σ α) : Prop where
  reads : Reads Q enc dec
  yields : Yields Q dec

theorem Restores.counted {C : ℕ → Prop} {count readCount} (hc : Restores C count readCount)
    (h : Restores Q enc dec) :
    Restores (fun l : List α => C l.length ∧ ∀ a ∈ l, Q a) (fun l => count l.length++l.flatMap enc)
      (readCount >>= readMany dec) :=
  ⟨hc.reads.counted h.reads,hc.yields.counted h.yields⟩

theorem Reads.restores (h : Reads (fun _ => True) enc dec) : Restores (fun _ => True) enc dec :=
  ⟨h,yields_true dec⟩

/-- Whatever the reader accepts is the encoding of the value, and then the rest. -/
def Inverts (enc : α → List σ) (dec : Reader σ α) : Prop :=
  ∀ ⦃l a r⦄, dec.run l = some (a,r) → l = enc a++r

theorem inverts_readOne : Inverts (fun a : σ => [a]) readOne := by
  rintro (_ | ⟨b,l⟩) a r h
  · cases h
  · cases h
    rfl

theorem Inverts.of_bind (h : Inverts enc dec) {f : α → Reader σ β} {l r : List σ} {b : β}
    (hrun : (dec >>= f).run l = some (b,r)) : ∃ a m, l = enc a++m ∧ (f a).run m = some (b,r) := by
  rw [StateT.run_bind] at hrun
  obtain ⟨⟨a,m⟩,ha,hf⟩ := bind_eq_some_iff.mp hrun
  exact ⟨a,m,h ha,hf⟩

theorem Inverts.many (h : Inverts enc dec) (n) :
    Inverts (fun l => l.flatMap enc) (readMany dec n) := by
  induction n with
  | zero =>
    intro l as r hrun
    cases hrun
    rfl
  | succ n ih =>
    intro l as r hrun
    obtain ⟨a,m,rfl,ha⟩ := h.of_bind hrun
    obtain ⟨as',m',rfl,hpure⟩ := ih.of_bind ha
    cases hpure
    simp

theorem Inverts.counted {count : ℕ → List σ} {readCount : Reader σ ℕ} (hc : Inverts count readCount)
    (h : Inverts enc dec) :
    Inverts (fun l : List α => count l.length++l.flatMap enc) (readCount >>= readMany dec) := by
  intro l as r hrun
  obtain ⟨n,m,rfl,hm⟩ := hc.of_bind hrun
  obtain ⟨rfl,-⟩ := (yields_true dec).many n hm
  rw [append_assoc,← h.many _ hm]

def readLE (k : ℕ) : Reader UInt8 ℕ := fun l =>
  if k ≤ l.length then some (leValue (l.take k),l.drop k) else none

theorem reads_readLE (k) : Reads (fun n => n < 256^k) (leBytes k) (readLE k) := by
  intro n hn r
  have hlen := length_leBytes k n
  have hle : k ≤ (leBytes k n++r).length := by simp
  change readLE k (leBytes k n++r) = _
  rw [readLE,if_pos hle,take_left' hlen,drop_left' hlen,leValue_leBytes hn]

variable {f : α → ℕ} {g : ℕ → α}

theorem reads_field (k) (hgf : ∀ a, g (f a) = a) (hlt : ∀ a, f a < 256^k) :
    Reads (fun _ => True) (fun a => leBytes k (f a)) (g <$> readLE k) := by
  intro a _ r
  rw [StateT.run_map,reads_readLE k (hlt a) r]
  exact congrArg some (Prod.ext (hgf a) rfl)

theorem inverts_readLE (k) : Inverts (leBytes k) (readLE k) := by
  intro l n r h
  change readLE k l = _ at h
  rw [readLE] at h
  split_ifs at h with hk
  cases h
  have hlen : (l.take k).length = k := length_take_of_le hk
  have htake := leBytes_leValue (l.take k)
  rw [hlen] at htake
  rw [htake,take_append_drop]

theorem yields_readLE (k) : Yields (fun n => n < 256^k) (readLE k) := by
  intro l n r h
  change readLE k l = _ at h
  rw [readLE] at h
  split_ifs at h with hk
  cases h
  have hlt := leValue_lt (l.take k)
  rwa [length_take_of_le hk] at hlt

theorem inverts_field (k) (hfg : ∀ n < 256^k, f (g n) = n) :
    Inverts (fun a => leBytes k (f a)) (g <$> readLE k) := by
  intro l a r h
  rw [map_eq_pure_bind,StateT.run_bind] at h
  obtain ⟨⟨n,m⟩,hn,hpure⟩ := bind_eq_some_iff.mp h
  cases hpure
  dsimp only
  rw [hfg n (yields_readLE k hn)]
  exact inverts_readLE k hn

def readBE (k : ℕ) : Reader UInt8 ℕ := fun l =>
  if k ≤ l.length then some (leValue (l.take k).reverse,l.drop k) else none

theorem reads_bigEndian (k) (hgf : ∀ a, g (f a) = a) (hlt : ∀ a, f a < 256^k) :
    Reads (fun _ => True) (fun a => (leBytes k (f a)).reverse) (g <$> readBE k) := by
  intro a _ r
  have hlen : (leBytes k (f a)).reverse.length = k := by rw [length_reverse,length_leBytes]
  have hle : k ≤ ((leBytes k (f a)).reverse++r).length := by simp
  have hread : readBE k ((leBytes k (f a)).reverse++r) = some (f a,r) := by
    rw [readBE,if_pos hle,take_left' hlen,drop_left' hlen,reverse_reverse,leValue_leBytes (hlt a)]
  rw [StateT.run_map,show (readBE k).run ((leBytes k (f a)).reverse++r) = some (f a,r) from hread]
  exact congrArg some (Prod.ext (hgf a) rfl)

end PrefixCode
end DarkSilk
