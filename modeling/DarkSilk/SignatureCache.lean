import DarkSilk.SignatureHash
import DarkSilk.SortedSet

/-! The cache of good signatures that all threads of a node share. A call looks a signature
up, checks it if it is not there, and then remembers it if it is good; other threads may
act between the two. When the cache is too large, entries next to random hashes go. -/
namespace DarkSilk

namespace SignatureCache

theorem getLen_le (chHeader) : getLen chHeader ≤ 65 := by
  unfold getLen
  split_ifs <;> decide

/-- The bytes behind the length that the first one tells are not used. -/
structure CPubKey where
  vch : List UInt8
  length : vch.length = 65

namespace CPubKey

variable (k : CPubKey)

def header : UInt8 := k.vch.headD 0

def size : ℕ := getLen k.header

def data : List UInt8 := k.vch.take k.size

def isValid : Bool := 0 < k.size

def invalidate : CPubKey := ⟨k.vch.set 0 0xFF,by rw [List.length_set,k.length]⟩

theorem length_taken {vch} (h : getLen chHeader = vch.length+1) :
    (chHeader::vch++k.vch.drop (vch.length+1)).length = 65 := by
  have hle := getLen_le chHeader
  rw [List.length_append,List.length_cons,List.length_drop,k.length]
  omega

/-- The object takes the bytes of a key; what is behind them stays as it was in memory. -/
def set (vch : List UInt8) : CPubKey :=
  match vch with
  | [] => k.invalidate
  | chHeader::vch =>
    if h : getLen chHeader = vch.length+1 then
      ⟨chHeader::vch++k.vch.drop (vch.length+1),k.length_taken h⟩
    else k.invalidate

theorem data_invalidate : k.invalidate.data = [] := by
  have hsize : k.invalidate.size = 0 := by
    cases hvch : k.vch with
    | nil => exact absurd k.length (by simp [hvch])
    | cons b vch => simp [size,header,invalidate,hvch,getLen]
  rw [data,hsize,List.take_zero]

/-- What was in memory before is not seen. -/
theorem data_set (vch : List UInt8) : (k.set vch).data = cPubKey vch := by
  cases vch with
  | nil => exact k.data_invalidate
  | cons chHeader vch =>
    rw [set,cPubKey]
    split_ifs with hlen
    · simp [data,size,header,hlen]
    · simp [data_invalidate,hlen]

end CPubKey

structure Sigdata where
  hash : UInt256
  vchSig : List UInt8
  pubkey : CPubKey

/-- The order of the entries: by the hash, the bytes of the signature, the first byte of the
key and its other bytes. -/
def Sigdata.key (e : Sigdata) : ℕ ×ₗ List ℕ ×ₗ ℕ ×ₗ List ℕ :=
  toLex (e.hash.toNat,toLex (e.vchSig.map UInt8.toNat,toLex (e.pubkey.header.toNat,e.pubkey.data.map UInt8.toNat)))

abbrev CSignatureCache := SortedSet Sigdata Sigdata.key

namespace CSignatureCache

variable (setValid : CSignatureCache)

def get (e : Sigdata) : Bool := setValid.contains e.key

/-- A key that is not valid, as an empty vector gives it. -/
def unused : CPubKey := ⟨List.replicate 65 0xFF,List.length_replicate⟩

/-- The entry at a random hash goes, or the first one if there is none above. -/
def evictOne (randomHash : UInt256) : CSignatureCache :=
  match (setValid.lowerBound (Sigdata.mk randomHash [] unused).key).or setValid.toList.head? with
  | none => setValid
  | some it => setValid.eraseKey it.key

/-- Every turn takes one entry out, so the size of the cache is fuel enough. -/
def evict (nMaxCacheSize : ℤ) (randomHash : ℕ → UInt256) : ℕ → CSignatureCache → CSignatureCache
  | 0, setValid => setValid
  | fuel+1, setValid =>
    if nMaxCacheSize < setValid.toList.length then evict nMaxCacheSize randomHash fuel (setValid.evictOne (randomHash fuel))
    else setValid

def set (nMaxCacheSize : ℤ) (randomHash : ℕ → UInt256) (e : Sigdata) : CSignatureCache :=
  if nMaxCacheSize ≤ 0 then setValid
  else (evict nMaxCacheSize randomHash setValid.toList.length setValid).insert e

end CSignatureCache

/-- The arguments of CheckSig, with the memory that its key object takes. -/
structure Call where
  vchSig : List UInt8
  vchPubKey : List UInt8
  scriptCode : CScript
  txTo : CTransaction
  nIn : ℕ
  nHashType : ℤ
  flags : UInt32
  memory : CPubKey

variable (P : Params) (ecdsa : List UInt8 → UInt256 → List UInt8 → Bool)

def Sigdata.verify (e : Sigdata) : Bool := e.pubkey.isValid && ecdsa e.pubkey.data e.hash e.vchSig

/-- What a call has to check, unless it fails before. Hash type zero stands for the one of
the signature. -/
def Call.sigdata (c : Call) : Option Sigdata :=
  let pubkey := c.memory.set c.vchPubKey
  if !pubkey.isValid then none
  else match c.vchSig.getLast? with
    | none => none
    | some last =>
      if c.nHashType ≠ 0 && c.nHashType ≠ last.toNat then none
      else some ⟨Consensus.signatureHash P c.scriptCode c.txTo c.nIn last.toNat,c.vchSig.dropLast,pubkey⟩

/-- The answer without the cache. -/
def Call.verifies (c : Call) : Bool := (c.sigdata P).any (Sigdata.verify ecdsa)

/-- The answer, or the entry that is to be remembered first. -/
def Call.lookup (c : Call) (setValid : CSignatureCache) : Bool ⊕ Sigdata :=
  match c.sigdata P with
  | none => .inl false
  | some e =>
    if setValid.get e then .inl true
    else if !e.verify ecdsa then .inl false
    else if c.flags &&& Flags.NOCACHE = 0 then .inr e
    else .inl true

/-- A call that no other one interrupts. -/
def checkSig (nMaxCacheSize : ℤ) (randomHash : ℕ → UInt256) (c : Call)
    (setValid : CSignatureCache) :
    Bool × CSignatureCache :=
  match c.lookup P ecdsa setValid with
  | .inl fOk => (fOk,setValid)
  | .inr e => (true,setValid.set nMaxCacheSize randomHash e)

/-- The cache and the calls that have yet to remember their signature, by thread. -/
structure State where
  setValid : CSignatureCache
  waiting : ℕ → Option (Call × Sigdata)

def State.start : State := ⟨.empty,fun _ => none⟩

/-- What a thread does at a time: each takes the lock of the cache once. -/
inductive Event
  | call (thread : ℕ) (c : Call)
  | remember (thread : ℕ) (nMaxCacheSize : ℤ) (randomHash : ℕ → UInt256)

/-- The call that is answered, if one is. A thread makes one call at a time. -/
def State.exec (s : State) : Event → Option (Option (Call × Bool) × State)
  | .call thread c =>
    if (s.waiting thread).isSome then none
    else match c.lookup P ecdsa s.setValid with
      | .inl fOk => some (some (c,fOk),s)
      | .inr e => some (none,{ s with waiting := Function.update s.waiting thread (some (c,e)) })
  | .remember thread nMaxCacheSize randomHash =>
    (s.waiting thread).map fun w =>
      (some (w.1,true),⟨s.setValid.set nMaxCacheSize randomHash w.2,Function.update s.waiting thread none⟩)

def answers (events : List Event) : List (Call × Bool) :=
  (Runs.trace (State.exec P ecdsa) .start events).1.filterMap id

/-- The answers to calls that are made one after the other, each with its own limit and
random numbers, and the cache after them. -/
def checkSigs : List (ℤ × (ℕ → UInt256) × Call) → CSignatureCache → List Bool
  | [], _ => []
  | (nMaxCacheSize,randomHash,c)::calls, setValid =>
    let r := checkSig P ecdsa nMaxCacheSize randomHash c setValid
    r.1::checkSigs calls r.2

open CSignatureCache List Option

variable {P} {ecdsa} {setValid : CSignatureCache} {s t : State}

/-- The entry is found by its key, and the key determines whether it verifies. -/
theorem verify_of_key_eq {e e' : Sigdata} (h : e.key = e'.key) :
    e.verify ecdsa = e'.verify ecdsa := by
  have hbytes : Function.Injective (map UInt8.toNat) :=
    map_injective_iff.mpr fun a b hab => UInt8.toNat_inj.mp hab
  obtain ⟨hhash,hrest⟩ := Prod.mk.inj (toLex_inj.mp h)
  obtain ⟨hsig,hrest⟩ := Prod.mk.inj (toLex_inj.mp hrest)
  obtain ⟨hheader,hdata⟩ := Prod.mk.inj (toLex_inj.mp hrest)
  have hsize : e.pubkey.size = e'.pubkey.size := by
    rw [CPubKey.size,CPubKey.size,UInt8.toNat_inj.mp hheader]
  rw [Sigdata.verify,Sigdata.verify,CPubKey.isValid,CPubKey.isValid,hsize,
    BitVec.eq_of_toNat_eq hhash,hbytes hsig,
    hbytes hdata]

/-- Every signature that is remembered is good. -/
def Verified (ecdsa : List UInt8 → UInt256 → List UInt8 → Bool) (setValid : CSignatureCache) :
    Prop :=
  ∀ e ∈ setValid.toList, e.verify ecdsa = true

theorem Verified.get (h : Verified ecdsa setValid) {e : Sigdata} (he : setValid.get e) :
    e.verify ecdsa := by
  obtain ⟨e',he',hkey⟩ := mem_map.mp ((setValid.contains_iff e.key).mp he)
  rw [← verify_of_key_eq hkey]
  exact h e' he'

theorem Verified.evictOne (h : Verified ecdsa setValid) (randomHash) :
    Verified ecdsa (setValid.evictOne randomHash) := by
  rw [CSignatureCache.evictOne]
  split
  · exact h
  · exact fun e he => h e (SortedSet.mem_eraseKey he)

theorem Verified.evict (h : Verified ecdsa setValid) (nMaxCacheSize randomHash fuel) :
    Verified ecdsa (evict nMaxCacheSize randomHash fuel setValid) := by
  induction fuel generalizing setValid with
  | zero => exact h
  | succ fuel ih =>
    rw [evict]
    split_ifs
    · exact ih (h.evictOne (randomHash fuel))
    · exact h

theorem Verified.set (h : Verified ecdsa setValid) {e} (he : e.verify ecdsa)
    (nMaxCacheSize randomHash) : Verified ecdsa (setValid.set nMaxCacheSize randomHash e) := by
  rw [CSignatureCache.set]
  split_ifs
  · exact h
  · intro x hx
    rcases SortedSet.mem_insert hx with rfl | hx
    · exact he
    · exact h.evict nMaxCacheSize randomHash _ x hx

theorem length_evictOne (hne : setValid.toList ≠ []) (randomHash) :
    (setValid.evictOne randomHash).toList.length = setValid.toList.length-1 := by
  rw [evictOne]
  cases hlow : setValid.lowerBound (Sigdata.mk randomHash [] unused).key with
  | some it => exact SortedSet.length_eraseKey (SortedSet.mem_lowerBound hlow)
  | none =>
    rw [none_or,head?_eq_some_head hne]
    exact SortedSet.length_eraseKey (head_mem hne)

theorem length_evict {nMaxCacheSize : ℤ} (hmax : 0 ≤ nMaxCacheSize) (randomHash) {fuel : ℕ}
    (hfuel : setValid.toList.length ≤ fuel+nMaxCacheSize) :
    ((evict nMaxCacheSize randomHash fuel setValid).toList.length : ℤ) ≤ nMaxCacheSize := by
  induction fuel generalizing setValid with
  | zero =>
    rw [evict]
    simpa using hfuel
  | succ fuel ih =>
    rw [evict]
    split_ifs with hlt
    · have hpos : 0 < setValid.toList.length := by omega
      refine ih ?_
      rw [length_evictOne (length_pos_iff.mp hpos)]
      omega
    · omega

/-- What a look-up in a cache of good signatures can give. -/
theorem lookup_spec (h : Verified ecdsa setValid) (c : Call) :
    c.lookup P ecdsa setValid = .inl (c.verifies P ecdsa) ∨
      ∃ e, c.lookup P ecdsa setValid = .inr e ∧ e.verify ecdsa ∧ c.verifies P ecdsa := by
  rw [Call.lookup,Call.verifies]
  cases c.sigdata P with
  | none => exact .inl rfl
  | some e =>
    dsimp only
    rw [any_some]
    split_ifs with hget hfails hcache
    · exact .inl (by rw [h.get hget])
    · exact .inl (by rw [(Bool.not_eq_true' _).mp hfails])
    · exact .inr ⟨e,rfl,by simpa using hfails,by simpa using hfails⟩
    · exact .inl (by rw [show e.verify ecdsa by simpa using hfails])

theorem checkSig_spec (h : Verified ecdsa setValid) (nMaxCacheSize randomHash) (c : Call) :
    (checkSig P ecdsa nMaxCacheSize randomHash c setValid).1 = c.verifies P ecdsa ∧
      Verified ecdsa (checkSig P ecdsa nMaxCacheSize randomHash c setValid).2 := by
  rw [checkSig]
  rcases lookup_spec (P := P) h c with hlook | ⟨e,hlook,he,hc⟩
  · rw [hlook]
    exact ⟨rfl,h⟩
  · rw [hlook]
    exact ⟨hc.symm,h.set he nMaxCacheSize randomHash⟩

theorem checkSigs_eq (h : Verified ecdsa setValid) (calls) :
    checkSigs P ecdsa calls setValid = calls.map fun c => c.2.2.verifies P ecdsa := by
  induction calls generalizing setValid with
  | nil => rfl
  | cons c calls ih =>
    obtain ⟨hanswer,hnext⟩ := checkSig_spec (P := P) h c.1 c.2.1 c.2.2
    rw [map_cons,← hanswer,← ih hnext]
    rfl

structure State.Good (P : Params) (ecdsa : List UInt8 → UInt256 → List UInt8 → Bool) (s : State) :
    Prop where
  verified : Verified ecdsa s.setValid
  waiting : ∀ thread c e, s.waiting thread = some (c,e) → e.verify ecdsa = true ∧ c.verifies P ecdsa = true

theorem waiting_update {waiting w}
    (h : ∀ thread c e, waiting thread = some (c,e) → e.verify ecdsa ∧ c.verifies P ecdsa)
    (hw : ∀ c e, w = some (c,e) → e.verify ecdsa ∧ c.verifies P ecdsa) (thread thread' : ℕ)
    (c : Call) (e : Sigdata) (heq : Function.update waiting thread w thread' = some (c,e)) :
    e.verify ecdsa ∧ c.verifies P ecdsa := by
  by_cases hthread : thread' = thread
  · rw [hthread,Function.update_self] at heq
    exact hw c e heq
  · rw [Function.update_of_ne hthread] at heq
    exact h thread' c e heq

theorem State.Good.exec (h : s.Good P ecdsa) {event o} (hexec : s.exec P ecdsa event = some (o,t)) :
    t.Good P ecdsa ∧ ∀ a ∈ o, a.2 = a.1.verifies P ecdsa := by
  cases event with
  | call thread c =>
    rw [State.exec] at hexec
    split_ifs at hexec
    rcases lookup_spec (P := P) h.verified c with hlook | ⟨e,hlook,he,hc⟩
    · rw [hlook] at hexec
      cases hexec
      exact ⟨h,fun a ha => by rw [← some.inj ha]⟩
    · rw [hlook] at hexec
      cases hexec
      refine ⟨⟨h.verified,waiting_update h.waiting (fun c' e' hw => ?_) thread⟩,fun a ha => by cases ha⟩
      cases hw
      exact ⟨he,hc⟩
  | remember thread nMaxCacheSize randomHash =>
    rw [State.exec] at hexec
    obtain ⟨⟨c,e⟩,hw,heq⟩ := map_eq_some_iff.mp hexec
    cases heq
    obtain ⟨he,hc⟩ := h.waiting thread c e hw
    refine ⟨⟨h.verified.set he nMaxCacheSize randomHash,waiting_update h.waiting (fun c' e' hw' => ?_) thread⟩,
      fun a ha => ?_⟩
    · cases hw'
    · rw [← some.inj ha]
      exact hc.symm

theorem verified_empty : Verified ecdsa .empty := fun e he => by cases he

theorem State.good_start : State.start.Good P ecdsa := ⟨verified_empty,fun _ _ _ hw => by cases hw⟩

theorem State.Good.trace (h : s.Good P ecdsa) (events) :
    ∀ o ∈ (Runs.trace (State.exec P ecdsa) s events).1, ∀ a ∈ o, a.2 = a.1.verifies P ecdsa := by
  induction events generalizing s with
  | nil =>
    intro o ho
    cases ho
  | cons event events ih =>
    intro o ho
    rw [Runs.trace] at ho
    cases hexec : s.exec P ecdsa event with
    | none => simp [hexec] at ho
    | some r =>
      obtain ⟨o',t⟩ := r
      obtain ⟨hgood,hanswer⟩ := h.exec hexec
      rw [hexec] at ho
      rcases mem_cons.mp ho with rfl | ho
      · exact hanswer
      · exact ih hgood o ho

/-- Whatever threads do in whatever order, the cache has at most one entry more than its limits. -/
theorem length_setValid_le {N : ℕ} (hs : s.setValid.toList.length ≤ N+1) {events}
    (hlimit : ∀ thread n randomHash, .remember thread n randomHash ∈ events → n ≤ (N : ℤ))
    (ht : (Runs.trace (State.exec P ecdsa) s events).2 = some t) :
    t.setValid.toList.length ≤ N+1 := by
  induction events generalizing s with
  | nil =>
    cases ht
    exact hs
  | cons event events ih =>
    rw [Runs.trace] at ht
    cases hexec : s.exec P ecdsa event with
    | none => simp [hexec] at ht
    | some r =>
      rw [hexec] at ht
      refine ih ?_ (fun _ _ _ he => hlimit _ _ _ (mem_cons_of_mem _ he)) ht
      cases event with
      | call thread c =>
        rw [State.exec] at hexec
        split_ifs at hexec
        split at hexec <;> cases hexec <;> exact hs
      | remember thread n randomHash =>
        obtain ⟨w,-,rfl⟩ := map_eq_some_iff.mp hexec
        have hn := hlimit _ _ _ mem_cons_self
        dsimp only
        rw [CSignatureCache.set]
        split_ifs with hpos
        · exact hs
        · have hle := @length_evict s.setValid n (by omega) randomHash s.setValid.toList.length (by omega)
          exact (SortedSet.length_insertSorted_le ..).trans (by omega)

namespace Sample

def entry (hash : UInt256) : Sigdata := ⟨hash,[],unused⟩

/-- A cache with one entry more than its limit. -/
def overfull : CSignatureCache := (SortedSet.empty.insert (entry 1)).insert (entry 2)

end Sample

open DarkSilk.SignatureCache.Sample

theorem length_setValid_le_one : overfull.toList.length = 2 ∧
    (overfull.set 1 (fun _ => 0) (entry 3)).toList.map Sigdata.hash = [2,3] ∧
    (overfull.set 1 (fun _ => 0) (entry 3)).toList.length ≤ 1+1 :=
  ⟨by decide +kernel,by decide +kernel,@length_setValid_le DarkSilk.Sample.signParams (fun _ _ _ => true)
    ⟨overfull,fun _ => some (⟨[],[],[],DarkSilk.Sample.signedPay,0,0,0,unused⟩,entry 3)⟩ ⟨_,_⟩ 1
    (by decide +kernel) [.remember 0 1 fun _ => 0] (by simp +contextual) rfl⟩

end SignatureCache

open SignatureCache

/-- The cache changes no answer, whatever the limits and the evictions are: not for calls of
several threads whose accesses to the cache come in any order, and not for calls one after
the other. -/
theorem signatureCache_transparent (P : Params) (ecdsa : List UInt8 → UInt256 → List UInt8 → Bool) :
    (∀ events, answers P ecdsa events = (answers P ecdsa events).map fun a =>
      (a.1,a.1.verifies P ecdsa)) ∧
      ∀ calls, checkSigs P ecdsa calls .empty = calls.map fun c => c.2.2.verifies P ecdsa := by
  refine ⟨fun events => ?_,fun calls => checkSigs_eq verified_empty calls⟩
  conv_lhs => rw [← List.map_id (answers P ecdsa events)]
  refine List.map_congr_left fun a ha => ?_
  obtain ⟨o,ho,hoa⟩ := List.mem_filterMap.mp ha
  exact Prod.ext rfl (State.good_start.trace events o ho a hoa)

end DarkSilk
