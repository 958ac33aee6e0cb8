import DarkSilk.SecureMessage

/-! What becomes of the messages of one bunch. The loop takes them one after the other as
long as they are valid, timely and new, and comes to no other one after that. -/
namespace DarkSilk
namespace Smsg

open ByteReads PrefixCode

variable {H : Hashes} {E : SmsgEnv} {v : Buffer} {b : Buckets}

section

variable {time t : ℤ} {k : ℤ ×ₗ ℕ}

theorem Buckets.getElem?_insert (b : Buckets) (time t x) :
    (b.insert time x)[t]? = if time = t then some x else b[t]? := by
  rw [Std.ExtTreeMap.getElem?_insert]
  simp only [Std.LawfulEqCmp.compare_eq_iff_eq]

theorem Buckets.at_insert (b : Buckets) (time t x) :
    Buckets.at (b.insert time x) t = if time = t then x else b.at t := by
  rw [Buckets.at,Buckets.getElem?_insert]
  split_ifs <;> rfl

@[simp] theorem Buckets.at_touch (b : Buckets) (time t) : (b.touch time).at t = b.at t := by
  rw [Buckets.touch,Buckets.at_insert]
  split_ifs with h
  · rw [h]
  · rfl

@[simp] theorem Buckets.has_touch (b : Buckets) (time t) (k : ℤ ×ₗ ℕ) :
    (b.touch time).has t k = b.has t k := by
  rw [Buckets.has,Buckets.has,Buckets.at_touch]

def tokenAt (E : SmsgEnv) (v : Buffer) (pHeader pPayload : ℕ) (nPayload : UInt32) : SecMsgToken :=
  ⟨i64 v (pHeader+7),(tokenSample v pPayload nPayload).value,
    E.ftell (i64 v (pHeader+7)) (tokenSample v pPayload nPayload).value⟩

def SecMsgBucket.add (x : SecMsgBucket) (token : SecMsgToken) : SecMsgBucket :=
  { x with setTokens := x.setTokens.insert token }

@[mk_iff] structure Storable (E : SmsgEnv) (token : SecMsgToken) (b : Buckets) : Prop where
  createDirectory : E.createDirectory = true
  timely : isTimely E token.timestamp = true
  new : b.has (bucketOf token.timestamp) token.key = false
  fopen : E.fopen (bucketOf token.timestamp) = true
  fwrite : E.fwrite (bucketOf token.timestamp) = true

instance (E : SmsgEnv) (token : SecMsgToken) (b : Buckets) : Decidable (Storable E token b) :=
  decidable_of_iff' _ (storable_iff E token b)

@[simp] theorem value_readI64 (v offset) : (readI64 v offset).value = i64 v offset := rfl
@[simp] theorem value_readU32 (v offset) : (readU32 v offset).value = u32 v offset := rfl

theorem storeToken_value (H E v pHeader pPayload nPayload fUpdateBucket token) (b : Buckets) :
    (storeToken H E v pHeader pPayload nPayload fUpdateBucket token b).value =
      if b.has (bucketOf token.timestamp) token.key then (1,b)
      else if !E.fopen (bucketOf token.timestamp) then (1,b)
      else if !E.fwrite (bucketOf token.timestamp) then (1,b)
      else (0,b.insert (bucketOf token.timestamp) (if fUpdateBucket then
        ((b.at (bucketOf token.timestamp)).add token).hashBucket H E.now
          else (b.at (bucketOf token.timestamp)).add token)) := by
  unfold storeToken
  simp only [value_ite,value_bind,value_pure]
  rfl

theorem secureMsgStore_cases (H) {pHeader pPayload nPayload} (fUpdateBucket) (b : Buckets) {token}
    (htoken : tokenAt E v pHeader pPayload nPayload = token) {r}
    (hr : (secureMsgStore H E v pHeader pPayload nPayload fUpdateBucket b).value = r) :
    (¬ Storable E token b ∧ r.1 = 1 ∧ (r.2 = b ∨ (E.createDirectory ∧ isTimely E token.timestamp) ∧
        r.2 = b.touch (bucketOf token.timestamp))) ∨
    (Storable E token b ∧ r = (0,(b.touch (bucketOf token.timestamp)).insert
      (bucketOf token.timestamp)
      (if fUpdateBucket then ((b.at (bucketOf token.timestamp)).add token).hashBucket H E.now
        else (b.at (bucketOf token.timestamp)).add token))) := by
  have hval : (secureMsgStore H E v pHeader pPayload nPayload fUpdateBucket b).value =
      if !E.createDirectory then (1,b) else if !isTimely E token.timestamp then (1,b)
      else (storeToken H E v pHeader pPayload nPayload fUpdateBucket token (b.touch (bucketOf token.timestamp))).value := by
    subst htoken
    rw [secureMsgStore,value_ite]
    congr 1
    exact value_ite _ _
  rw [hr,storeToken_value,Buckets.has_touch,Buckets.at_touch] at hval
  by_cases hdir : E.createDirectory
  swap
  · rw [if_pos (by simpa using hdir)] at hval
    exact .inl ⟨fun h => hdir h.createDirectory,congrArg Prod.fst hval,.inl (congrArg Prod.snd hval)⟩
  by_cases htime : isTimely E token.timestamp
  swap
  · rw [if_neg (by simpa using hdir),if_pos (by simpa using htime)] at hval
    exact .inl ⟨fun h => htime h.timely,congrArg Prod.fst hval,.inl (congrArg Prod.snd hval)⟩
  rw [if_neg (by simpa using hdir),if_neg (by simpa using htime)] at hval
  -- from here on the bucket exists
  have hrefused : (¬ Storable E token b) → r = (1,b.touch (bucketOf token.timestamp)) →
      ¬ Storable E token b ∧ r.1 = 1 ∧ (r.2 = b ∨ (E.createDirectory ∧ isTimely E token.timestamp) ∧
          r.2 = b.touch (bucketOf token.timestamp)) :=
    fun hno heq => ⟨hno,congrArg Prod.fst heq,.inr ⟨⟨hdir,htime⟩,congrArg Prod.snd heq⟩⟩
  by_cases hnew : b.has (bucketOf token.timestamp) token.key
  · rw [if_pos hnew] at hval
    exact .inl (hrefused (fun h => by simp [h.new] at hnew) hval)
  by_cases hopen : E.fopen (bucketOf token.timestamp)
  swap
  · rw [if_neg hnew,if_pos (by simpa using hopen)] at hval
    exact .inl (hrefused (fun h => hopen h.fopen) hval)
  by_cases hwrite : E.fwrite (bucketOf token.timestamp)
  swap
  · rw [if_neg hnew,if_neg (by simpa using hopen),if_pos (by simpa using hwrite)] at hval
    exact .inl (hrefused (fun h => hwrite h.fwrite) hval)
  rw [if_neg hnew,if_neg (by simpa using hopen),if_neg (by simpa using hwrite)] at hval
  exact .inr ⟨⟨hdir,htime,by simpa using hnew,hopen,hwrite⟩,hval⟩

end

section

variable {i j N : ℕ}

/-- Where the messages of a bunch begin, as far as the loop adds it up. -/
def msgStart (v : Buffer) : ℕ → UInt32
  | 0 => 12
  | i+1 => msgStart v i+(104+u32 v ((msgStart v i).toNat+100))

def msgPayload (v : Buffer) (i : ℕ) : UInt32 := u32 v ((msgStart v i).toNat+100)

def msgToken (E : SmsgEnv) (v : Buffer) (i : ℕ) : SecMsgToken :=
  tokenAt E v (msgStart v i).toNat (msgStart v i+104).toNat (msgPayload v i)

def msgValid (H : Hashes) (v : Buffer) (i : ℕ) : Bool :=
  (secureMsgValidate H v (msgStart v i).toNat (msgStart v i+104).toNat (msgPayload v i)).value = 0

/-- A bunch of so many messages that are all inside the buffer. -/
def CompleteBunch (v : Buffer) (N : ℕ) : Prop :=
  ∀ i < N, (msgStart v i).toNat+SMSG_HDR_LEN+(msgPayload v i).toNat ≤ v.size

instance (v : Buffer) (N : ℕ) : Decidable (CompleteBunch v N) :=
  inferInstanceAs (Decidable (∀ _ < N, _))

/-- The message is valid, timely, in no bucket and no copy of an earlier one of the bunch,
and its file can be written. -/
@[mk_iff] structure Good (H : Hashes) (E : SmsgEnv) (v : Buffer) (b : Buckets) (i : ℕ) : Prop where
  valid : msgValid H v i = true
  storable : Storable E (msgToken E v i) b
  first : ∀ j < i, (msgToken E v j).key ≠ (msgToken E v i).key

instance (H : Hashes) (E : SmsgEnv) (v : Buffer) (b : Buckets) (i : ℕ) :
    Decidable (Good H E v b i) :=
  decidable_of_iff' _ (good_iff H E v b i)

/-- The buckets after the first messages, if all of them are stored. -/
def bunchState (H : Hashes) (E : SmsgEnv) (v : Buffer) (b : Buckets) : ℕ → Buckets
  | 0 => b
  | i+1 => (secureMsgStore H E v (msgStart v i).toNat (msgStart v i+104).toNat (msgPayload v i) false
      (bunchState H E v b i)).value.2

theorem bucketOf_eq_of_key_eq {t t' : SecMsgToken} (h : t.key = t'.key) :
    bucketOf t.timestamp = bucketOf t'.timestamp := by
  have htime : t.timestamp = t'.timestamp := congrArg (fun k => (ofLex k).1) h
  rw [htime]

theorem Buckets.has_add (b : Buckets) (token t) (k : ℤ ×ₗ ℕ) :
    Buckets.has ((b.touch (bucketOf token.timestamp)).insert (bucketOf token.timestamp)
      ((b.at (bucketOf token.timestamp)).add token)) t k ↔
      b.has t k ∨ bucketOf token.timestamp = t ∧ token.key = k := by
  rw [Buckets.has,Buckets.at_insert]
  split_ifs with ht
  · subst ht
    rw [SecMsgBucket.add,SortedSet.contains_insert]
    simp only [Buckets.has,true_and]
    exact ⟨fun h => h.symm.imp_right Eq.symm,fun h => h.symm.imp_left Eq.symm⟩
  · simp only [Buckets.at_touch,Buckets.has,ht,false_and,or_false]

theorem bunchState_succ (h : Storable E (msgToken E v i) (bunchState H E v b i)) :
    bunchState H E v b (i+1) = ((bunchState H E v b i).touch
      (bucketOf (msgToken E v i).timestamp)).insert
      (bucketOf (msgToken E v i).timestamp)
      (((bunchState H E v b i).at (bucketOf (msgToken E v i).timestamp)).add (msgToken E v i)) := by
  rcases secureMsgStore_cases H false (bunchState H E v b i) (rfl : _ = msgToken E v i) rfl with ⟨hno,-⟩ | ⟨-,hr⟩
  · exact absurd h hno
  · rw [bunchState,hr]
    rfl

theorem bunchState_has (hgood : ∀ j < i, Good H E v b j) (t) (k : ℤ ×ₗ ℕ) :
    (bunchState H E v b i).has t k ↔ b.has t k ∨
      ∃ j < i, bucketOf (msgToken E v j).timestamp = t ∧ (msgToken E v j).key = k := by
  induction i generalizing t k with
  | zero => simp [bunchState]
  | succ i ih =>
    have ih := ih fun j hj => hgood j (by omega)
    have hi := hgood i (by omega)
    have hstorable : Storable E (msgToken E v i) (bunchState H E v b i) := by
      refine { hi.storable with new := ?_ }
      rw [← Bool.not_eq_true,ih,not_or]
      refine ⟨by simpa using hi.storable.new,?_⟩
      rintro ⟨j,hj,-,hk⟩
      exact hi.first j hj hk
    rw [bunchState_succ hstorable,Buckets.has_add,ih,or_assoc]
    apply or_congr_right
    constructor
    · rintro (⟨j,hj,h⟩ | h)
      · exact ⟨j,by omega,h⟩
      · exact ⟨i,by omega,h⟩
    · rintro ⟨j,hj,h⟩
      rcases Nat.lt_succ_iff_lt_or_eq.mp hj with hj | rfl
      · exact .inl ⟨j,hj,h⟩
      · exact .inr h

theorem storable_bunchState_iff (hgood : ∀ j < i, Good H E v b j) :
    Storable E (msgToken E v i) (bunchState H E v b i) ↔
      Storable E (msgToken E v i) b ∧ ∀ j < i, (msgToken E v j).key ≠ (msgToken E v i).key := by
  have hnew : (bunchState H E v b i).has (bucketOf (msgToken E v i).timestamp) (msgToken E v i).key = false ↔
      b.has (bucketOf (msgToken E v i).timestamp) (msgToken E v i).key = false ∧
        ∀ j < i, (msgToken E v j).key ≠ (msgToken E v i).key := by
    rw [← Bool.not_eq_true,bunchState_has hgood,not_or,Bool.not_eq_true]
    apply and_congr_right
    intro _
    constructor
    · exact fun h j hj hk => h ⟨j,hj,bucketOf_eq_of_key_eq hk,hk⟩
    · rintro h ⟨j,hj,-,hk⟩
      exact h j hj hk
  constructor
  · exact fun h => ⟨{ h with new := (hnew.mp h.new).1 },(hnew.mp h.new).2⟩
  · exact fun h => { h.1 with new := hnew.mpr ⟨h.1.new,h.2⟩ }

theorem good_succ (hgood : ∀ j < i, Good H E v b j) (hvalid : msgValid H v i)
    (hyes : Storable E (msgToken E v i) (bunchState H E v b i)) : ∀ j < i+1, Good H E v b j := by
  obtain ⟨hstorable,hfirst⟩ := (storable_bunchState_iff hgood).mp hyes
  intro j hj
  rcases Nat.lt_succ_iff_lt_or_eq.mp hj with hj | rfl
  · exact hgood j hj
  · exact ⟨hvalid,hstorable,hfirst⟩

theorem storable_of_good (hgood : ∀ j < i, Good H E v b j) (h : Good H E v b i) :
    Storable E (msgToken E v i) (bunchState H E v b i) :=
  (storable_bunchState_iff hgood).mpr ⟨h.storable,h.first⟩

theorem toNat_msgStart_succ (hsize : v.size ≤ MAX_PROTOCOL_MESSAGE_LENGTH)
    (hfit : (msgStart v i).toNat+SMSG_HDR_LEN+(msgPayload v i).toNat ≤ v.size) :
    (msgStart v (i+1)).toNat = (msgStart v i).toNat+SMSG_HDR_LEN+(msgPayload v i).toNat := by
  have h : (msgStart v (i+1)).toNat = ((msgStart v i).toNat+(104+(msgPayload v i).toNat)%2^32)%2^32 := by
    rw [msgStart,UInt32.toNat_add,UInt32.toNat_add]
    rfl
  unfold MAX_PROTOCOL_MESSAGE_LENGTH at hsize
  unfold SMSG_HDR_LEN at hfit ⊢
  omega

theorem toNat_rest (hsize : v.size ≤ MAX_PROTOCOL_MESSAGE_LENGTH) {n : UInt32}
    (hn : n.toNat ≤ v.size) :
    (UInt64.ofNat v.size-n.toUInt64).toNat = v.size-n.toNat := by
  have hlt : v.size < 2^64 := lt_of_le_of_lt hsize (by decide)
  have hle : n.toUInt64 ≤ UInt64.ofNat v.size := by
    rw [UInt64.le_iff_toNat_le,UInt64.toNat_ofNat_of_lt' hlt]
    simpa using hn
  rw [UInt64.toNat_sub_of_le _ _ hle,UInt64.toNat_ofNat_of_lt' hlt]
  simp

section

variable {n : UInt32} {k m : ℕ} {c : Buckets} (hrest : ¬ (UInt64.ofNat v.size-n.toUInt64).toNat < SMSG_HDR_LEN)

include hrest

/-- After an invalid message the loop stays where it is. -/
theorem receiveLoop_invalid
    (hval : (secureMsgValidate H v n.toNat (n+104).toNat (u32 v (n.toNat+100))).value ≠ 0) :
    ∃ m', (receiveLoop H E v (k+1) n m c).value = (receiveLoop H E v k n m' c).value := by
  refine ⟨m+if (secureMsgValidate H v n.toNat (n+104).toNat (u32 v (n.toNat+100))).value = 2 then 10 else 1,?_⟩
  rw [receiveLoop,if_neg hrest,value_bind,value_readU32,value_bind]
  exact congrArg Logged.value (if_pos hval)

theorem receiveLoop_refused
    (hval : (secureMsgValidate H v n.toNat (n+104).toNat (u32 v (n.toNat+100))).value = 0) {r}
    (hr : (secureMsgStore H E v n.toNat (n+104).toNat (u32 v (n.toNat+100)) false c).value = r)
    (hno : r.1 ≠ 0) :
    (receiveLoop H E v (k+1) n m c).value = (m,r.2) := by
  rw [receiveLoop,if_neg hrest,value_bind,value_readU32,value_bind]
  apply (congrArg Logged.value (if_neg (not_not.mpr hval))).trans
  rw [value_bind,hr]
  exact congrArg Logged.value (if_pos hno)

theorem receiveLoop_stored
    (hval : (secureMsgValidate H v n.toNat (n+104).toNat (u32 v (n.toNat+100))).value = 0) {r}
    (hr : (secureMsgStore H E v n.toNat (n+104).toNat (u32 v (n.toNat+100)) false c).value = r)
    (hyes : r.1 = 0) :
    (receiveLoop H E v (k+1) n m c).value =
      (receiveLoop H E v k (n+(104+u32 v (n.toNat+100))) m r.2).value := by
  rw [receiveLoop,if_neg hrest,value_bind,value_readU32,value_bind]
  apply (congrArg Logged.value (if_neg (not_not.mpr hval))).trans
  rw [value_bind,hr]
  apply (congrArg Logged.value (if_neg (not_not.mpr hyes))).trans
  -- what the scan finds is not looked at
  rw [value_bind]

theorem receiveLoop_of_invalid
    (hval : (secureMsgValidate H v n.toNat (n+104).toNat (u32 v (n.toNat+100))).value ≠ 0) :
    ((receiveLoop H E v k n m c).value).2 = c := by
  induction k generalizing m with
  | zero => rfl
  | succ k ih =>
    obtain ⟨m',hm'⟩ := receiveLoop_invalid (H := H) (E := E) (k := k) (m := m) (c := c) hrest hval
    rw [hm']
    exact ih

end

/-- Where the loop ends: it has stored the messages before, and at most makes the bucket of
the next one. -/
theorem receiveLoop_cases {k m c} (hN : i+k = N) (hgood : ∀ j < i, Good H E v b j)
    (hc : ((receiveLoop H E v k (msgStart v i) m (bunchState H E v b i)).value).2 = c) :
    ∃ l ≤ N, (∀ j < l, Good H E v b j) ∧
      (l < N → Good H E v b l → (UInt64.ofNat v.size-(msgStart v l).toUInt64).toNat <
        SMSG_HDR_LEN) ∧
      (c = bunchState H E v b l ∨ (l < N ∧ msgValid H v l ∧ isTimely E (msgToken E v l).timestamp) ∧
        c = (bunchState H E v b l).touch (bucketOf (msgToken E v l).timestamp)) := by
  induction k generalizing i m with
  | zero => exact ⟨i,by omega,hgood,fun h => by omega,.inl hc.symm⟩
  | succ k ih =>
    by_cases hrest : (UInt64.ofNat v.size-(msgStart v i).toUInt64).toNat < SMSG_HDR_LEN
    · rw [receiveLoop,if_pos hrest] at hc
      exact ⟨i,by omega,hgood,fun _ _ => hrest,.inl hc.symm⟩
    by_cases hval : (secureMsgValidate H v (msgStart v i).toNat (msgStart v i+104).toNat
      (msgPayload v i)).value = 0
    swap
    · rw [receiveLoop_of_invalid hrest hval] at hc
      refine ⟨i,by omega,hgood,fun _ h => absurd ?_ hval,.inl hc.symm⟩
      simpa [msgValid] using h.valid
    have hvalid : msgValid H v i := by simpa [msgValid] using hval
    rcases secureMsgStore_cases H false (bunchState H E v b i) (rfl : _ = msgToken E v i) rfl
      with ⟨hno,hone,hr⟩ | ⟨hyes,hr⟩
    · rw [receiveLoop_refused hrest hval rfl (by rw [msgPayload] at hone; omega)] at hc
      refine ⟨i,by omega,hgood,fun _ h => absurd (storable_of_good hgood h) hno,?_⟩
      rcases hr with hr | ⟨⟨-,htime⟩,hr⟩
      · exact .inl (hc.symm.trans hr)
      · exact .inr ⟨⟨by omega,hvalid,htime⟩,hc.symm.trans hr⟩
    · rw [receiveLoop_stored hrest hval rfl (congrArg Prod.fst hr)] at hc
      exact ih (i := i+1) (by omega) (good_succ hgood hvalid hyes) hc

/-- The tokens after the loop: those of the messages of which none before was left out. -/
theorem receiveLoop_has (hsize : v.size ≤ MAX_PROTOCOL_MESSAGE_LENGTH) (hfit : CompleteBunch v N)
    {m : ℕ} (t) (key : ℤ ×ₗ ℕ) :
    ((receiveLoop H E v N 12 m b).value).2.has t key ↔ b.has t key ∨
      ∃ j < N, (∀ l ≤ j, Good H E v b l) ∧ bucketOf (msgToken E v j).timestamp = t ∧
      (msgToken E v j).key = key := by
  obtain ⟨l,hl,hgood,hend,hc⟩ :=
    receiveLoop_cases (H := H) (E := E) (b := b) (i := 0) (m := m) (Nat.zero_add N) (by simp) rfl
  have hsame : ((receiveLoop H E v N 12 m b).value).2.has t key = (bunchState H E v b l).has t key := by
    rcases hc with hc | ⟨-,hc⟩
    · exact congrArg (fun c : Buckets => c.has t key) hc
    · exact (congrArg (fun c : Buckets => c.has t key) hc).trans (Buckets.has_touch _ _ _ _)
  rw [hsame,bunchState_has hgood]
  apply or_congr_right
  constructor
  · rintro ⟨j,hj,h⟩
    exact ⟨j,by omega,fun l' hl' => hgood l' (by omega),h⟩
  · rintro ⟨j,hj,hall,h⟩
    refine ⟨j,?_,h⟩
    -- a complete message does not end the loop
    by_contra hle
    have hrest := hend (by omega) (hall l (by omega))
    have hin := hfit l (by omega)
    rw [toNat_rest hsize (by omega)] at hrest
    omega

theorem secureMsgReceive_has (hsize : 12 ≤ v.size) (htime : isTimely E (i64 v 4))
    (hpos : 0 < (u32 v 0).toNat) (hmax : (u32 v 0).toNat ≤ 500) (t) (key : ℤ ×ₗ ℕ) :
    (secureMsgReceive H E v b).value.buckets.has t key =
      ((receiveLoop H E v (u32 v 0).toNat 12 0 b).value).2.has t key := by
  have hcount : ¬ (u32 v 0 = 0 || u32 v 0 > 500) := by
    simp only [Bool.or_eq_true,decide_eq_true_eq,not_or,UInt32.not_lt,gt_iff_lt]
    refine ⟨fun h => by simp [h] at hpos,?_⟩
    rw [UInt32.le_iff_toNat_le]
    exact hmax
  have hval : (secureMsgReceive H E v b).value.buckets =
      ((receiveLoop H E v (u32 v 0).toNat 12 0 b).value).2[i64 v 4]?.elim
        ((receiveLoop H E v (u32 v 0).toNat 12 0 b).value).2 fun k =>
          ((receiveLoop H E v (u32 v 0).toNat 12 0 b).value).2.insert (i64 v 4)
            ({ k with nLockCount := 0, nLockPeerId := 0 }.hashBucket H E.now) := by
    rw [secureMsgReceive,if_neg (by omega),value_bind,value_readU32,value_bind,value_readI64,
      if_neg (by simpa using htime),if_neg hcount,value_bind]
    generalize (receiveLoop H E v (u32 v 0).toNat 12 0 b).value = r
    obtain ⟨misbehaving,b⟩ := r
    dsimp only
    cases b[i64 v 4]? <;> rfl
  rw [hval]
  cases hk : ((receiveLoop H E v (u32 v 0).toNat 12 0 b).value).2[i64 v 4]? with
  | none => rfl
  | some k =>
    rw [Option.elim_some,Buckets.has,Buckets.at_insert]
    split_ifs with ht
    · rw [Buckets.has,Buckets.at,← ht,hk]
      rfl
    · rfl

theorem secureMsgReceive_untimely (htime : isTimely E (i64 v 4) = false) :
    (secureMsgReceive H E v b).value.buckets = b := by
  rw [secureMsgReceive]
  split_ifs with hsize
  · rfl
  · rw [value_bind,value_readU32,value_bind,value_readI64,if_pos (by simpa using htime)]
    rfl

@[mk_iff] structure Wanted (H : Hashes) (E : SmsgEnv) (v : Buffer) (b : Buckets) (i : ℕ) :
    Prop where
  valid : msgValid H v i = true
  timely : isTimely E (msgToken E v i).timestamp = true
  new : b.has (bucketOf (msgToken E v i).timestamp) (msgToken E v i).key = false

instance (H : Hashes) (E : SmsgEnv) (v : Buffer) (b : Buckets) (i : ℕ) :
    Decidable (Wanted H E v b i) :=
  decidable_of_iff' _ (wanted_iff H E v b i)

theorem smsgMsg_stored_iff (H : Hashes) (E : SmsgEnv) (v : Buffer) (b : Buckets)
    (hsize : v.size ≤ MAX_PROTOCOL_MESSAGE_LENGTH) (hmax : (u32 v 0).toNat ≤ 500)
    (hfit : CompleteBunch v (u32 v 0).toNat) :
    (∀ i < (u32 v 0).toNat, Wanted H E v b i → (secureMsgReceive H E v b).value.buckets.has
      (bucketOf (msgToken E v i).timestamp) (msgToken E v i).key = true) ↔
    ∀ i < (u32 v 0).toNat, Wanted H E v b i → isTimely E (i64 v 4) = true ∧
      ∃ j ≤ i, (msgToken E v j).key = (msgToken E v i).key ∧ ∀ l ≤ j, Good H E v b l := by
  refine forall_congr' fun i => forall_congr' fun hi => forall_congr' fun hwant => ?_
  cases htime : isTimely E (i64 v 4) with
  | false => simp [secureMsgReceive_untimely htime,hwant.new]
  | true =>
    have hfirst := hfit 0 (by omega)
    have h12 : 12 ≤ v.size := by
      have : (msgStart v 0).toNat = 12 := rfl
      omega
    rw [secureMsgReceive_has h12 htime (by omega) hmax,receiveLoop_has hsize hfit]
    simp only [hwant.new,Bool.false_eq_true,false_or,true_and]
    constructor
    · rintro ⟨j,-,hgood,-,hkey⟩
      refine ⟨j,?_,hkey,hgood⟩
      -- a later copy of the message is not new
      by_contra hlt
      exact (hgood j le_rfl).first i (by omega) hkey.symm
    · rintro ⟨j,hj,hkey,hgood⟩
      exact ⟨j,by omega,hgood,bucketOf_eq_of_key_eq hkey,hkey⟩

end

/-! A keyed hash that is a sum of bytes, and messages with the right checksum for it. -/
namespace Sample

def sumBytes (l : List UInt8) : ℕ := (l.map UInt8.toNat).sum

def hashes : Hashes where
  hmac := fun key data => some (leBytes 4 (sumBytes key+sumBytes data)++List.replicate 28 0)
  xxh32 := fun data => UInt32.ofNat (sumBytes data+1)

def env : SmsgEnv where
  now := 1200000
  peerId := 7
  ignoreUntil := 0
  createDirectory := true
  fopen := fun _ => true
  fwrite := fun _ => true
  ftell := fun _ _ => 0
  secureMsgRetrieve := fun _ => none
  isLocked := false
  smsgAddresses := [⟨"own",true,true⟩]
  decrypt := fun _ _ _ payload => if payload.headD 0 = 9 then some "peer" else none
  storeUnscanned := fun _ => true

def message (version : UInt8) (timestamp : ℤ) (byte : UInt8) : List UInt8 :=
  let payload := List.replicate 8 byte
  let rest := [version,1,0]++i64Bytes timestamp++List.replicate 85 0++u32Bytes 8
  leBytes 4 (sumBytes (rest++payload++payload))++rest++payload

def buffer (l : List UInt8) : Buffer := ⟨fun i => l.getD i 0,l.length⟩

def bunch (messages : List (List UInt8)) : Buffer :=
  buffer (u32Bytes (UInt32.ofNat messages.length)++i64Bytes 1200000++messages.flatten)

def twoMessages : Buffer := bunch [message 1 1200001 5,message 1 1200002 6]
def wrongVersionFirst : Buffer := bunch [message 2 1200001 5,message 1 1200002 6]
def copyFirst : Buffer := bunch [message 1 1200001 5,message 1 1200001 5,message 1 1200002 6]

end Sample

open DarkSilk.Smsg.Sample in
theorem smsgMsg_stored_iff_two : (secureMsgReceive hashes env twoMessages ∅).value.buckets.has
    (bucketOf (msgToken env twoMessages 1).timestamp) (msgToken env twoMessages 1).key = true :=
  (smsgMsg_stored_iff hashes env twoMessages ∅ (by decide +kernel) (by decide +kernel) (by decide +kernel)).mpr
    (by decide +kernel) 1 (by decide +kernel) (by decide +kernel)

open DarkSilk.Smsg.Sample in
/-- A valid and timely message is lost behind one of a wrong version, and behind a copy of
another one. -/
theorem smsgMsg_lost :
    (CompleteBunch wrongVersionFirst 2 ∧ u32 wrongVersionFirst 0 = 2 ∧
      Wanted hashes env wrongVersionFirst ∅ 1 ∧
      (secureMsgReceive hashes env wrongVersionFirst ∅).value.buckets.has
        (bucketOf (msgToken env wrongVersionFirst 1).timestamp)
          (msgToken env wrongVersionFirst 1).key = false) ∧
    CompleteBunch copyFirst 3 ∧ u32 copyFirst 0 = 3 ∧ Wanted hashes env copyFirst ∅ 2 ∧
      (secureMsgReceive hashes env copyFirst ∅).value.buckets.has
        (bucketOf (msgToken env copyFirst 2).timestamp) (msgToken env copyFirst 2).key = false := by
  decide +kernel

end Smsg
end DarkSilk
