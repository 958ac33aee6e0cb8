import DarkSilk.Runs
import DarkSilk.SmsgBunch

/-! The buckets over the runs of a node. A bucket is in order if its time is a multiple of
the length of a bucket, its tokens belong to it and its hash is the one of its tokens. The
order is kept as long as no peer names a bucket that is not there and the messages of a
bunch are all of the bucket that the bunch names. -/
namespace DarkSilk
namespace Smsg

open Std ByteReads Runs Option

variable {H : Hashes} {b : Buckets} {t : ℤ} {E : SmsgEnv} {v : Buffer}

variable {time : ℤ} {k x : SecMsgBucket} {stale : Set ℤ}

structure Placed (time : ℤ) (k : SecMsgBucket) : Prop where
  multiple : SMSG_BUCKET_LEN ∣ time
  tokens : ∀ token ∈ k.setTokens.toList, bucketOf token.timestamp = time

/-- The stored hash is the hash of the samples in order. -/
def Hashed (H : Hashes) (k : SecMsgBucket) : Prop :=
  k.hash = H.xxh32 (k.setTokens.toList.flatMap fun token => sampleBytes token.sample)

instance (H : Hashes) (k : SecMsgBucket) : Decidable (Hashed H k) :=
  inferInstanceAs (Decidable (_ = _))

/-- The buckets are in order, but for the hashes of some of them. -/
def OkExcept (H : Hashes) (stale : Set ℤ) (b : Buckets) : Prop :=
  ∀ time k, b[time]? = some k → Placed time k ∧ (time ∉ stale → Hashed H k)

def BucketsOk (H : Hashes) (b : Buckets) : Prop :=
  ∀ time k, b[time]? = some k → Placed time k ∧ Hashed H k

theorem BucketsOk.okExcept (h : BucketsOk H b) (stale) : OkExcept H stale b :=
  fun time k hk => ⟨(h time k hk).1,fun _ => (h time k hk).2⟩

theorem bucketsOk_empty (H) : BucketsOk H ∅ := by
  intro time k hk
  simp at hk

open Buckets

theorem OkExcept.insert (h : OkExcept H stale b) (hx : Placed t x)
    (hhash : t ∉ stale → Hashed H x) :
    OkExcept H stale (b.insert t x) := by
  intro time k hk
  rw [getElem?_insert] at hk
  split_ifs at hk with ht
  · cases hk
    exact ht ▸ ⟨hx,hhash⟩
  · exact h time k hk

theorem BucketsOk.insert (h : BucketsOk H b) (hx : Placed t x) (hhash : Hashed H x) :
    BucketsOk H (b.insert t x) := by
  intro time k hk
  have hall := (h.okExcept ∅).insert hx (fun _ => hhash) time k hk
  exact ⟨hall.1,hall.2 (Set.notMem_empty time)⟩

theorem OkExcept.placed_at (h : OkExcept H stale b) (ht : SMSG_BUCKET_LEN ∣ t) :
    Placed t (b.at t) := by
  rw [Buckets.at]
  cases hk : b[t]? with
  | none => exact ⟨ht,fun token htoken => absurd htoken List.not_mem_nil⟩
  | some k => exact (h t k hk).1

theorem Placed.add (h : Placed time k) {token} (htoken : bucketOf token.timestamp = time) :
    Placed time (k.add token) := by
  refine ⟨h.multiple,fun x hx => ?_⟩
  rcases SortedSet.mem_insert hx with rfl | hx
  · exact htoken
  · exact h.tokens x hx

theorem Placed.hashBucket (h : Placed time k) (now) : Placed time (k.hashBucket H now) :=
  ⟨h.multiple,h.tokens⟩

theorem hashed_hashBucket (H now) (k : SecMsgBucket) : Hashed H (k.hashBucket H now) := rfl

theorem bucketOf_multiple (timestamp) : SMSG_BUCKET_LEN ∣ bucketOf timestamp :=
  Int.dvd_self_sub_tmod

theorem Buckets.touch_of_mem (h : t ∈ b) : b.touch t = b := by
  apply ExtTreeMap.ext_getElem?
  intro time
  rw [touch,getElem?_insert]
  split_ifs with ht
  · subst ht
    rw [Buckets.at,ExtTreeMap.getElem?_eq_some_getElem h]
    rfl
  · rfl

theorem OkExcept.rehash (h : OkExcept H {t} b) (now) : BucketsOk H (match b[t]? with
      | none => b
      | some k => b.insert t ({ k with nLockCount := 0, nLockPeerId := 0 }.hashBucket H now)) := by
  split
  next hnone =>
    intro time k hk
    refine ⟨(h time k hk).1,(h time k hk).2 fun ht => ?_⟩
    rw [Set.mem_singleton_iff.mp ht,hnone] at hk
    cases hk
  next k hsome =>
    intro time x hx
    rw [getElem?_insert] at hx
    split_ifs at hx with ht
    · cases hx
      exact ht ▸ ⟨⟨(h t k hsome).1.multiple,(h t k hsome).1.tokens⟩,rfl⟩
    · exact ⟨(h time x hx).1,(h time x hx).2 fun he => ht (Set.mem_singleton_iff.mp he).symm⟩

/-- What a node tells of a bucket in an smsgInv. -/
def SecMsgBucket.invHeader (time : ℤ) (k : SecMsgBucket) : List UInt8 :=
  i64Bytes time++u32Bytes (UInt32.ofNat k.setTokens.toList.length)++u32Bytes k.hash

theorem samples_eq (k : SecMsgBucket) :
    (k.setTokens.toList.flatMap fun token => sampleBytes token.sample) =
    (k.setTokens.toList.map SecMsgToken.key).flatMap fun key =>
      (PrefixCode.leBytes 8 (ofLex key).2).reverse := by
  rw [List.flatMap_map]
  rfl

theorem invHeader_eq {k'} (hk : Hashed H k) (hk' : Hashed H k')
    (h : ∀ key, k.setTokens.contains key ↔ k'.setTokens.contains key) (time : ℤ) :
    k.invHeader time = k'.invHeader time := by
  have hkeys := SortedSet.map_key_eq h
  have hlength := congrArg List.length hkeys
  simp only [List.length_map] at hlength
  rw [SecMsgBucket.invHeader,SecMsgBucket.invHeader,hlength,hk,hk',samples_eq,samples_eq,hkeys]

variable {i N : ℕ}

theorem isTimely_iff :
    isTimely E time ↔ ¬ time < E.now-SMSG_RETENTION ∧ ¬ time > E.now+SMSG_TIME_LEEWAY := by
  simp [isTimely,and_comm]

theorem invLoop_buckets {p s} (h : ∀ j < i, isTimely E (i64 v (p+16*j)) →
    0 < (u32 v (p+16*j+8)).toNat → i64 v (p+16*j) ∈ s.buckets) : (invLoop E v i p s).value.buckets =
      s.buckets := by
  induction i generalizing p s with
  | zero => rfl
  | succ i ih =>
    have hhead : (s.header E (i64 v p) (u32 v (p+8)) (u32 v (p+12))).buckets = s.buckets := by
      unfold InvState.header
      split_ifs with hpast hmore hfuture hnone
      iterate 4 rfl
      have hpos : 0 < (u32 v (p+8)).toNat := by
        rw [UInt32.not_lt,UInt32.le_iff_toNat_le] at hnone
        exact hnone
      have htouch : s.buckets.touch (i64 v p) = s.buckets :=
        touch_of_mem (h 0 (by omega) (isTimely_iff.mpr ⟨hpast,hfuture⟩) hpos)
      dsimp only
      split_ifs <;> exact htouch
    have hrest : (invLoop E v i (p+16) (s.header E (i64 v p) (u32 v (p+8)) (u32 v (p+12)))).value.buckets =
        (s.header E (i64 v p) (u32 v (p+8)) (u32 v (p+12))).buckets := by
      apply ih
      intro j hj
      rw [hhead,show p+16+16*j = p+16*(j+1) by omega]
      exact h (j+1) (by omega)
    exact hrest.trans hhead

/-- The messages that the loop comes to and that are valid and timely are of one bucket. -/
def OneBucket (H : Hashes) (E : SmsgEnv) (v : Buffer) (b : Buckets) (N : ℕ) (t : ℤ) : Prop :=
  ∀ i < N, (∀ j < i, Good H E v b j) → msgValid H v i = true → isTimely E (msgToken E v i).timestamp = true →
    bucketOf (msgToken E v i).timestamp = t

theorem bunchState_okExcept (hb : OkExcept H {t} b) (h : OneBucket H E v b N t) (hi : i ≤ N)
    (hgood : ∀ j < i, Good H E v b j) : OkExcept H {t} (bunchState H E v b i) := by
  induction i with
  | zero => exact hb
  | succ i ih =>
    have hbefore : ∀ j < i, Good H E v b j := fun j hj => hgood j (by omega)
    have hlast := hgood i (by omega)
    have ih := ih (by omega) hbefore
    have ht := h i (by omega) hbefore hlast.valid hlast.storable.timely
    have hplaced := ih.placed_at (ht ▸ bucketOf_multiple (msgToken E v i).timestamp)
    rw [bunchState_succ (storable_of_good hbefore hlast),ht]
    exact (ih.insert hplaced (absurd rfl)).insert (hplaced.add ht) (absurd rfl)

theorem receiveLoop_okExcept {m} (hb : OkExcept H {t} b) (h : OneBucket H E v b N t) :
    OkExcept H {t} ((receiveLoop H E v N 12 m b).value).2 := by
  obtain ⟨l,hl,hgood,-,hc⟩ :=
    receiveLoop_cases (H := H) (E := E) (b := b) (i := 0) (m := m) (Nat.zero_add N) (by simp) rfl
  have hstate := bunchState_okExcept hb h hl hgood
  rcases hc with hc | ⟨⟨hlt,hvalid,htime⟩,hc⟩
  · exact hc ▸ hstate
  · have ht := h l hlt hgood hvalid htime
    rw [ht] at hc
    exact hc ▸ hstate.insert (hstate.placed_at (ht ▸ bucketOf_multiple _)) (absurd rfl)

instance (H : Hashes) (E : SmsgEnv) (v : Buffer) (b : Buckets) (N : ℕ) (t : ℤ) :
    Decidable (OneBucket H E v b N t) :=
  inferInstanceAs (Decidable (∀ _ < N, _))

/-- As far as it is read, the message names no bucket that is not there and brings messages
of its own bucket only. -/
def CarefulMessage (H : Hashes) (E : SmsgEnv) (v : Buffer) (b : Buckets) : SmsgCommand → Prop
  | .smsgInv => 4 ≤ v.size → E.ignoreUntil ≤ E.now → (4+u32 v 0*16).toNat ≤ v.size →
      ∀ i < (u32 v 0).toNat, isTimely E (i64 v (4+16*i)) = true → 0 < (u32 v (4+16*i+8)).toNat → i64 v (4+16*i) ∈ b
  | .smsgHave => 8 ≤ v.size → isTimely E (i64 v 0) = true → i64 v 0 ∈ b
  | .smsgMsg => 12 ≤ v.size → isTimely E (i64 v 4) = true → (u32 v 0).toNat ≤ 500 →
      OneBucket H E v b (u32 v 0).toNat (i64 v 4)
  | .smsgShow | .smsgWant => True

instance (H : Hashes) (E : SmsgEnv) (v : Buffer) (b : Buckets) :
    ∀ command, Decidable (CarefulMessage H E v b command)
  | .smsgInv => inferInstanceAs (Decidable (_ → _ → _ → ∀ _ < _, _))
  | .smsgHave => inferInstanceAs (Decidable (_ → _ → _))
  | .smsgMsg => inferInstanceAs (Decidable (_ → _ → _ → OneBucket H E v b _ _))
  | .smsgShow => inferInstanceAs (Decidable True)
  | .smsgWant => inferInstanceAs (Decidable True)

theorem smsgInv_buckets (h : CarefulMessage H E v b .smsgInv) :
    (smsgInv E v b).value.buckets = b := by
  rw [smsgInv]
  split_ifs with hsize hignore
  · rfl
  · rfl
  rw [value_bind,value_readU32]
  split_ifs with hmany hshort
  · rfl
  · rfl
  · exact invLoop_buckets (s := ⟨0,[],0,b⟩) (h (by omega) (by omega) (by omega))

theorem smsgHave_bucketsOk (hb : BucketsOk H b) (h : CarefulMessage H E v b .smsgHave) :
    BucketsOk H (smsgHave E v b).value.buckets := by
  rw [smsgHave]
  split_ifs with hsize
  · exact hb
  rw [value_bind,value_readI64]
  split_ifs with hpast hfuture
  · exact hb
  · exact hb
  have hmem : i64 v 0 ∈ b := h (by omega) (isTimely_iff.mpr ⟨hpast,hfuture⟩)
  have hat := hb (i64 v 0) _ (ExtTreeMap.getElem?_eq_some_getElem hmem)
  rw [touch_of_mem hmem]
  dsimp only
  split_ifs with hlock
  · exact hb
  rw [value_bind,value_bind,value_pure]
  split_ifs
  · have hget : b.at (i64 v 0) = b[i64 v 0] := by rw [Buckets.at,ExtTreeMap.getElem?_eq_some_getElem hmem]; rfl
    exact hb.insert ⟨hat.1.multiple,hget ▸ hat.1.tokens⟩ (hget ▸ hat.2)
  · exact hb

theorem smsgShow_buckets : (smsgShow v b).value.buckets = b := by
  rw [smsgShow]
  split_ifs
  · rfl
  rw [value_bind]
  split_ifs <;> rfl

theorem smsgWant_buckets : (smsgWant E v b).value.buckets = b := by
  rw [smsgWant]
  split_ifs
  · rfl
  rw [value_bind]
  split <;> rfl

theorem secureMsgReceive_bucketsOk (hb : BucketsOk H b) (h : CarefulMessage H E v b .smsgMsg) :
    BucketsOk H (secureMsgReceive H E v b).value.buckets := by
  rw [secureMsgReceive]
  split_ifs with hsize
  · exact hb
  rw [value_bind,value_readU32,value_bind,value_readI64]
  split_ifs with htime hcount
  · exact hb
  · rw [value_pure]
    split
    next => exact hb
    next k hk => exact hb.insert ⟨(hb _ k hk).1.multiple,(hb _ k hk).1.tokens⟩ (hb _ k hk).2
  · have hmax : (u32 v 0).toNat ≤ 500 := by
      simp only [Bool.or_eq_true,decide_eq_true_eq,not_or,gt_iff_lt,UInt32.not_lt,
        UInt32.le_iff_toNat_le] at hcount
      exact hcount.2
    have hown := h (by omega) (by simpa using htime) hmax
    exact (receiveLoop_okExcept (hb.okExcept _) hown).rehash E.now

theorem secureMsgReceiveData_bucketsOk (hb : BucketsOk H b) {command}
    (h : CarefulMessage H E v b command) :
    BucketsOk H (secureMsgReceiveData H E command v b).value.buckets := by
  cases command with
  | smsgInv => exact (smsgInv_buckets h).symm ▸ hb
  | smsgShow => exact smsgShow_buckets.symm ▸ hb
  | smsgHave => exact smsgHave_bucketsOk hb h
  | smsgWant => exact smsgWant_buckets.symm ▸ hb
  | smsgMsg => exact secureMsgReceive_bucketsOk hb h

/-- A message of the outbox with its proof of work is put in its bucket. -/
def threadSecureMsgPow (H : Hashes) (E : SmsgEnv) (v : Buffer) (b : Buckets) : Buckets :=
  (secureMsgStore H E v 0 SMSG_HDR_LEN (u32 v 100) true b).value.2

def SecMsgBucket.tick (k : SecMsgBucket) : SecMsgBucket :=
  if k.nLockCount > 0 then
    { k with nLockCount := k.nLockCount-1, nLockPeerId := if k.nLockCount-1 = 0 then 0 else k.nLockPeerId }
  else k

theorem SecMsgBucket.tick_setTokens (k : SecMsgBucket) : k.tick.setTokens = k.setTokens := by
  unfold SecMsgBucket.tick
  split_ifs <;> rfl

theorem SecMsgBucket.tick_hash (k : SecMsgBucket) : k.tick.hash = k.hash := by
  unfold SecMsgBucket.tick
  split_ifs <;> rfl

/-- Buckets that are too old go, and locks run out. -/
def threadSecureMsg (now : ℤ) (b : Buckets) : Buckets :=
  b.filterMap fun time k => if time < now-SMSG_RETENTION then none else some k.tick

inductive SmsgEvent where
  | received (E : SmsgEnv) (command : SmsgCommand) (v : Buffer)
  | sent (E : SmsgEnv) (v : Buffer)
  | managed (now : ℤ)

def smsgStep (H : Hashes) (b : Buckets) : SmsgEvent → Buckets
  | .received E command v => (secureMsgReceiveData H E command v b).value.buckets
  | .sent E v => threadSecureMsgPow H E v b
  | .managed now => threadSecureMsg now b

def outboxToken (E : SmsgEnv) (v : Buffer) : SecMsgToken := tokenAt E v 0 SMSG_HDR_LEN (u32 v 100)

/-- A received message is careful, and a message of the outbox can be written if it is timely
and its bucket is new. -/
def Careful (H : Hashes) (b : Buckets) : SmsgEvent → Prop
  | .received E command v => CarefulMessage H E v b command
  | .sent E v => E.createDirectory = true → isTimely E (outboxToken E v).timestamp = true →
      bucketOf (outboxToken E v).timestamp ∉ b →
        E.fopen (bucketOf (outboxToken E v).timestamp) = true ∧ E.fwrite (bucketOf (outboxToken E v).timestamp) = true
  | .managed _ => True

instance (H : Hashes) (b : Buckets) : ∀ event, Decidable (Careful H b event)
  | .received E command v => inferInstanceAs (Decidable (CarefulMessage H E v b command))
  | .sent _ _ => inferInstanceAs (Decidable (_ → _ → _ → _))
  | .managed _ => inferInstanceAs (Decidable True)

theorem threadSecureMsgPow_bucketsOk (hb : BucketsOk H b) (h : Careful H b (.sent E v)) :
    BucketsOk H (threadSecureMsgPow H E v b) := by
  have hplaced := (hb.okExcept ∅).placed_at (bucketOf_multiple (outboxToken E v).timestamp)
  rw [threadSecureMsgPow]
  rcases secureMsgStore_cases H true b (rfl : _ = outboxToken E v) rfl
    with ⟨hno,-,hr | ⟨⟨hdir,htime⟩,hr⟩⟩ | ⟨hyes,hr⟩
  · rw [hr]
    exact hb
  · -- the bucket is there, or the message would have been stored
    have hmem : bucketOf (outboxToken E v).timestamp ∈ b := by
      by_contra hmem
      obtain ⟨hopen,hwrite⟩ := h hdir htime hmem
      refine hno ⟨hdir,htime,?_,hopen,hwrite⟩
      rw [Buckets.has,Buckets.at,ExtTreeMap.getElem?_eq_none hmem]
      rfl
    rw [hr,touch_of_mem hmem]
    exact hb
  · rw [hr]
    rw [if_pos rfl]
    intro time k hk
    rw [getElem?_insert] at hk
    split_ifs at hk with ht
    · cases hk
      exact ht ▸ ⟨(hplaced.add rfl).hashBucket E.now,hashed_hashBucket H E.now _⟩
    · rw [touch,getElem?_insert,if_neg ht] at hk
      exact hb time k hk

theorem threadSecureMsg_bucketsOk (hb : BucketsOk H b) (now : ℤ) :
    BucketsOk H (threadSecureMsg now b) := by
  intro time k hk
  rw [threadSecureMsg,ExtTreeMap.getElem?_filterMap',bind_eq_some_iff] at hk
  obtain ⟨x,hx,hk⟩ := hk
  split_ifs at hk
  cases hk
  obtain ⟨hplaced,hhash⟩ := hb time x hx
  refine ⟨⟨hplaced.multiple,?_⟩,?_⟩
  · rw [SecMsgBucket.tick_setTokens]
    exact hplaced.tokens
  · rw [Hashed,SecMsgBucket.tick_setTokens,SecMsgBucket.tick_hash]
    exact hhash

theorem smsgStep_bucketsOk (hb : BucketsOk H b) {event} (h : Careful H b event) :
    BucketsOk H (smsgStep H b event) := by
  cases event with
  | received E command v => exact secureMsgReceiveData_bucketsOk hb h
  | sent E v => exact threadSecureMsgPow_bucketsOk hb h
  | managed now => exact threadSecureMsg_bucketsOk hb now

theorem bucketsOk_of_always {l l₁} (hb : BucketsOk H b) (h : Always (smsgStep H) (Careful H) b l)
    (hpre : l₁ <+: l) : BucketsOk H (l₁.foldl (smsgStep H) b) := by
  refine Always.invariant (fun b event hb hevent => smsgStep_bucketsOk hb hevent) hb ?_
  exact always_iff.mpr fun l₂ event h2 => always_iff.mp h l₂ event (h2.trans hpre)

/-- The buckets of careful runs are in order at every time, and two nodes say the same of a
bucket that has the same messages on both. -/
theorem smsg_buckets_ok (H : Hashes) {b b' : Buckets} (hb : BucketsOk H b) (hb' : BucketsOk H b')
    (l l' : List SmsgEvent) (hl : Always (smsgStep H) (Careful H) b l)
    (hl' : Always (smsgStep H) (Careful H) b' l') :
    (∀ l₁, l₁ <+: l → BucketsOk H (l₁.foldl (smsgStep H) b)) ∧
      ∀ l₁, l₁ <+: l → ∀ l₂, l₂ <+: l' →
      ∀ time (k k' : SecMsgBucket), (l₁.foldl (smsgStep H) b)[time]? = some k →
        (l₂.foldl (smsgStep H) b')[time]? = some k' →
        (∀ key, k.setTokens.contains key = true ↔ k'.setTokens.contains key = true) →
          k.invHeader time = k'.invHeader time := by
  refine ⟨fun l₁ h₁ => bucketsOk_of_always hb hl h₁,?_⟩
  intro l₁ h₁ l₂ h₂ time k k' hk hk' hsame
  exact invHeader_eq (bucketsOk_of_always hb hl h₁ time k hk).2
    (bucketsOk_of_always hb' hl' h₂ time k' hk').2 hsame time

namespace Sample

/-- Two messages of the current bucket, a message of the outbox and a look at the locks. -/
def carefulRun : List SmsgEvent :=
  [.received env .smsgMsg twoMessages,.sent env (buffer (message 1 1200003 7)),.managed 1200010]

/-- The same messages, all out of the outbox. -/
def outboxRun : List SmsgEvent :=
  [.sent env (buffer (message 1 1200003 7)),.sent env (buffer (message 1 1200001 5)),.sent env (buffer (message 1 1200002 6))]

def oddHeader : Buffer := buffer (u32Bytes 1++i64Bytes 1200001++u32Bytes 1++u32Bytes 9)

/-- A message of the bucket before the one that the bunch names. -/
def otherBucket : Buffer := bunch [message 1 1199999 5]

end Sample

open DarkSilk.Smsg.Sample in
theorem smsg_buckets_ok_outbox :
    ((carefulRun.foldl (smsgStep hashes) ∅).at 1200000).setTokens.toList.length = 3 ∧
    BucketsOk hashes (carefulRun.foldl (smsgStep hashes) ∅) :=
  ⟨by decide +kernel,(smsg_buckets_ok hashes (bucketsOk_empty hashes) (bucketsOk_empty hashes) carefulRun outboxRun
    (by decide +kernel) (by decide +kernel)).1 carefulRun List.prefix_rfl⟩

open DarkSilk.Smsg.Sample in
/-- One header makes a bucket of an odd time. One bunch leaves a bucket without the hash of its
message, and a node that has the message out of its outbox says something else of that bucket. -/
theorem smsg_buckets_out_of_order :
    ¬ BucketsOk hashes (smsgStep hashes ∅ (.received env .smsgInv oddHeader)) ∧
    ¬ BucketsOk hashes (smsgStep hashes ∅ (.received env .smsgMsg otherBucket)) ∧
    ((smsgStep hashes ∅ (.received env .smsgMsg otherBucket)).at 1199400).setTokens.toList =
      ((smsgStep hashes ∅ (.sent env (buffer (message 1 1199999 5)))).at 1199400).setTokens.toList ∧
    ((smsgStep hashes ∅ (.received env .smsgMsg otherBucket)).at 1199400).invHeader 1199400 ≠
      ((smsgStep hashes ∅ (.sent env (buffer (message 1 1199999 5)))).at 1199400).invHeader
        1199400 := by
  refine ⟨fun h => ?_,fun h => ?_,by decide +kernel,by decide +kernel⟩
  · have hodd : ∀ k ∈ (smsgStep hashes ∅ (.received env .smsgInv oddHeader))[(1200001 : ℤ)]?,
        SMSG_BUCKET_LEN ∣ 1200001 :=
      fun k hk => (h 1200001 k hk).1.multiple
    exact absurd hodd (by decide +kernel)
  · have hhash : ∀ k ∈ (smsgStep hashes ∅ (.received env .smsgMsg otherBucket))[(1199400 : ℤ)]?,
        Hashed hashes k :=
      fun k hk => (h 1199400 k hk).2
    exact absurd hhash (by decide +kernel)

end Smsg
end DarkSilk
