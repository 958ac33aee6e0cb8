import DarkSilk.SmsgBunch

/-! Which bytes the handlers of the messages of a peer read. Three of them read inside the
data only. The other two do so unless a number in the data is as large as no number of an
honest peer. -/
namespace DarkSilk
namespace Smsg

open ByteReads PrefixCode

variable {v : Buffer} {E : SmsgEnv} {i : ℕ}

section

variable {n offset : ℕ}

@[simp] theorem within_readU32 : Within n (readU32 v offset) ↔ offset+4 ≤ n := by
  apply within_range.trans
  omega

@[simp] theorem within_readI64 : Within n (readI64 v offset) ↔ offset+8 ≤ n := by
  apply within_range.trans
  omega

@[simp] theorem within_readSample : Within n (readSample v offset) ↔ offset+8 ≤ n := by
  apply within_range.trans
  omega

end

section

variable {p : ℕ} {k : SecMsgBucket}

theorem invLoop_within (h : p+16*i ≤ v.size) (s) : Within v.size (invLoop E v i p s) := by
  induction i generalizing p s with
  | zero => exact within_pure _ _
  | succ i ih =>
    simp only [invLoop,within_bind,within_readI64,within_readU32]
    refine ⟨by omega,by omega,by omega,ih (by omega) _⟩

theorem haveLoop_within (h : p+16*i ≤ v.size) (out) : Within v.size (haveLoop v k i p out) := by
  induction i generalizing p out with
  | zero => exact within_pure _ _
  | succ i ih =>
    simp only [haveLoop,within_bind,within_readI64,within_readSample,within_ite,within_read]
    exact ⟨by omega,by omega,fun _ => ih (by omega) _,fun _ => ⟨by omega,ih (by omega) _⟩⟩

theorem wantLoop_within (h : p+16*i ≤ v.size) (nBunch out) :
    Within v.size (wantLoop E v k i p nBunch out) := by
  induction i generalizing p nBunch out with
  | zero => exact within_pure _ _
  | succ i ih =>
    simp only [wantLoop,within_bind,within_readI64,within_readSample]
    refine ⟨by omega,by omega,?_⟩
    split
    next => exact ih (by omega) _ _
    next =>
      rw [within_ite]
      exact ⟨fun _ => within_pure _ _,fun _ => ih (by omega) _ _⟩

theorem nTokens_le (hsize : v.size ≤ MAX_PROTOCOL_MESSAGE_LENGTH) : 16*nTokens v ≤ v.size-8 := by
  unfold MAX_PROTOCOL_MESSAGE_LENGTH at hsize
  have hval : nTokens v = (v.size-8)/16 := by
    rw [nTokens,BitVec.toInt_eq_toNat_of_lt (by rw [BitVec.toNat_ofNat]; omega),BitVec.toNat_ofNat]
    omega
  omega

theorem smsgInv_within (b : Buckets) : Within v.size (smsgInv E v b) := by
  rw [smsgInv,within_ite]
  refine ⟨fun _ => within_pure _ _,fun hsize => ?_⟩
  rw [within_ite]
  refine ⟨fun _ => within_pure _ _,fun _ => ?_⟩
  rw [within_bind,within_readU32,value_readU32,within_ite]
  refine ⟨by omega,fun _ => within_pure _ _,fun hcount => ?_⟩
  rw [within_ite]
  refine ⟨fun _ => within_pure _ _,fun hrest => within_bind.mpr ⟨invLoop_within ?_ _,within_pure _ _⟩⟩
  have hmax : (u32 v 0).toNat ≤ 289 := by
    have : SMSG_RETENTION/SMSG_BUCKET_LEN+1 = 289 := by decide
    omega
  have hbytes : (4+u32 v 0*16).toNat = 4+(u32 v 0).toNat*16 := by
    rw [UInt32.toNat_add,UInt32.toNat_mul]
    show (4+(u32 v 0).toNat*16%2^32)%2^32 = _
    omega
  omega

theorem smsgHave_within (hsize : v.size ≤ MAX_PROTOCOL_MESSAGE_LENGTH) (b : Buckets) :
    Within v.size (smsgHave E v b) := by
  have htokens := nTokens_le hsize
  rw [smsgHave,within_ite]
  refine ⟨fun _ => within_pure _ _,fun h8 => ?_⟩
  simp only [within_bind,within_readI64,within_ite]
  refine ⟨by omega,fun _ => within_pure _ _,fun _ => ⟨fun _ => within_pure _ _,fun _ => ⟨fun _ => within_pure _ _,fun _ => ?_⟩⟩⟩
  exact ⟨within_read.mpr (by omega),haveLoop_within (by omega) _,within_pure _ _⟩

theorem smsgWant_within (hsize : v.size ≤ MAX_PROTOCOL_MESSAGE_LENGTH) (b : Buckets) :
    Within v.size (smsgWant E v b) := by
  have htokens := nTokens_le hsize
  rw [smsgWant,within_ite]
  refine ⟨fun _ => within_pure _ _,fun h8 => ?_⟩
  simp only [within_bind,within_readI64]
  refine ⟨by omega,?_⟩
  split
  next => exact within_pure _ _
  next => exact within_bind.mpr ⟨wantLoop_within (by omega) _ _,within_pure _ _⟩

theorem showLoop_within_iff {b} (hp : p ≤ v.size) (replies) :
    Within v.size (showLoop v b i p replies) ↔ p+8*i ≤ v.size := by
  induction i generalizing p replies with
  | zero => exact iff_of_true (within_pure _ _) hp
  | succ i ih =>
    simp only [showLoop,within_bind,within_readI64]
    constructor
    · rintro ⟨hread,hrest⟩
      have := (ih hread _).mp hrest
      omega
    · intro h
      exact ⟨by omega,(ih (by omega) _).mpr (by omega)⟩

/-- The count of an smsgShow is small, or its product with the size of a time does not pass for
a small one. -/
theorem smsgShow_within_iff (hsize : v.size ≤ MAX_PROTOCOL_MESSAGE_LENGTH) (b : Buckets) :
    Within v.size (smsgShow v b) ↔ (4 ≤ v.size → (4+u32 v 0*8).toNat ≤ v.size →
      (u32 v 0).toNat < 2^29) := by
  by_cases h4 : v.size < 4
  · rw [smsgShow,if_pos h4]
    exact iff_of_true (within_pure _ _) fun h => absurd h4 (by omega)
  have hbytes : (4+u32 v 0*8).toNat = (4+(u32 v 0).toNat*8%2^32)%2^32 := by
    rw [UInt32.toNat_add,UInt32.toNat_mul]
    rfl
  unfold MAX_PROTOCOL_MESSAGE_LENGTH at hsize
  have hshow : Within v.size (smsgShow v b) ↔
      (¬ v.size < (4+u32 v 0*8).toNat → 4+8*(u32 v 0).toNat ≤ v.size) := by
    rw [smsgShow,if_neg h4,within_bind,within_readU32,value_readU32,within_ite,within_bind,
      showLoop_within_iff (by omega)]
    simp only [within_pure,implies_true,and_true,true_and]
    exact and_iff_right (by omega)
  rw [hshow,hbytes]
  omega

end

section

variable {H : Hashes} {b : Buckets} {j N : ℕ}

variable {pHeader pPayload : ℕ} {nPayload : UInt32}

theorem secureMsgValidate_within_iff (hheader : pHeader+SMSG_HDR_LEN ≤ v.size) :
    Within v.size (secureMsgValidate H v pHeader pPayload nPayload) ↔ (v.slice (pHeader+4) 1 = [1] →
      nPayload.toNat ≤ SMSG_MAX_MSG_WORST →
      nPayload.toNat = 0 ∨ pPayload+nPayload.toNat ≤ v.size) := by
  unfold SMSG_HDR_LEN at hheader
  rw [secureMsgValidate,within_bind,within_read,value_read]
  refine (and_iff_right (by omega)).trans ?_
  by_cases hversion : v.slice (pHeader+4) 1 = [1]
  swap
  · rw [if_pos hversion]
    exact iff_of_true (within_pure _ _) fun h => absurd h hversion
  rw [if_neg (not_not.mpr hversion)]
  by_cases hworst : nPayload.toNat ≤ SMSG_MAX_MSG_WORST
  swap
  · rw [if_pos (by omega)]
    exact iff_of_true (within_pure _ _) fun _ h => absurd h hworst
  rw [if_neg (by omega)]
  simp only [within_bind,within_read,hversion,hworst,true_implies]
  constructor
  · exact fun h => h.2.2.1
  · intro h
    refine ⟨by omega,by unfold SMSG_HDR_LEN; omega,h,h,?_⟩
    split
    next => exact within_pure _ _
    next => exact within_bind.mpr ⟨within_read.mpr (by omega),within_pure _ _⟩

theorem secureMsgValidate_eq_zero
    (h : (secureMsgValidate H v pHeader pPayload nPayload).value = 0) :
    v.slice (pHeader+4) 1 = [1] ∧ nPayload.toNat ≤ SMSG_MAX_MSG_WORST := by
  rw [secureMsgValidate,value_bind,value_read] at h
  by_cases hversion : v.slice (pHeader+4) 1 = [1]
  swap
  · rw [if_pos hversion] at h
    cases h
  rw [if_neg (not_not.mpr hversion)] at h
  by_cases hworst : nPayload.toNat ≤ SMSG_MAX_MSG_WORST
  · exact ⟨hversion,hworst⟩
  · rw [if_pos (by omega)] at h
    cases h

theorem secureMsgStore_within (hheader : pHeader+SMSG_HDR_LEN ≤ v.size)
    (hpayload : pPayload+nPayload.toNat ≤ v.size) (fUpdateBucket) (b : Buckets) :
    Within v.size (secureMsgStore H E v pHeader pPayload nPayload fUpdateBucket b) := by
  have hsample : Within v.size (tokenSample v pPayload nPayload) := by
    rw [tokenSample,within_ite]
    refine ⟨fun _ => within_pure _ _,fun h => within_readSample.mpr ?_⟩
    simp only [Bool.or_eq_true,decide_eq_true_eq,not_or] at h
    omega
  have hstore : ∀ token b, Within v.size (storeToken H E v pHeader pPayload nPayload fUpdateBucket token b) := by
    intro token b
    rw [storeToken,within_ite]
    refine ⟨fun _ => within_pure _ _,fun _ => ?_⟩
    rw [within_ite]
    refine ⟨fun _ => within_pure _ _,fun _ => ?_⟩
    refine within_bind.mpr ⟨within_read.mpr (.inr hheader),within_bind.mpr ⟨within_read.mpr (.inr hpayload),?_⟩⟩
    rw [within_ite]
    exact ⟨fun _ => within_pure _ _,fun _ => within_pure _ _⟩
  rw [secureMsgStore,within_ite]
  refine ⟨fun _ => within_pure _ _,fun _ => within_bind.mpr ⟨within_readI64.mpr ?_,?_⟩⟩
  · unfold SMSG_HDR_LEN at hheader
    omega
  · rw [within_ite]
    exact ⟨fun _ => within_pure _ _,fun _ => within_bind.mpr ⟨hsample,hstore _ _⟩⟩

theorem ownMessage_within (hheader : pHeader+SMSG_HDR_LEN ≤ v.size)
    (hpayload : pPayload+nPayload.toNat ≤ v.size)
    (l) : Within v.size (ownMessage E v pHeader pPayload nPayload l) := by
  have hdecrypt : ∀ fTestOnly sAddress,
      Within v.size (secureMsgDecrypt E v fTestOnly sAddress pHeader pPayload nPayload) := fun _ _ =>
    within_bind.mpr ⟨within_read.mpr (.inr hheader),within_bind.mpr ⟨within_read.mpr (.inr hpayload),within_pure _ _⟩⟩
  induction l with
  | nil => exact within_pure _ _
  | cons it rest ih =>
    rw [ownMessage,within_ite,within_bind]
    refine ⟨fun _ => ih,fun _ => ⟨hdecrypt _ _,?_⟩⟩
    split
    · exact ih
    · exact within_pure _ _

theorem secureMsgScanMessage_within_iff (hheader : pHeader+SMSG_HDR_LEN ≤ v.size)
    (hpayload : pPayload+nPayload.toNat ≤ v.size) :
    Within v.size (secureMsgScanMessage E v pHeader pPayload nPayload) ↔
      (E.isLocked = false → (ownMessage E v pHeader pPayload nPayload E.smsgAddresses).value =
        true →
        pPayload+8 ≤ v.size) := by
  have htime : Within v.size (readI64 v (pHeader+7)) := by
    unfold SMSG_HDR_LEN at hheader
    exact within_readI64.mpr (by omega)
  have hcopy : Within v.size (v.read pHeader SMSG_HDR_LEN) ∧ Within v.size (v.read pPayload nPayload.toNat) :=
    ⟨within_read.mpr (.inr hheader),within_read.mpr (.inr hpayload)⟩
  rw [secureMsgScanMessage,within_ite]
  cases E.isLocked with
  | true =>
    refine iff_of_true ⟨fun _ => within_bind.mpr ⟨?_,within_pure _ _⟩,fun h => absurd rfl h⟩ nofun
    rw [secureMsgStoreUnscanned,within_ite,within_bind,within_ite,within_bind,within_bind]
    exact ⟨fun _ => within_pure _ _,fun _ => ⟨htime,fun _ => within_pure _ _,fun _ =>
      ⟨hcopy.1,hcopy.2,within_pure _ _⟩⟩⟩
  | false =>
    simp only [Bool.false_eq_true,false_implies,not_false_eq_true,true_implies,true_and,within_bind,within_ite,
      within_pure,implies_true,and_true,ownMessage_within hheader hpayload,htime,hcopy,within_read]
    exact forall_congr' fun _ => ⟨fun h => h.resolve_left (by decide),.inr⟩

/-- The payload of a message that is looked at ends inside the data. -/
def PayloadInside (v : Buffer) (i : ℕ) : Prop :=
  (msgStart v i).toNat+SMSG_HDR_LEN ≤ v.size → v.slice ((msgStart v i).toNat+4) 1 = [1] →
    (msgPayload v i).toNat ≤ SMSG_MAX_MSG_WORST → (msgStart v i).toNat+SMSG_HDR_LEN+(msgPayload v i).toNat ≤ v.size

instance (v : Buffer) (i : ℕ) : Decidable (PayloadInside v i) :=
  inferInstanceAs (Decidable (_ → _ → _ → _))

/-- The scan takes the message for one of this node. -/
def msgOwn (E : SmsgEnv) (v : Buffer) (i : ℕ) : Bool :=
  !E.isLocked && (ownMessage E v (msgStart v i).toNat (msgStart v i+104).toNat (msgPayload v i) E.smsgAddresses).value

/-- The same for the payload, and for the eight bytes of the key of an own message that is
stored. -/
def ReadsInside (H : Hashes) (E : SmsgEnv) (v : Buffer) (b : Buckets) (i : ℕ) : Prop :=
  PayloadInside v i ∧ ((msgStart v i).toNat+SMSG_HDR_LEN ≤ v.size → Good H E v b i → msgOwn E v i = true →
    (msgStart v i).toNat+SMSG_HDR_LEN+8 ≤ v.size)

instance (H : Hashes) (E : SmsgEnv) (v : Buffer) (b : Buckets) (i : ℕ) :
    Decidable (ReadsInside H E v b i) :=
  inferInstanceAs (Decidable (_ ∧ (_ → _ → _ → _)))

/-- Behind valid messages the sum of lengths does not wrap around. -/
theorem toNat_msgStart_of_valid (hi : i ≤ 500) (hvalid : ∀ j < i, msgValid H v j) :
    (msgStart v i).toNat ≤ 12+i*(SMSG_HDR_LEN+SMSG_MAX_MSG_WORST) ∧
      ∀ j < i, (msgStart v j).toNat+SMSG_HDR_LEN ≤ (msgStart v i).toNat := by
  unfold SMSG_HDR_LEN SMSG_MAX_MSG_WORST
  induction i with
  | zero => exact ⟨le_of_eq rfl,by simp⟩
  | succ i ih =>
    have ih := ih (by omega) fun j hj => hvalid j (by omega)
    have hpayload := (secureMsgValidate_eq_zero (by simpa [msgValid] using hvalid i (by omega))).2
    unfold SMSG_MAX_MSG_WORST at hpayload
    have h : (msgStart v (i+1)).toNat = ((msgStart v i).toNat+(104+(msgPayload v i).toNat)%2^32)%2^32 := by
      rw [msgStart,UInt32.toNat_add,UInt32.toNat_add]
      rfl
    refine ⟨by omega,fun j hj => ?_⟩
    rcases Nat.lt_succ_iff_lt_or_eq.mp hj with hj | rfl
    · have := ih.2 j hj
      omega
    · omega

section

variable {n : UInt32} {k m : ℕ} {c : Buckets} (hsize : v.size ≤ MAX_PROTOCOL_MESSAGE_LENGTH)
  (hn : n.toNat+SMSG_HDR_LEN ≤ v.size)

include hsize hn

theorem rest_of_header : ¬ (UInt64.ofNat v.size-n.toUInt64).toNat < SMSG_HDR_LEN := by
  rw [toNat_rest hsize (by omega)]
  omega

theorem receiveLoop_within_invalid
    (hval : (secureMsgValidate H v n.toNat (n+104).toNat (u32 v (n.toNat+100))).value ≠ 0)
    (hread : Within v.size (secureMsgValidate H v n.toNat (n+104).toNat (u32 v (n.toNat+100)))) :
    Within v.size (receiveLoop H E v k n m c) := by
  have hheader : n.toNat+100+4 ≤ v.size := hn
  induction k generalizing m with
  | zero => exact within_pure _ _
  | succ k ih =>
    rw [receiveLoop,if_neg (rest_of_header hsize hn)]
    refine within_bind.mpr ⟨within_readU32.mpr hheader,within_bind.mpr ⟨hread,?_⟩⟩
    rw [value_readU32,if_pos hval]
    exact ih

theorem receiveLoop_within_valid
    (hval : (secureMsgValidate H v n.toNat (n+104).toNat (u32 v (n.toNat+100))).value = 0)
    (hread : Within v.size (secureMsgValidate H v n.toNat (n+104).toNat (u32 v (n.toNat+100))))
    (hstore : Within v.size (secureMsgStore H E v n.toNat (n+104).toNat (u32 v (n.toNat+100)) false
      c)) {r}
    (hr : (secureMsgStore H E v n.toNat (n+104).toNat (u32 v (n.toNat+100)) false c).value = r) :
    Within v.size (receiveLoop H E v (k+1) n m c) ↔
      (r.1 = 0 → Within v.size (secureMsgScanMessage E v n.toNat (n+104).toNat
        (u32 v (n.toNat+100))) ∧
        Within v.size (receiveLoop H E v k (n+(104+u32 v (n.toNat+100))) m r.2)) := by
  have hheader : n.toNat+100+4 ≤ v.size := hn
  rw [receiveLoop,if_neg (rest_of_header hsize hn),within_bind,value_readU32,within_bind,
    if_neg (not_not.mpr hval),
    within_bind,hr]
  have hlast : Within v.size (if r.1 ≠ 0 then pure (m,r.2) else do
      let _ ← secureMsgScanMessage E v n.toNat (n+104).toNat (u32 v (n.toNat+100))
      receiveLoop H E v k (n+(104+u32 v (n.toNat+100))) m r.2) ↔
        (r.1 = 0 → Within v.size (secureMsgScanMessage E v n.toNat (n+104).toNat (u32 v (n.toNat+100))) ∧
          Within v.size (receiveLoop H E v k (n+(104+u32 v (n.toNat+100))) m r.2)) := by
    rw [within_ite,not_not,within_bind]
    exact and_iff_right fun _ => within_pure _ _
  constructor
  · exact fun h => hlast.mp h.2.2.2
  · exact fun h => ⟨within_readU32.mpr hheader,hread,hstore,hlast.mpr h⟩

theorem within_validate_of_receiveLoop (h : Within v.size (receiveLoop H E v (k+1) n m c)) :
    Within v.size (secureMsgValidate H v n.toNat (n+104).toNat (u32 v (n.toNat+100))) := by
  rw [receiveLoop,if_neg (rest_of_header hsize hn),within_bind,value_readU32,within_bind] at h
  exact h.2.1

end

theorem toNat_payload (hsize : v.size ≤ MAX_PROTOCOL_MESSAGE_LENGTH) {n : UInt32}
    (hn : n.toNat+SMSG_HDR_LEN ≤ v.size) :
    (n+104).toNat = n.toNat+SMSG_HDR_LEN := by
  unfold MAX_PROTOCOL_MESSAGE_LENGTH at hsize
  rw [UInt32.toNat_add]
  show (n.toNat+104)%2^32 = n.toNat+104
  omega

theorem validate_within_iff (hsize : v.size ≤ MAX_PROTOCOL_MESSAGE_LENGTH)
    (hheader : (msgStart v i).toNat+SMSG_HDR_LEN ≤ v.size) :
    Within v.size (secureMsgValidate H v (msgStart v i).toNat (msgStart v i+104).toNat
      (msgPayload v i)) ↔
      PayloadInside v i := by
  rw [secureMsgValidate_within_iff hheader,PayloadInside,toNat_payload hsize hheader]
  constructor
  · intro h _ hv hw
    rcases h hv hw with h | h <;> omega
  · exact fun h hv hw => .inr (h hheader hv hw)

/-- The loop reads inside the data as far as the messages that it comes to end there. -/
theorem receiveLoop_within_iff (hsize : v.size ≤ MAX_PROTOCOL_MESSAGE_LENGTH) {k m} (hN : i+k = N)
    (hmax : N ≤ 500) (hgood : ∀ j < i, Good H E v b j) (hstart : (msgStart v i).toNat ≤ v.size) :
    Within v.size (receiveLoop H E v k (msgStart v i) m (bunchState H E v b i)) ↔
      ∀ l < N, i ≤ l → (∀ j < l, Good H E v b j) → ReadsInside H E v b l := by
  induction k generalizing i m with
  | zero => exact iff_of_true (within_pure _ _) fun l hl hil => absurd hl (by omega)
  | succ k ih =>
    by_cases hheader : (msgStart v i).toNat+SMSG_HDR_LEN ≤ v.size
    swap
    · -- the loop ends here, and every later message begins beyond the end
      rw [receiveLoop,if_pos (by rw [toNat_rest hsize hstart]; omega)]
      refine iff_of_true (within_pure _ _) fun l hl hil hall => ?_
      have hbeyond : ¬ (msgStart v l).toNat+SMSG_HDR_LEN ≤ v.size := by
        rcases Nat.eq_or_lt_of_le hil with rfl | hil
        · exact hheader
        · have := (toNat_msgStart_of_valid (by omega) fun j hj => (hall j hj).valid).2 i hil
          omega
      exact ⟨fun hin => absurd hin hbeyond,fun hin => absurd hin hbeyond⟩
    have hpayload := toNat_payload hsize hheader
    have hinside := validate_within_iff (H := H) hsize hheader
    by_cases hin : PayloadInside v i
    swap
    · refine iff_of_false (fun h =>
        hin (hinside.mp (within_validate_of_receiveLoop hsize hheader h))) fun h => ?_
      exact hin (h i (by omega) le_rfl hgood).1
    have hread := hinside.mpr hin
    by_cases hval : (secureMsgValidate H v (msgStart v i).toNat (msgStart v i+104).toNat
      (msgPayload v i)).value = 0
    swap
    · refine iff_of_true (receiveLoop_within_invalid hsize hheader hval hread) fun l hl hil hall => ?_
      rcases Nat.eq_or_lt_of_le hil with rfl | hil
      · exact ⟨hin,fun _ h => absurd (by simpa [msgValid] using h.valid) hval⟩
      · exact absurd (by simpa [msgValid] using (hall i hil).valid) hval
    have hend := hin hheader (secureMsgValidate_eq_zero hval).1 (secureMsgValidate_eq_zero hval).2
    have hstore : Within v.size (secureMsgStore H E v (msgStart v i).toNat (msgStart v i+104).toNat
        (msgPayload v i)
        false (bunchState H E v b i)) := secureMsgStore_within hheader (by omega) _ _
    rcases secureMsgStore_cases H false (bunchState H E v b i) (rfl : _ = msgToken E v i) rfl
      with ⟨hno,hone,-⟩ | ⟨hyes,hr⟩
    · refine iff_of_true ((receiveLoop_within_valid hsize hheader hval hread hstore rfl).mpr fun h => ?_)
        fun l hl hil hall => ?_
      · rw [msgPayload] at hone
        omega
      · rcases Nat.eq_or_lt_of_le hil with rfl | hil
        · exact ⟨hin,fun _ h => absurd (storable_of_good hgood h) hno⟩
        · exact absurd (storable_of_good hgood (hall i hil)) hno
    · have hgood' := good_succ hgood (by simpa [msgValid] using hval) hyes
      rw [receiveLoop_within_valid hsize hheader hval hread hstore rfl]
      have hscan : Within v.size (secureMsgScanMessage E v (msgStart v i).toNat
          (msgStart v i+104).toNat (msgPayload v i)) ↔
          (msgOwn E v i = true → (msgStart v i).toNat+SMSG_HDR_LEN+8 ≤ v.size) := by
        rw [secureMsgScanMessage_within_iff hheader (by omega),hpayload,msgOwn,hpayload,Bool.and_eq_true,
          Bool.not_eq_true',and_imp]
      have hrest := ih (i := i+1) (m := m) (by omega) hgood' (by rw [toNat_msgStart_succ hsize hend]; exact hend)
      refine (forall_prop_of_true (congrArg Prod.fst hr)).trans ((and_congr hscan hrest).trans ?_)
      constructor
      · rintro ⟨hown,h⟩ l hl hil hall
        rcases Nat.eq_or_lt_of_le hil with rfl | hil
        · exact ⟨hin,fun _ _ => hown⟩
        · exact h l hl hil hall
      · exact fun h => ⟨(h i (by omega) le_rfl hgood).2 hheader (hgood' i (by omega)),
          fun l hl hil hall => h l hl (by omega) hall⟩

/-- The numbers in the data of a message are of no use for a read beyond its end. -/
def NumbersSane (H : Hashes) (E : SmsgEnv) (v : Buffer) (b : Buckets) : SmsgCommand → Prop
  | .smsgInv | .smsgHave | .smsgWant => True
  | .smsgShow => 4 ≤ v.size → (4+u32 v 0*8).toNat ≤ v.size → (u32 v 0).toNat < 2^29
  | .smsgMsg => 12 ≤ v.size → isTimely E (i64 v 4) = true → 0 < (u32 v 0).toNat → (u32 v 0).toNat ≤ 500 →
      ∀ i < (u32 v 0).toNat, (∀ j < i, Good H E v b j) → ReadsInside H E v b i

theorem secureMsgReceive_within_iff (hsize : v.size ≤ MAX_PROTOCOL_MESSAGE_LENGTH) :
    Within v.size (secureMsgReceive H E v b) ↔ NumbersSane H E v b .smsgMsg := by
  rw [secureMsgReceive]
  by_cases h12 : v.size < 12
  · rw [if_pos h12]
    exact iff_of_true (within_pure _ _) fun h => absurd h12 (by omega)
  rw [if_neg h12,within_bind,value_readU32,within_bind,value_readI64,within_readU32,within_readI64]
  refine (and_iff_right (by omega)).trans ((and_iff_right (by omega)).trans ?_)
  by_cases htime : isTimely E (i64 v 4)
  swap
  · rw [if_pos (by simpa using htime)]
    exact iff_of_true (within_pure _ _) fun _ h => absurd h htime
  rw [if_neg (by simpa using htime)]
  have hcount : (u32 v 0 = 0 || u32 v 0 > 500) ↔ ¬ (0 < (u32 v 0).toNat ∧ (u32 v 0).toNat ≤ 500) := by
    have hmax : u32 v 0 > 500 ↔ 500 < (u32 v 0).toNat := UInt32.lt_iff_toNat_lt
    have hzero : u32 v 0 = 0 ↔ (u32 v 0).toNat = 0 := UInt32.toNat_inj.symm
    simp only [Bool.or_eq_true,decide_eq_true_eq,hmax,hzero]
    omega
  by_cases hbunch : 0 < (u32 v 0).toNat ∧ (u32 v 0).toNat ≤ 500
  swap
  · rw [if_pos (hcount.mpr hbunch)]
    exact iff_of_true (within_pure _ _) fun _ _ h h' => absurd ⟨h,h'⟩ hbunch
  rw [if_neg fun h => hcount.mp h hbunch,within_bind]
  have hloop := receiveLoop_within_iff (b := b) (H := H) (E := E) (i := 0) (m := 0) hsize
      (Nat.zero_add _) hbunch.2 (by simp)
    (by show 12 ≤ v.size; omega)
  have hall : NumbersSane H E v b .smsgMsg ↔
      ∀ i < (u32 v 0).toNat, 0 ≤ i → (∀ j < i, Good H E v b j) → ReadsInside H E v b i :=
    ⟨fun h i hi _ => h (by omega) htime hbunch.1 hbunch.2 i hi,fun h _ _ _ _ i hi => h i hi (Nat.zero_le i)⟩
  rw [hall,← hloop]
  exact and_iff_left (within_pure _ _)

theorem secureMsgReceiveData_within_iff (H : Hashes) (E : SmsgEnv) (command : SmsgCommand)
    (v : Buffer) (b : Buckets) (hsize : v.size ≤ MAX_PROTOCOL_MESSAGE_LENGTH) :
    Within v.size (secureMsgReceiveData H E command v b) ↔ NumbersSane H E v b command := by
  cases command with
  | smsgInv => exact iff_of_true (smsgInv_within b) trivial
  | smsgShow => exact smsgShow_within_iff hsize b
  | smsgHave => exact iff_of_true (smsgHave_within hsize b) trivial
  | smsgWant => exact iff_of_true (smsgWant_within hsize b) trivial
  | smsgMsg => exact secureMsgReceive_within_iff hsize

end

namespace Sample

/-- The second message is one of this node. -/
def ownLast : Buffer := bunch [message 1 1200001 5,message 1 1200002 9]

def headerOnly : Buffer := bunch [(message 1 1200001 5).take 104]

/-- A message of this node with a payload of one byte. -/
def ownShort : List UInt8 :=
  let rest := [1,1,0]++i64Bytes 1200001++List.replicate 85 0++u32Bytes 1
  leBytes 4 (sumBytes (rest++[9,9]))++rest++[9]

/-- A count whose product with eight is 2^32. -/
def largeCount : Buffer := buffer (u32Bytes 0x20000000)

end Sample

open DarkSilk.Smsg.Sample in
theorem secureMsgReceiveData_within_own :
    Within ownLast.size (secureMsgReceiveData hashes env .smsgMsg ownLast ∅) ∧
      msgOwn env ownLast 1 = true :=
  ⟨(secureMsgReceiveData_within_iff hashes env .smsgMsg ownLast ∅ (by decide +kernel)).mpr
    fun _ _ _ _ => by decide +kernel,by decide +kernel⟩

open DarkSilk.Smsg.Sample in
/-- The payload is read where there is none, eight bytes of one of a single byte, and the times
of 2^29 buckets. -/
theorem secureMsgReceiveData_beyond :
    (headerOnly.size = 116 ∧ ¬ Within headerOnly.size
      (secureMsgReceiveData hashes env .smsgMsg headerOnly ∅)) ∧
    ((bunch [ownShort]).size = 117 ∧ PayloadInside (bunch [ownShort]) 0 ∧
      ¬ Within (bunch [ownShort]).size
        (secureMsgReceiveData hashes env .smsgMsg (bunch [ownShort]) ∅)) ∧
    largeCount.size = 4 ∧ ¬ Within largeCount.size
      (secureMsgReceiveData hashes env .smsgShow largeCount ∅) := by
  refine ⟨by decide +kernel,by decide +kernel,by decide +kernel,fun h => ?_⟩
  have hcount := (smsgShow_within_iff (by decide +kernel) ∅).mp h (by decide +kernel) (by decide +kernel)
  exact absurd hcount (by decide +kernel)

end Smsg
end DarkSilk
