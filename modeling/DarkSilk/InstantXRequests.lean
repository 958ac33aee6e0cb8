import DarkSilk.InstantXExpiry
import DarkSilk.StormnodeCollateral

/-! Lock requests: which transaction is kept under which hash, and the height that a request
gets for its lock. A vote that completes a lock looks its request up and makes one up if there
is none; the height is counted from one of the inputs. -/
namespace DarkSilk

open Runs List Option IxState

variable {P : Params} {E : IxEnv} {s : IxState} {tx : CTransaction}

variable {t u : IxState} {v : CConsensusVote}

def IxState.height (s : IxState) (hash : UInt256) : ℤ :=
  ((s.mapTxLocks[hash]?).map CTransactionLock.nBlockHeight).getD 0

theorem height_insert (s : IxState) (k h : UInt256) (lock : CTransactionLock) :
    height { s with mapTxLocks := s.mapTxLocks.insert k lock } h =
      if k = h then lock.nBlockHeight else s.height h := by
  rw [height,getElem?_insert]
  split_ifs <;> rfl

structure SameRequests (s t : IxState) : Prop where
  req : t.mapTxLockReq = s.mapTxLockReq
  rejected : t.mapTxLockReqRejected = s.mapTxLockReqRejected
  height : ∀ h, t.height h = s.height h

theorem SameRequests.refl (s) : SameRequests s s := ⟨rfl,rfl,fun _ => rfl⟩

theorem SameRequests.trans (h : SameRequests s t) (h' : SameRequests t u) : SameRequests s u :=
  ⟨h'.req.trans h.req,h'.rejected.trans h.rejected,fun k => (h'.height k).trans (h.height k)⟩

theorem sameRequests_expire (E) (hash : UInt256) (s : IxState) :
    SameRequests s (s.expire E hash) := by
  unfold expire
  cases hlock : s.mapTxLocks[hash]? with
  | none => exact .refl s
  | some lock =>
    refine ⟨rfl,rfl,fun h => ?_⟩
    rw [height_insert]
    split_ifs with hh
    · subst hh
      simp [height,hlock]
    · rfl

theorem sameRequests_checkForConflictingLocks (P E tx s) :
    SameRequests s (checkForConflictingLocks P E tx s).2 := by
  unfold checkForConflictingLocks
  dsimp only
  split
  · exact .refl s
  · exact (sameRequests_expire E _ s).trans (sameRequests_expire E _ _)

structure Announces (P : Params) (tx : CTransaction) (s t : IxState) : Prop where
  req : t.mapTxLockReq = s.mapTxLockReq ∨ t.mapTxLockReq = s.mapTxLockReq.insert (tx.getHash P) tx
  rejected : t.mapTxLockReqRejected = s.mapTxLockReqRejected ∨
    t.mapTxLockReqRejected = s.mapTxLockReqRejected.insert (tx.getHash P) tx
  height : ∀ h, h ≠ tx.getHash P → t.height h = s.height h

theorem SameRequests.announces (h : SameRequests s t) : Announces P tx s t :=
  ⟨.inl h.req,.inl h.rejected,fun k _ => h.height k⟩

theorem height_createNewLock (P : Params) (E : IxEnv) (s : IxState) {h} (hh : h ≠ tx.getHash P) :
    (createNewLock P E tx s).height h = s.height h := by
  unfold createNewLock
  split
  · rfl
  · rw [height_insert,if_neg hh.symm]

theorem announces_rejectIx (P E tx s) : Announces P tx s (rejectIx P E tx s) := by
  have hconflict := sameRequests_checkForConflictingLocks P E tx
    ((s.addRejected (tx.getHash P) tx).lockFor (tx.getHash P) tx.vin)
  unfold rejectIx
  dsimp only
  split
  · exact ⟨.inl rfl,.inr rfl,fun _ _ => rfl⟩
  · split_ifs
    · exact ⟨.inl hconflict.req,.inr hconflict.rejected,fun h _ => hconflict.height h⟩
    · refine ⟨.inr ?_,.inr hconflict.rejected,fun h _ => hconflict.height h⟩
      rw [addRequest,hconflict.req]
      rfl
    · exact ⟨.inl rfl,.inr rfl,fun _ _ => rfl⟩

theorem announces_processIx (P E tx s) : Announces P tx s (processIx P E tx s).2 := by
  obtain ⟨m,hm,-⟩ := keeps_createNewLock P E tx s
  have hreq : (createNewLock P E tx s).mapTxLockReq = s.mapTxLockReq := by rw [hm]
  have hrejected : (createNewLock P E tx s).mapTxLockReqRejected = s.mapTxLockReqRejected := by rw [hm]
  cases hadm : ixAdmissible P E tx s with
  | false =>
    rw [processIx_skip hadm]
    exact (SameRequests.refl s).announces
  | true =>
    cases hacc : E.acceptToMemoryPool P s.mapLockedInputs tx with
    | true =>
      obtain ⟨m',hm',-⟩ := doConsensusVote_spec P E tx (lockHeight E tx) (createNewLock P E tx s)
      rw [processIx_accepted hadm hacc,hm']
      exact ⟨.inr (by rw [← hreq]; rfl),.inl hrejected,fun h hh => height_createNewLock P E s hh⟩
    | false =>
      have hrefused := announces_rejectIx P E tx (createNewLock P E tx s)
      rw [processIx_rejected (by simp [ixRejected,hadm,hacc])]
      refine ⟨hreq ▸ hrefused.req,hrejected ▸ hrefused.rejected,fun h hh => ?_⟩
      rw [hrefused.height h hh,height_createNewLock P E s hh]

def completes (E : IxEnv) (v : CConsensusVote) (s : IxState) : Bool :=
  E.fEnabled && !s.mapTxLockVote.contains v.getHash && E.voteValid v &&
    decide (INSTANTX_SIGNATURES_REQUIRED ≤ ((s.lockOf E v.txHash).addSignature v).countSignatures)

theorem height_addSignature (E v) (s : IxState) (h : UInt256) :
    (s.addSignature E v).height h = s.height h := by
  rw [addSignature,height_insert]
  split_ifs with hh
  · subst hh
    rw [CTransactionLock.addSignature,lockOf,height]
    cases s.mapTxLocks[v.txHash]? <;> rfl
  · rfl

theorem completeLock_requests (P E hash s) :
    (completeLock P E hash s).mapTxLockReq = s.mapTxLockReq.insert hash
    ((s.mapTxLockReq[hash]?).getD E.nullTx) ∧
      (completeLock P E hash s).mapTxLockReqRejected = s.mapTxLockReqRejected ∧
      ∀ h, (completeLock P E hash s).height h = s.height h := by
  have hconflict := sameRequests_checkForConflictingLocks P E ((s.mapTxLockReq[hash]?).getD E.nullTx)
    (s.addRequest hash ((s.mapTxLockReq[hash]?).getD E.nullTx))
  unfold completeLock
  dsimp only
  split_ifs
  · exact ⟨hconflict.req,hconflict.rejected,hconflict.height⟩
  · exact ⟨hconflict.req,hconflict.rejected,hconflict.height⟩

theorem processTxlvote_requests (P) (E : IxEnv) (v : CConsensusVote) (s : IxState) :
    (processTxlvote P E v s).2.mapTxLockReq =
        (if completes E v s then s.mapTxLockReq.insert v.txHash
          ((s.mapTxLockReq[v.txHash]?).getD E.nullTx)
          else s.mapTxLockReq) ∧
      (processTxlvote P E v s).2.mapTxLockReqRejected = s.mapTxLockReqRejected ∧
      ∀ h, (processTxlvote P E v s).2.height h = s.height h := by
  by_cases hskip : E.fEnabled = false ∨ s.mapTxLockVote.contains v.getHash
  · have hnot : completes E v s = false := by
      rcases hskip with h | h <;> simp [completes,h]
    rw [processTxlvote_skip hskip,hnot]
    exact ⟨rfl,rfl,fun _ => rfl⟩
  · simp only [not_or,Bool.not_eq_false,Bool.not_eq_true] at hskip
    cases hvalid : E.voteValid v with
    | false =>
      have hnot : completes E v s = false := by simp [completes,hvalid]
      rw [processTxlvote_invalid hskip.1 hskip.2 hvalid,hnot]
      exact ⟨rfl,rfl,fun _ => rfl⟩
    | true =>
      have hiff : completes E v s =
          decide (INSTANTX_SIGNATURES_REQUIRED ≤ ((s.lockOf E v.txHash).addSignature v).countSignatures) := by
        simp [completes,hskip.1,hskip.2,hvalid]
      obtain ⟨m,hm⟩ := countUnknownVote_spec E v (collectVote P E v (s.see v))
      obtain ⟨hreq,hrejected,hheight⟩ := completeLock_requests P E v.txHash ((s.see v).addSignature E v)
      rw [processTxlvote_valid hskip.1 hskip.2 hvalid,hm,collectVote,hiff]
      rw [lockOf_addSignature]
      by_cases hcomplete : INSTANTX_SIGNATURES_REQUIRED ≤ ((s.lockOf E v.txHash).addSignature v).countSignatures
      · rw [if_pos (show INSTANTX_SIGNATURES_REQUIRED ≤
          (((s.see v).lockOf E v.txHash).addSignature v).countSignatures
          from hcomplete),decide_eq_true hcomplete]
        exact ⟨hreq,hrejected,fun h => (hheight h).trans (height_addSignature E v (s.see v) h)⟩
      · rw [if_neg (show ¬ INSTANTX_SIGNATURES_REQUIRED ≤
          (((s.see v).lockOf E v.txHash).addSignature v).countSignatures
          from hcomplete),decide_eq_false hcomplete]
        exact ⟨rfl,rfl,fun h => height_addSignature E v (s.see v) h⟩

structure Forgets (s t : IxState) : Prop where
  req : ∀ (h : UInt256) tx, t.mapTxLockReq[h]? = some tx → s.mapTxLockReq[h]? = some tx
  rejected : ∀ (h : UInt256) tx, t.mapTxLockReqRejected[h]? = some tx → s.mapTxLockReqRejected[h]? = some tx
  height : ∀ h, t.height h ≠ 0 → s.height h ≠ 0

theorem Forgets.trans (h : Forgets s t) (h' : Forgets t u) : Forgets s u :=
  ⟨fun k tx hk => h.req k tx (h'.req k tx hk),fun k tx hk => h.rejected k tx (h'.rejected k tx hk),
    fun k hk => h.height k (h'.height k hk)⟩

theorem forgets_cleanLock (E s e) : Forgets s (cleanLock E s e) := by
  have hheight : ∀ h, height { s with mapTxLocks := s.mapTxLocks.erase e.1 } h ≠ 0 → s.height h ≠ 0 := by
    intro h hne
    rw [height,getElem?_erase] at hne
    split_ifs at hne with hh
    · exact absurd rfl hne
    · exact hne
  unfold cleanLock
  split_ifs
  · dsimp only
    split
    · exact ⟨fun _ _ => id,fun _ _ => id,hheight⟩
    · exact ⟨fun h tx htx => (erase_eq_some.mp htx).1,fun h tx htx => (erase_eq_some.mp htx).1,hheight⟩
  · exact ⟨fun _ _ => id,fun _ _ => id,fun _ => id⟩

theorem forgets_clean (E s) : Forgets s (cleanTransactionLocksList E s) :=
  cleanTransactionLocksList_invariant (I := Forgets s) (fun t e _ ht => ht.trans (forgets_cleanLock E t e))
    ⟨fun _ _ => id,fun _ _ => id,fun _ => id⟩

variable {l : List IxMessage}

def IxState.Genuine (P : Params) (s : IxState) : Prop :=
  (∀ (h : UInt256) tx, s.mapTxLockReq[h]? = some tx → tx.getHash P = h) ∧
    ∀ (h : UInt256) tx, s.mapTxLockReqRejected[h]? = some tx → tx.getHash P = h

/-- A vote that completes a lock finds the request of the lock. -/
def FindsRequest (P : Params) (s : IxState) : IxMessage → Prop
  | .ix _ _ => True
  | .txlvote E v => completes E v s = true → s.mapTxLockReq.contains v.txHash = true ∨ E.nullTx.getHash P = v.txHash
  | .clean _ => True

theorem insert_genuine {m : HashMap CTransaction} {k}
    (hm : ∀ (h : UInt256) tx, m[h]? = some tx → tx.getHash P = h) (hk : tx.getHash P = k) :
    ∀ (h : UInt256) tx', (m.insert k tx)[h]? = some tx' → tx'.getHash P = h := by
  intro h tx' htx'
  rw [getElem?_insert] at htx'
  split_ifs at htx' with hh
  · rw [← some.inj htx',hk,hh]
  · exact hm h tx' htx'

theorem Announces.genuine (ht : Announces P tx s t) (hs : s.Genuine P) : t.Genuine P := by
  constructor
  · rcases ht.req with h | h <;> rw [h]
    · exact hs.1
    · exact insert_genuine hs.1 rfl
  · rcases ht.rejected with h | h <;> rw [h]
    · exact hs.2
    · exact insert_genuine hs.2 rfl

theorem genuine_step_iff (s msg) (hs : s.Genuine P) :
    (s.step P msg).Genuine P ↔ FindsRequest P s msg := by
  cases msg with
  | ix E tx => exact iff_of_true ((announces_processIx P E tx s).genuine hs) trivial
  | clean E =>
    have hclean := forgets_clean E s
    exact iff_of_true ⟨fun h tx htx => hs.1 h tx (hclean.req h tx htx),
      fun h tx htx => hs.2 h tx (hclean.rejected h tx htx)⟩ trivial
  | txlvote E v =>
    obtain ⟨hreq,hrejected,-⟩ := processTxlvote_requests P E v s
    show ((processTxlvote P E v s).2.Genuine P) ↔ _
    rw [IxState.Genuine,hrejected,and_iff_left hs.2,hreq,FindsRequest]
    cases hcomplete : completes E v s with
    | false => simpa using hs.1
    | true =>
      rw [if_pos rfl]
      simp only [true_implies]
      cases hold : s.mapTxLockReq[v.txHash]? with
      | some tx =>
        refine iff_of_true (insert_genuine hs.1 (hs.1 _ _ hold)) (.inl ?_)
        rw [Std.ExtTreeMap.contains_eq_isSome_getElem?,hold]
        rfl
      | none =>
        have hmissing : s.mapTxLockReq.contains v.txHash = false := by
          rw [Std.ExtTreeMap.contains_eq_isSome_getElem?,hold]
          rfl
        simp only [hmissing,Bool.false_eq_true,false_or,getD_none]
        constructor
        · intro h
          exact h v.txHash E.nullTx (by rw [getElem?_insert,if_pos rfl])
        · exact insert_genuine hs.1

def Announced (P : Params) (l : List IxMessage) (h : UInt256) : Prop :=
  ∃ E tx, IxMessage.ix E tx ∈ l ∧ tx.getHash P = h

structure IxState.Traced (P : Params) (l : List IxMessage) (s : IxState) : Prop where
  req : ∀ h : UInt256, s.mapTxLockReq.contains h = true → Announced P l h
  rejected : ∀ h : UInt256, s.mapTxLockReqRejected.contains h = true → Announced P l h
  height : ∀ h, s.height h ≠ 0 → Announced P l h

theorem Announced.mono {l' h} (ha : Announced P l h) (hl : l ⊆ l') : Announced P l' h := by
  obtain ⟨E,tx,hmem,hhash⟩ := ha
  exact ⟨E,tx,hl hmem,hhash⟩

theorem IxState.traced_empty (P) : empty.Traced P [] := by
  constructor <;> simp [empty,height]

theorem height_ne_zero_of_completes (h : completes E v s) : s.height v.txHash ≠ 0 := by
  simp only [completes,Bool.and_eq_true,decide_eq_true_eq] at h
  have hcount := h.2
  intro hzero
  have hlock : ((s.lockOf E v.txHash).addSignature v).nBlockHeight = 0 := by
    rw [← hzero,CTransactionLock.addSignature,lockOf,height]
    cases s.mapTxLocks[v.txHash]? <;> rfl
  rw [CTransactionLock.countSignatures,if_pos hlock,INSTANTX_SIGNATURES_REQUIRED] at hcount
  omega

theorem IxState.Traced.step (hs : s.Traced P l) (msg) : (s.step P msg).Traced P (l++[msg]) := by
  have hmono : ∀ {h}, Announced P l h → Announced P (l++[msg]) h :=
    fun ha => ha.mono (subset_append_left l [msg])
  cases msg with
  | ix E tx =>
    have hnew : Announced P (l++[.ix E tx]) (tx.getHash P) := ⟨E,tx,by simp,rfl⟩
    have hmap : ∀ {m m' : HashMap CTransaction}, (∀ h : UInt256, m.contains h → Announced P l h) →
        m' = m ∨ m' = m.insert (tx.getHash P) tx →
          ∀ h : UInt256, m'.contains h → Announced P (l++[.ix E tx]) h := by
      rintro m m' hm (rfl | rfl) h hh
      · exact hmono (hm h hh)
      · rw [contains_insert,Bool.or_eq_true,decide_eq_true_eq] at hh
        rcases hh with rfl | hh
        · exact hnew
        · exact hmono (hm h hh)
    have hix := announces_processIx P E tx s
    refine ⟨hmap hs.req hix.req,hmap hs.rejected hix.rejected,fun h hh => ?_⟩
    by_cases heq : h = tx.getHash P
    · exact heq ▸ hnew
    · exact hmono (hs.height h (by rwa [← hix.height h heq]))
  | clean E =>
    have hclean := forgets_clean E s
    refine ⟨fun h hh => hmono (hs.req h ?_),fun h hh => hmono (hs.rejected h ?_),
      fun h hh => hmono (hs.height h (hclean.height h hh))⟩
    · rw [Std.ExtTreeMap.contains_eq_isSome_getElem?,isSome_iff_exists] at hh ⊢
      exact hh.imp (hclean.req h)
    · rw [Std.ExtTreeMap.contains_eq_isSome_getElem?,isSome_iff_exists] at hh ⊢
      exact hh.imp (hclean.rejected h)
  | txlvote E v =>
    obtain ⟨hreq,hrejected,hheight⟩ := processTxlvote_requests P E v s
    refine ⟨fun h hh => hmono ?_,fun h hh => hmono (hs.rejected h ?_),fun h hh => hmono (hs.height h ?_)⟩
    · change (processTxlvote P E v s).2.mapTxLockReq.contains h at hh
      rw [hreq] at hh
      split_ifs at hh with hcomplete
      · rw [contains_insert,Bool.or_eq_true,decide_eq_true_eq] at hh
        rcases hh with rfl | hh
        · exact hs.height _ (height_ne_zero_of_completes hcomplete)
        · exact hs.req h hh
      · exact hs.req h hh
    · rwa [← hrejected]
    · rwa [← hheight h]

theorem traced_ixRun (P l) : (ixRun P l).Traced P l := by
  induction l using List.reverseRecOn with
  | nil => exact traced_empty P
  | append_singleton l msg ih =>
    rw [ixRun_concat]
    exact ih.step msg

/-- Throughout a run all requests are kept under their own hashes if and only if every vote
that completes a lock finds the request of the lock. In any case only the hashes of requests
that came in count as known. -/
theorem requests_genuine_iff (P : Params) (l : List IxMessage) :
    ((∀ l₁, l₁ <+: l → (ixRun P l₁).Genuine P) ↔ Always (step P) (FindsRequest P) .empty l) ∧
      ∀ tx : CTransaction, (ixRun P l).mapTxLockReq.contains (tx.getHash P) = true ∨
        (ixRun P l).mapTxLockReqRejected.contains (tx.getHash P) = true → Announced P l
    (tx.getHash P) := by
  have hempty : empty.Genuine P := by
    constructor <;> simp [empty]
  refine ⟨forall_prefix_iff_always genuine_step_iff hempty,?_⟩
  rintro tx (hreq | hrejected)
  · exact (traced_ixRun P l).req _ hreq
  · exact (traced_ixRun P l).rejected _ hrejected

namespace Sample

def emptyPay : CTransaction := payment 150 [] [⟨-CENT,[0x6a]⟩]

def madeUpRun : List IxMessage :=
  .ix ixNet emptyPay::[1,2,3,4,5,6,7,8,9,10].map fun node =>
    .txlvote ixNet (vote node (emptyPay.getHash params) 4 [1])

end Sample

open Sample

/-- A request that the memory pool refuses, and ten votes for it: a transaction without inputs
and outputs takes its place among the requests. -/
theorem request_made_up :
    ((ixRun params madeUpRun).mapTxLockReqRejected[emptyPay.getHash params]?) =
        some emptyPay ∧
      ((ixRun params madeUpRun).mapTxLockReq[emptyPay.getHash params]?) = some ixNet.nullTx ∧
      ixNet.nullTx.getHash params ≠ emptyPay.getHash params := by
  decide +kernel

variable {E' : IxEnv}

/-- Height of the block that the look-up of a previous transaction names. -/
def IxEnv.confirmed (E : IxEnv) (i : CTxIn) : Option ℤ :=
  (E.getTransaction i.prevout.hash).bind fun found => E.blockHeight found.2

theorem getInputAge_eq (E : IxEnv) (i) :
    E.getInputAge i = ((E.confirmed i).map fun nHeight => E.nBestHeight-nHeight).getD 0 := by
  unfold IxEnv.getInputAge IxEnv.confirmed
  rcases E.getTransaction i.prevout.hash with _ | ⟨txPrev,hashBlock⟩
  · rfl
  · dsimp only [bind_some]
    cases E.blockHeight hashBlock <;> rfl

/-- The best chain has grown and is the same below: what was confirmed stays where it is. -/
structure IxEnv.Extends (E E' : IxEnv) : Prop where
  grows : E.nBestHeight ≤ E'.nBestHeight
  transaction : ∀ hash txPrev hashBlock nHeight, E.getTransaction hash = some (txPrev,hashBlock) →
    E.blockHeight hashBlock = some nHeight → E'.getTransaction hash = some (txPrev,hashBlock)
  block : ∀ hash nHeight, E.blockHeight hash = some nHeight → E'.blockHeight hash = some nHeight

theorem IxEnv.Extends.confirmed (h : E.Extends E') {i nHeight} (hi : E.confirmed i = some nHeight) :
    E'.confirmed i = some nHeight := by
  obtain ⟨⟨txPrev,hashBlock⟩,hget,hblock⟩ := bind_eq_some_iff.mp hi
  rw [IxEnv.confirmed,h.transaction _ _ _ _ hget hblock,bind_some]
  exact h.block _ _ hblock

theorem txAge_eq_some {nTxAge nAge vin} : txAge E nTxAge vin = some nAge ↔
    (∀ i ∈ vin, 9 ≤ E.getInputAge i) ∧ nAge = (vin.getLast?.map E.getInputAge).getD nTxAge := by
  induction vin generalizing nTxAge with
  | nil => simp [txAge,eq_comm]
  | cons i vin ih =>
    rw [txAge]
    split_ifs with hyoung
    · refine iff_of_false (by simp) ?_
      rintro ⟨hold,-⟩
      exact absurd (hold i mem_cons_self) (by omega)
    · have hold : 9 ≤ E.getInputAge i := by omega
      rw [ih,forall_mem_cons,and_iff_right hold]
      cases vin with
      | nil => simp
      | cons i' vin =>
        obtain ⟨j,hj⟩ : ∃ j, (i'::vin).getLast? = some j := ⟨_,getLast?_eq_some_getLast (cons_ne_nil i' vin)⟩
        rw [getLast?_cons_cons,hj]
        rfl

theorem confirmed_of_age {i} (h : 9 ≤ E.getInputAge i) :
    ∃ nHeight, E.confirmed i = some nHeight ∧ E.getInputAge i = E.nBestHeight-nHeight := by
  rw [getInputAge_eq] at h ⊢
  cases hi : E.confirmed i with
  | none =>
    rw [hi] at h
    exact absurd h (show ¬ (9 : ℤ) ≤ 0 by decide)
  | some nHeight => exact ⟨nHeight,rfl,rfl⟩

theorem lockHeight_cons {i vin nHeight} (hvin : tx.vin = i::vin) (hi : E.confirmed i = some nHeight)
    (hold : ∀ j ∈ tx.vin, 9 ≤ E.getInputAge j) : lockHeight E tx = nHeight+4 := by
  have hage : txAge E 0 tx.vin.reverse = some (E.getInputAge i) := by
    refine txAge_eq_some.mpr ⟨fun j hj => hold j (mem_reverse.mp hj),?_⟩
    rw [getLast?_reverse,hvin]
    rfl
  rw [lockHeight,hage]
  simp only [getInputAge_eq,hi,map_some,getD_some]
  omega

theorem height_createNewLock_self (P : Params) (s : IxState) (h : lockHeight E tx ≠ 0) :
    (createNewLock P E tx s).height (tx.getHash P) = lockHeight E tx := by
  unfold createNewLock
  split
  · rename_i hnone
    exact absurd (by rw [lockHeight,hnone]) h
  · rw [height_insert,if_pos rfl]
    cases s.mapTxLocks[tx.getHash P]? <;> rfl

/-- The height of a lock is above the inputs, and stays when the request comes again on a
longer chain. -/
def SteadyHeight (P : Params) (E : IxEnv) (tx : CTransaction) : Prop :=
  (∀ i ∈ tx.vin, ∀ nHeight, E.confirmed i = some nHeight → nHeight < lockHeight E tx) ∧
    ∀ E', E.Extends E' → lockHeight E' tx = lockHeight E tx ∧
      ∀ s, (createNewLock P E' tx s).height (tx.getHash P) = lockHeight E tx

/-- The height of a lock is right if and only if the transaction has an input and none is
confirmed four or more blocks above the first. -/
theorem steadyHeight_iff (P : Params) (h : lockHeight E tx ≠ 0) :
    SteadyHeight P E tx ↔ ∃ i vin, tx.vin = i::vin ∧ ∀ j ∈ vin, ∀ nFirst nHeight,
      E.confirmed i = some nFirst → E.confirmed j = some nHeight → nHeight < nFirst+4 := by
  obtain ⟨nAge,hage⟩ : ∃ nAge, txAge E 0 tx.vin.reverse = some nAge := by
    cases hnone : txAge E 0 tx.vin.reverse with
    | none => exact absurd (by rw [lockHeight,hnone]) h
    | some nAge => exact ⟨nAge,rfl⟩
  have hold : ∀ i ∈ tx.vin, 9 ≤ E.getInputAge i := fun i hi =>
    (txAge_eq_some.mp hage).1 i (mem_reverse.mpr hi)
  cases hvin : tx.vin with
  | nil =>
    refine iff_of_false ?_ (by simp)
    rintro ⟨-,hsteady⟩
    have hnil : ∀ E : IxEnv, lockHeight E tx = E.nBestHeight+4 := by
      intro E
      simp [lockHeight,hvin,txAge]
    have hnext := (hsteady { E with nBestHeight := E.nBestHeight+1 }
      ⟨by show E.nBestHeight ≤ E.nBestHeight+1; omega,fun _ _ _ _ hget _ => hget,fun _ _ hblock => hblock⟩).1
    rw [hnil,hnil] at hnext
    dsimp only at hnext
    omega
  | cons i vin =>
    obtain ⟨nFirst,hfirst,-⟩ := confirmed_of_age (hold i (hvin ▸ mem_cons_self))
    have hheight := lockHeight_cons hvin hfirst hold
    constructor
    · rintro ⟨habove,-⟩
      refine ⟨i,vin,rfl,fun j hj n nHeight hn hnHeight => ?_⟩
      have hlt := habove j (hvin ▸ mem_cons_of_mem i hj) nHeight hnHeight
      rw [hfirst] at hn
      cases hn
      omega
    · rintro ⟨i',vin',hcons,hnear⟩
      cases hcons
      refine ⟨fun j hj nHeight hj' => ?_,fun E' hE' => ?_⟩
      · rw [hheight]
        rw [hvin] at hj
        rcases mem_cons.mp hj with rfl | hj
        · rw [hfirst] at hj'
          cases hj'
          omega
        · exact hnear j hj nFirst nHeight hfirst hj'
      · have hold' : ∀ j ∈ tx.vin, 9 ≤ E'.getInputAge j := by
          intro j hj
          obtain ⟨nHeight,hconf,hbelow⟩ := confirmed_of_age (hold j hj)
          have hgrows := hE'.grows
          have hj9 := hold j hj
          rw [getInputAge_eq,hE'.confirmed hconf]
          show 9 ≤ E'.nBestHeight-nHeight
          omega
        have hheight' := lockHeight_cons hvin (hE'.confirmed hfirst) hold'
        have hsame : lockHeight E' tx = lockHeight E tx := by rw [hheight',hheight]
        refine ⟨hsame,fun s => ?_⟩
        rw [height_createNewLock_self P s (by rw [hsame]; exact h),hsame]

namespace Sample

def ixNamed : IxEnv :=
  { ixVoters with
    nBestHeight := 100
    getTransaction := fun hash => if hash = fund.getHash params then some (fund,5) else none
    blockHeight := fun _ => some 50 }

end Sample

open Sample

theorem steadyHeight_lockedPay :
    lockHeight ixNamed lockedPay = 54 ∧ SteadyHeight params ixNamed lockedPay := by
  have hheight : lockHeight ixNamed lockedPay = 54 := by decide +kernel
  refine ⟨hheight,(steadyHeight_iff params (by rw [hheight]; decide)).mpr ⟨_,[],rfl,?_⟩⟩
  exact fun j hj => absurd hj not_mem_nil

namespace Sample

def ixApart : IxEnv :=
  { ixNamed with
    getTransaction := fun hash => some (fund,hash)
    blockHeight := fun hash => if hash = 1 then some 50 else some 90 }

def apartPay : CTransaction := payment 150 [⟨1,0⟩,⟨2,0⟩] [⟨9*COIN,[0x6a]⟩]

end Sample

/-- The height of a request without inputs moves with the tip; and a request with an older
input in front of a younger one has a height below the younger one. -/
theorem height_not_steady : (lockHeight ixNet emptyPay = 4 ∧
      lockHeight (ixVoters.on params blockFiles onA₁) emptyPay = 5) ∧
    lockHeight ixApart apartPay = 54 ∧ apartPay.vin.map ixApart.confirmed = [some 50,some 90] := by
  decide +kernel

end DarkSilk
