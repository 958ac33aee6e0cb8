import DarkSilk.InstantXVotes

/-! The order of a lock request and its votes. A lock that votes have opened has height
zero and is never complete; the request sets the height, but does not look whether the
lock is complete by then. The inputs are locked by the next vote that is collected. On a
node the height is zero all the same, since its inputs have no age. -/
namespace DarkSilk

open List IxState

variable (P : Params) (tx : CTransaction)

def voteFor : IxMessage → Option CConsensusVote
  | .txlvote E v => if v.txHash = tx.getHash P ∧ E.fEnabled = true ∧ E.voteValid v = true then some v else none
  | _ => none

/-- The votes of a run for the transaction that are not known yet when they come. -/
def collected : IxState → List IxMessage → List CConsensusVote
  | _, [] => []
  | s, msg::l =>
    ((voteFor P tx msg).filter fun v => !s.mapTxLockVote.contains v.getHash).toList++collected (s.step P msg) l

structure LeftAlone (s t : IxState) : Prop where
  lock : t.mapTxLocks[tx.getHash P]? = s.mapTxLocks[tx.getHash P]?
  request : t.mapTxLockReq[tx.getHash P]? = s.mapTxLockReq[tx.getHash P]?
  inputs : ∀ i ∈ tx.vin, t.mapLockedInputs i.prevout = s.mapLockedInputs i.prevout

/-- Apart from its valid votes no message of a run touches the transaction: there is no
conflicting lock, and nothing expires. -/
def Undisturbed (s : IxState) (l : List IxMessage) : Prop :=
  Runs.Always (IxState.step P) (fun s msg => voteFor P tx msg = none → LeftAlone P tx s (s.step P msg)) s l

def ixAccepted (E : IxEnv) (s : IxState) : Bool :=
  ixAdmissible P E tx s && E.acceptToMemoryPool P s.mapLockedInputs tx

def complete (nBlockHeight : ℤ) (votes : List CConsensusVote) : Prop :=
  nBlockHeight ≠ 0 ∧ INSTANTX_SIGNATURES_REQUIRED ≤ votes.countP fun v => v.nBlockHeight = nBlockHeight

instance (nBlockHeight : ℤ) (votes : List CConsensusVote) :
    Decidable (complete nBlockHeight votes) :=
  inferInstanceAs (Decidable (_ ∧ _))

theorem le_countSignatures_iff (lock : CTransactionLock) :
    INSTANTX_SIGNATURES_REQUIRED ≤ lock.countSignatures ↔
      complete lock.nBlockHeight lock.vecConsensusVotes := by
  unfold CTransactionLock.countSignatures complete
  split_ifs with hzero
  · simp [hzero,INSTANTX_SIGNATURES_REQUIRED]
  · simp [hzero]

theorem complete.append {n votes} (h : complete n votes) (l) : complete n (votes++l) := by
  refine ⟨h.1,h.2.trans ?_⟩
  rw [countP_append]
  exact_mod_cast Nat.le_add_right _ _

/-- How far the lock of a transaction has come: its height, its votes, and whether the
inputs are locked. A height comes with the request. -/
structure Progress (P : Params) (tx : CTransaction) (n : ℤ) (votes : List CConsensusVote)
    (done : Prop) (s : IxState) :
    Prop where
  height : ((s.mapTxLocks[tx.getHash P]?).map CTransactionLock.nBlockHeight).getD 0 = n
  votes : s.votes (tx.getHash P) = votes
  request : n ≠ 0 → s.mapTxLockReq[tx.getHash P]? = some tx
  locked : done → ∀ i ∈ tx.vin, s.mapLockedInputs i.prevout = some (tx.getHash P)
  free : ¬ done → ∀ i ∈ tx.vin, s.mapLockedInputs i.prevout = none

variable {P} {E : IxEnv} {tx} {v : CConsensusVote} {n : ℤ} {votes : List CConsensusVote} {done : Prop} {s t : IxState}
  {l : List IxMessage}

variable {msg : IxMessage}

theorem voteFor_eq_some (h : voteFor P tx msg = some v) :
    ∃ E : IxEnv, msg = .txlvote E v ∧ v.txHash = tx.getHash P ∧ E.fEnabled ∧ E.voteValid v := by
  cases msg with
  | ix E tx' => exact absurd h (by simp [voteFor])
  | clean E => exact absurd h (by simp [voteFor])
  | txlvote E v' =>
    rw [voteFor] at h
    split_ifs at h with hvote
    cases h
    exact ⟨E,rfl,hvote⟩

theorem collected_cons_other (h : voteFor P tx msg = none) :
    collected P tx s (msg::l) = collected P tx (s.step P msg) l := by
  simp [collected,h]

theorem collected_cons_seen (h : voteFor P tx msg = some v)
    (hseen : s.mapTxLockVote.contains v.getHash) :
    collected P tx s (msg::l) = collected P tx (s.step P msg) l := by
  rw [collected,h,Option.filter_some_neg (by rw [hseen]; rfl)]
  rfl

theorem collected_cons_fresh (h : voteFor P tx msg = some v)
    (hfresh : s.mapTxLockVote.contains v.getHash = false) :
    collected P tx s (msg::l) = v::collected P tx (s.step P msg) l := by
  rw [collected,h,Option.filter_some_pos (by rw [hfresh]; rfl)]
  rfl

theorem Progress.leftAlone (h : Progress P tx n votes done s) (ht : LeftAlone P tx s t) :
    Progress P tx n votes done t := by
  refine ⟨?_,?_,fun hn => ht.request.trans (h.request hn),
    fun hd i hi => (ht.inputs i hi).trans (h.locked hd i hi),
    fun hd i hi => (ht.inputs i hi).trans (h.free hd i hi)⟩
  · rw [ht.lock]
    exact h.height
  · rw [IxState.votes,ht.lock]
    exact h.votes

theorem Progress.lockOf (h : Progress P tx n votes done s) (E) :
    (s.lockOf E (tx.getHash P)).nBlockHeight = n ∧ (s.lockOf E (tx.getHash P)).vecConsensusVotes =
      votes := by
  refine ⟨?_,(lockOf_votes s _).trans h.votes⟩
  rw [← h.height,IxState.lockOf]
  cases s.mapTxLocks[tx.getHash P]? <;> rfl

theorem Progress.no_conflict (h : Progress P tx n votes done s) :
    checkForConflictingLocks P E tx s = (false,s) := by
  have hnone : (tx.vin.findSome? fun i => (s.mapLockedInputs i.prevout).filter fun hash => hash ≠
      tx.getHash P) = none := by
    rw [findSome?_eq_none_iff]
    intro i hi
    by_cases hd : done
    · rw [h.locked hd i hi]
      simp
    · rw [h.free hd i hi]
      rfl
  unfold checkForConflictingLocks
  rw [hnone]

theorem Progress.completeLock (h : Progress P tx n votes done s) (hn : n ≠ 0) :
    Progress P tx n votes True (completeLock P E (tx.getHash P) s) := by
  have hreq : ((s.mapTxLockReq[tx.getHash P]?).getD E.nullTx) = tx := by rw [h.request hn]; rfl
  have hadd : Progress P tx n votes done (s.addRequest (tx.getHash P) tx) := by
    refine ⟨h.height,h.votes,fun _ => ?_,h.locked,h.free⟩
    rw [addRequest,getElem?_insert,if_pos rfl]
  unfold DarkSilk.completeLock
  dsimp only
  rw [hreq,hadd.no_conflict]
  refine ⟨h.height,h.votes,hadd.request,fun _ i hi => ?_,fun hd => absurd trivial hd⟩
  change lockInputs (tx.getHash P) tx.vin s.mapLockedInputs i.prevout = _
  rw [lockInputs_apply,if_pos (mem_map_of_mem hi)]
  by_cases hd : done
  · rw [h.locked hd i hi]
    rfl
  · rw [h.free hd i hi]
    rfl

theorem Progress.vote (h : Progress P tx n votes done s) (htx : v.txHash = tx.getHash P)
    (hon : E.fEnabled)
    (hvalid : E.voteValid v) (hfresh : s.mapTxLockVote.contains v.getHash = false) :
    Progress P tx n (votes++[v]) (done ∨ complete n (votes++[v])) (processTxlvote P E v s).2 := by
  obtain ⟨m,hm⟩ := countUnknownVote_spec E v (collectVote P E v (s.see v))
  rw [processTxlvote_valid hon hfresh hvalid,hm]
  have hsee : Progress P tx n votes done (s.see v) := ⟨h.height,h.votes,h.request,h.locked,h.free⟩
  have hadd : Progress P tx n (votes++[v]) done ((s.see v).addSignature E v) := by
    refine ⟨?_,?_,hsee.request,hsee.locked,hsee.free⟩
    · rw [← (hsee.lockOf E).1,addSignature,getElem?_insert,if_pos htx,htx]
      rfl
    · rw [votes_addSignature,if_pos htx,hsee.votes]
  have hcount : INSTANTX_SIGNATURES_REQUIRED ≤ (((s.see v).addSignature E v).lockOf E v.txHash).countSignatures ↔
      complete n (votes++[v]) := by
    rw [le_countSignatures_iff,htx,(hadd.lockOf E).1,(hadd.lockOf E).2]
  have hcollect : Progress P tx n (votes++[v]) (done ∨
      complete n (votes++[v])) (collectVote P E v (s.see v)) := by
    unfold collectVote
    dsimp only
    split_ifs with hreq
    · have hc := hcount.mp hreq
      rw [htx]
      have hlock := hadd.completeLock (E := E) hc.1
      rwa [eq_true (.inr hc : done ∨ complete n (votes++[v]))]
    · rw [hcount] at hreq
      rwa [or_iff_left hreq]
  exact ⟨hcollect.height,hcollect.votes,hcollect.request,hcollect.locked,hcollect.free⟩

theorem Progress.request_accepted (h : Progress P tx 0 votes False s) (hacc : ixAccepted P tx E s) :
    Progress P tx (lockHeight E tx) votes False (processIx P E tx s).2 := by
  rw [ixAccepted,Bool.and_eq_true] at hacc
  obtain ⟨m,hm,-⟩ := doConsensusVote_spec P E tx (lockHeight E tx) (createNewLock P E tx s)
  obtain ⟨m',hm',hkeeps⟩ := keeps_createNewLock P E tx s
  rw [processIx_accepted hacc.1 hacc.2,hm]
  refine ⟨?_,(hkeeps.votes _).trans h.votes,fun _ => ?_,fun hd => hd.elim,fun _ i hi => ?_⟩
  · change (((createNewLock P E tx s).mapTxLocks[tx.getHash P]?).map CTransactionLock.nBlockHeight).getD 0 = _
    unfold createNewLock
    split
    · rename_i hage
      rw [h.height,lockHeight,hage]
    · rw [getElem?_insert,if_pos rfl]
      cases s.mapTxLocks[tx.getHash P]? <;> rfl
  · rw [addRequest,getElem?_insert,if_pos rfl]
  · change (createNewLock P E tx s).mapLockedInputs i.prevout = none
    rw [hm']
    exact h.free id i hi

theorem Progress.run (h : Progress P tx n votes done s) (hl : Undisturbed P tx s l) :
    Progress P tx n (votes++collected P tx s l)
      (done ∨ collected P tx s l ≠ [] ∧
        complete n (votes++collected P tx s l)) (l.foldl (step P) s) := by
  induction l generalizing s votes done with
  | nil => simpa [collected] using h
  | cons msg l ih =>
    obtain ⟨hmsg,hl⟩ := hl
    rw [foldl_cons]
    cases hv : voteFor P tx msg with
    | none =>
      rw [collected_cons_other hv]
      exact ih (h.leftAlone (hmsg hv)) hl
    | some v =>
      obtain ⟨E,rfl,htx,hon,hvalid⟩ := voteFor_eq_some hv
      cases hseen : s.mapTxLockVote.contains v.getHash with
      | true =>
        have hskip : s.step P (.txlvote E v) = s := processTxlvote_skip (.inr hseen)
        rw [collected_cons_seen hv hseen]
        rw [hskip] at hl ⊢
        exact ih h hl
      | false =>
        have hrest := ih (h.vote htx hon hvalid hseen) hl
        have hdone : ∀ c : List CConsensusVote,
            ((done ∨ complete n (votes++[v])) ∨ c ≠ [] ∧ complete n (votes++[v]++c)) ↔
            done ∨ v::c ≠ [] ∧ complete n (votes++v::c) := by
          intro c
          rw [append_assoc,singleton_append,or_assoc]
          refine or_congr_right ⟨?_,fun hc => ?_⟩
          · rintro (hc | ⟨-,hc⟩)
            · exact ⟨cons_ne_nil v c,by simpa using hc.append c⟩
            · exact ⟨cons_ne_nil v c,hc⟩
          · by_cases hnil : c = []
            · exact .inl (hnil ▸ hc.2)
            · exact .inr ⟨hnil,hc.2⟩
        rw [collected_cons_fresh hv hseen]
        rw [hdone,append_assoc,singleton_append] at hrest
        exact hrest

theorem vin_ne_nil_of_accepted (h : ixAccepted P tx E s) : tx.vin ≠ [] := by
  rw [ixAccepted,Bool.and_eq_true,IxEnv.acceptToMemoryPool,MemPoolMaps.acceptToMemoryPool] at h
  have hacc := h.2
  split at hacc
  · exact absurd hacc (by simp [Except.toBool])
  · rename_i hok
    simp only [acceptable,andThen_eq_ok] at hok
    cases hcheck : checkTransaction tx with
    | ok u => exact (checked_of_checkTransaction hcheck).vin_ne
    | error e =>
      rw [hcheck] at hok
      exact absurd hok.1 (by simp)

/-- The inputs of an accepted request end up locked for it exactly if its height is not zero,
ten of its votes at this height are collected, and one of the votes after the request. On a
node they stay free, whatever votes come. -/
theorem locked_iff_vote_follows_request {P : Params} {E : IxEnv} {tx : CTransaction} {s : IxState}
    {before after : List IxMessage} (hlock : s.mapTxLocks[tx.getHash P]? = none)
    (hfree : ∀ i ∈ tx.vin, s.mapLockedInputs i.prevout = none) (hbefore : Undisturbed P tx s before)
    (hacc : ixAccepted P tx E (before.foldl (step P) s) = true)
    (hafter : Undisturbed P tx ((before.foldl (step P) s).step P (.ix E tx)) after) :
    ((∀ i ∈ tx.vin, ((before++IxMessage.ix E tx::after).foldl (step P) s).mapLockedInputs
      i.prevout =
        some (tx.getHash P)) ↔
      collected P tx ((before.foldl (step P) s).step P (.ix E tx)) after ≠ [] ∧
        complete (lockHeight E tx) (collected P tx s before++
          collected P tx ((before.foldl (step P) s).step P (.ix E tx)) after)) ∧
    ∀ E₀ files n, E = IxEnv.on E₀ P files n → n.NoNullBlock P →
      ∀ i ∈ tx.vin, ((before++IxMessage.ix E tx::after).foldl (step P) s).mapLockedInputs
        i.prevout = none := by
  have hstart : Progress P tx 0 [] False s :=
    ⟨by rw [hlock]; rfl,by rw [votes,hlock]; rfl,fun h => absurd rfl h,fun h => h.elim,fun _ => hfree⟩
  have hasked := hstart.run hbefore
  have hnone : ¬ (False ∨ collected P tx s before ≠ [] ∧ complete 0 ([]++collected P tx s before)) := by
    rintro (h | ⟨-,h⟩)
    · exact h
    · exact h.1 rfl
  rw [eq_false hnone,nil_append] at hasked
  have hend := (hasked.request_accepted hacc).run hafter
  rw [foldl_append,foldl_cons]
  refine ⟨⟨fun h => ?_,fun h => hend.locked (.inr h)⟩,?_⟩
  · by_contra hnot
    obtain ⟨i,hi⟩ := exists_mem_of_ne_nil _ (vin_ne_nil_of_accepted hacc)
    have hopen := hend.free (fun hd => hd.elim id hnot) i hi
    cases (h i hi).symm.trans hopen
  · rintro E₀ files n rfl hn
    refine hend.free fun hd => ?_
    exact vin_ne_nil_of_accepted hacc (vin_eq_nil_of_lockHeight hn (hd.elim False.elim fun h => h.2.1))

namespace Sample

def lockedPay : CTransaction := payment 150 [⟨fund.getHash params,0⟩] [⟨9*COIN,[0x6a]⟩]

def ixVotes (nodes : List UInt256) : List IxMessage :=
  nodes.map fun node => .txlvote ixNet (vote node (lockedPay.getHash params) 0 [1])

theorem voteFor_ixVotes (nodes) : ∀ msg ∈ ixVotes nodes, (voteFor params lockedPay msg).isSome := by
  intro msg hmsg
  obtain ⟨node,-,rfl⟩ := mem_map.mp hmsg
  have hvalid : ixNet.voteValid (vote node (lockedPay.getHash params) 0 [1]) := rfl
  rw [voteFor,if_pos ⟨rfl,rfl,hvalid⟩]
  rfl

theorem undisturbed_ixVotes (s nodes) : Undisturbed params lockedPay s (ixVotes nodes) := by
  refine Runs.always_iff.mpr fun l₁ msg hpre hnone => ?_
  have hsome := voteFor_ixVotes nodes msg (hpre.subset (by simp))
  rw [hnone] at hsome
  cases hsome

theorem noNullBlock_fundNode : fundNode.NoNullBlock params := ⟨by decide +kernel,by decide +kernel⟩

end Sample

open Sample

theorem locked_iff_vote_follows_request_nine :
    ((ixVotes [1,2,3,4,5,6,7,8,9]++IxMessage.ix ixNet lockedPay::ixVotes [10]).foldl
      (step params) .empty).mapLockedInputs ⟨fund.getHash params,0⟩ = none := by
  have hrun := @locked_iff_vote_follows_request params ixNet lockedPay .empty
    (ixVotes [1,2,3,4,5,6,7,8,9]) (ixVotes [10]) (by decide +kernel) (fun _ _ => rfl)
    (undisturbed_ixVotes _ _) (by decide +kernel) (undisturbed_ixVotes _ _)
  have hpay : (⟨⟨fund.getHash params,0⟩,[],0xFFFFFFFF⟩ : CTxIn) ∈ lockedPay.vin := mem_cons_self
  simpa only using hrun.2 ixVoters fundFiles fundNode rfl noNullBlock_fundNode _ hpay

/-- Ten stormnodes vote at the lock height of an accepted request, before or after it comes:
its input stays free. -/
theorem votes_do_not_lock :
    (∀ msg ∈ ixVotes [1,2,3,4,5,6,7,8,9,10], (voteFor params lockedPay msg).isSome) ∧
    lockHeight ixNet lockedPay = 0 ∧
    ixAccepted params lockedPay ixNet .empty = true ∧
    ((IxMessage.ix ixNet lockedPay::ixVotes [1,2,3,4,5,6,7,8,9,10]).foldl
      (step params) .empty).mapLockedInputs ⟨fund.getHash params,0⟩ = none ∧
    ixAccepted params lockedPay ixNet
      ((ixVotes [1,2,3,4,5,6,7,8,9,10]).foldl (step params) .empty) = true ∧
    ((ixVotes [1,2,3,4,5,6,7,8,9,10]++[IxMessage.ix ixNet lockedPay]).foldl
      (step params) .empty).mapLockedInputs ⟨fund.getHash params,0⟩ = none :=
  ⟨voteFor_ixVotes _,by decide +kernel,by decide +kernel,by decide +kernel,by decide +kernel,by decide +kernel⟩

end DarkSilk
