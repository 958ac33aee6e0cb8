import DarkSilk.InstantXLocks

/-! Votes and the order in which they come. A vote that is refused still marks its
hash as seen; two runs that differ in this mark alone stay together until a valid vote
under the hash comes. Completion is looked at only when a vote is collected, which
decides what the order of a request and its votes matters for. -/
namespace DarkSilk

open List IxState

variable {P : Params} {E : IxEnv} {s t : IxState} {v : CConsensusVote}

variable {tx : CTransaction}

theorem expire_withSeen (s : IxState) (m h) :
    (s.withSeen m).expire E h = (s.expire E h).withSeen m := by
  unfold expire withSeen
  dsimp only
  split <;> rfl

theorem checkForConflictingLocks_withSeen (s : IxState) (m) :
    checkForConflictingLocks P E tx (s.withSeen m) =
      ((checkForConflictingLocks P E tx s).1,(checkForConflictingLocks P E tx s).2.withSeen m) := by
  unfold checkForConflictingLocks
  have hlocked : (s.withSeen m).mapLockedInputs = s.mapLockedInputs := rfl
  rw [hlocked]
  dsimp only
  split
  · rfl
  · rw [expire_withSeen,expire_withSeen]

theorem createNewLock_withSeen (P E tx s m) :
    createNewLock P E tx (s.withSeen m) = (createNewLock P E tx s).withSeen m := by
  unfold createNewLock withSeen
  split <;> rfl

theorem rejectIx_withSeen (s m) :
    rejectIx P E tx (s.withSeen m) = (rejectIx P E tx s).withSeen m := by
  have hpush : ((s.withSeen m).addRejected (tx.getHash P) tx).lockFor (tx.getHash P) tx.vin =
      ((s.addRejected (tx.getHash P) tx).lockFor (tx.getHash P) tx.vin).withSeen m := rfl
  have hlocks : ∀ t : IxState, (t.withSeen m).mapTxLocks = t.mapTxLocks := fun _ => rfl
  unfold rejectIx
  dsimp only
  rw [hpush,hlocks,checkForConflictingLocks_withSeen]
  split
  · rfl
  · split_ifs <;> rfl

theorem collectVote_withSeen (s m) :
    collectVote P E v (s.withSeen m) = (collectVote P E v s).withSeen m := by
  have hadd : (s.withSeen m).addSignature E v = (s.addSignature E v).withSeen m := rfl
  have hlock : ∀ t : IxState, (t.withSeen m).lockOf E v.txHash = t.lockOf E v.txHash := fun _ => rfl
  have hreq : ∀ (t : IxState) h tx, (t.withSeen m).addRequest h tx =
      (t.addRequest h tx).withSeen m := fun _ _ _ => rfl
  have hmap : ∀ t : IxState, (t.withSeen m).mapTxLockReq = t.mapTxLockReq := fun _ => rfl
  unfold collectVote completeLock
  dsimp only
  rw [hadd,hlock,hmap,hreq,checkForConflictingLocks_withSeen]
  split_ifs <;> rfl

theorem countUnknownVote_withSeen (s m) :
    (countUnknownVote E v (s.withSeen m)).2 = (countUnknownVote E v s).2.withSeen m := by
  unfold countUnknownVote withSeen
  dsimp only
  split_ifs <;> rfl

/-- Two states that differ in their seen votes alone are moved to two such states, and
no hash that they agree on is made a difference. -/
def Alike (s s' t t' : IxState) : Prop :=
  (∃ m, t' = t.withSeen m) ∧ ∀ κ, s'.mapTxLockVote.contains κ = s.mapTxLockVote.contains κ →
    t'.mapTxLockVote.contains κ = t.mapTxLockVote.contains κ

theorem alike_of_withSeen {f : IxState → IxState} (hf : ∀ s m, f (s.withSeen m) = (f s).withSeen m)
    (s m) : Alike s (s.withSeen m) (f s) (f (s.withSeen m)) := by
  have hsame : f s = (f s).withSeen s.mapTxLockVote := hf s s.mapTxLockVote
  have hseen : (f s).mapTxLockVote = s.mapTxLockVote := by
    rw [hsame]
    rfl
  refine ⟨⟨m,hf s m⟩,fun κ hκ => ?_⟩
  rw [hf,hseen]
  exact hκ

theorem Alike.trans {s' t' u u'} (h : Alike s s' t t') (h' : Alike t t' u u') : Alike s s' u u' :=
  ⟨h'.1,fun κ hκ => h'.2 κ (h.2 κ hκ)⟩

theorem alike_doConsensusVote (P E tx n s m) :
    Alike s (s.withSeen m) (doConsensusVote P E tx n s).2
      (doConsensusVote P E tx n (s.withSeen m)).2 := by
  unfold doConsensusVote
  cases ownVote P E tx n with
  | none => exact ⟨⟨m,rfl⟩,fun _ h => h⟩
  | some ctx =>
    refine ⟨⟨_,rfl⟩,fun κ hκ => ?_⟩
    rw [contains_insert,contains_insert,hκ]

theorem alike_processIx (s m) :
    Alike s (s.withSeen m) (processIx P E tx s).2 (processIx P E tx (s.withSeen m)).2 := by
  have hadm' : ixAdmissible P E tx (s.withSeen m) = ixAdmissible P E tx s := rfl
  have hrej' : ixRejected P E tx (s.withSeen m) = ixRejected P E tx s := rfl
  have hlock := alike_of_withSeen (createNewLock_withSeen P E tx) s m
  rw [createNewLock_withSeen] at hlock
  cases hadm : ixAdmissible P E tx s with
  | false =>
    rw [processIx_skip hadm,processIx_skip (hadm'.trans hadm)]
    exact ⟨⟨m,rfl⟩,fun _ h => h⟩
  | true =>
    cases hacc : E.acceptToMemoryPool P s.mapLockedInputs tx with
    | true =>
      rw [processIx_accepted hadm hacc,processIx_accepted (hadm'.trans hadm) hacc,createNewLock_withSeen]
      have hvote := alike_doConsensusVote P E tx (lockHeight E tx) (createNewLock P E tx s) m
      obtain ⟨m',hm'⟩ := hvote.1
      rw [hm'] at hvote ⊢
      exact (hlock.trans hvote).trans (alike_of_withSeen (f := fun s => s.addRequest (tx.getHash P) tx)
        (fun _ _ => rfl) _ m')
    | false =>
      have hrej : ixRejected P E tx s := by simp [ixRejected,hadm,hacc]
      rw [processIx_rejected hrej,processIx_rejected (hrej'.trans hrej),createNewLock_withSeen]
      exact hlock.trans (alike_of_withSeen (fun _ _ => rejectIx_withSeen _ _) _ m)

theorem processTxlvote_invalid_spec (hon : E.fEnabled) (h : E.voteValid v = false) (s) :
    ∃ m, (processTxlvote P E v s).2 = s.withSeen m ∧
      ∀ κ, m.contains κ = (v.getHash = κ || s.mapTxLockVote.contains κ) := by
  cases hseen : s.mapTxLockVote.contains v.getHash with
  | true =>
    refine ⟨s.mapTxLockVote,processTxlvote_skip (.inr hseen),fun κ => ?_⟩
    by_cases hκ : v.getHash = κ
    · simp [← hκ,hseen]
    · simp [hκ]
  | false => exact ⟨_,processTxlvote_invalid hon hseen h,contains_see s v⟩

theorem alike_processTxlvote (s m) (h : E.fEnabled → E.voteValid v →
      m.contains v.getHash = s.mapTxLockVote.contains v.getHash) :
    Alike s (s.withSeen m) (processTxlvote P E v s).2 (processTxlvote P E v (s.withSeen m)).2 := by
  cases hon : E.fEnabled with
  | false =>
    rw [processTxlvote_skip (.inl hon),processTxlvote_skip (.inl hon)]
    exact ⟨⟨m,rfl⟩,fun _ h => h⟩
  | true =>
    cases hvalid : E.voteValid v with
    | true =>
      have hsame := h hon hvalid
      cases hseen : s.mapTxLockVote.contains v.getHash with
      | true =>
        rw [processTxlvote_skip (.inr hseen),processTxlvote_skip (.inr (hsame.trans hseen))]
        exact ⟨⟨m,rfl⟩,fun _ h => h⟩
      | false =>
        have hsee : Alike s (s.withSeen m) (s.see v) ((s.see v).withSeen (m.insert v.getHash v)) := by
          refine ⟨⟨_,rfl⟩,fun κ hκ => ?_⟩
          rw [contains_see,← hκ]
          exact contains_insert _ _ _ _
        rw [processTxlvote_valid hon hseen hvalid,processTxlvote_valid hon (hsame.trans hseen) hvalid]
        exact hsee.trans (alike_of_withSeen (f := fun s => (countUnknownVote E v (collectVote P E v s)).2)
          (fun s m => by rw [collectVote_withSeen,countUnknownVote_withSeen]) _ _)
    | false =>
      obtain ⟨m₁,h1,hs₁⟩ := processTxlvote_invalid_spec (P := P) hon hvalid s
      obtain ⟨m₂,h2,hs₂⟩ := processTxlvote_invalid_spec (P := P) hon hvalid (s.withSeen m)
      rw [h1,h2]
      refine ⟨⟨m₂,rfl⟩,fun κ hκ => ?_⟩
      change m₂.contains κ = m₁.contains κ
      rw [hs₁,hs₂,hκ]

theorem alike_cleanLock (e s m) :
    Alike s (s.withSeen m) (cleanLock E s e) (cleanLock E (s.withSeen m) e) := by
  have hreq : (s.withSeen m).mapTxLockReq = s.mapTxLockReq := rfl
  unfold cleanLock
  split_ifs
  · rw [hreq]
    split
    · exact ⟨⟨m,rfl⟩,fun _ h => h⟩
    · refine ⟨⟨_,rfl⟩,fun κ hκ => ?_⟩
      rw [contains_forgetVotes,contains_forgetVotes,hκ]
  · exact ⟨⟨m,rfl⟩,fun _ h => h⟩

theorem alike_cleanTransactionLocksList (s m) :
    Alike s (s.withSeen m) (cleanTransactionLocksList E s)
      (cleanTransactionLocksList E (s.withSeen m)) := by
  have hfold : ∀ (l : List (UInt256 × CTransactionLock)) (s : IxState) (m : HashMap CConsensusVote),
      Alike s (s.withSeen m) (l.foldl (cleanLock E) s) (l.foldl (cleanLock E) (s.withSeen m)) := by
    intro l
    induction l with
    | nil => exact fun s m => ⟨⟨m,rfl⟩,fun _ h => h⟩
    | cons e l ih =>
      intro s m
      have he := alike_cleanLock (E := E) e s m
      obtain ⟨m',hm'⟩ := he.1
      rw [foldl_cons,foldl_cons]
      rw [hm'] at he ⊢
      exact he.trans (ih _ m')
  exact hfold _ s m

variable {κ : UInt256}

/-- Two states that differ at most in whether a hash is seen. -/
def SameBut (κ : UInt256) (s t : IxState) : Prop :=
  (∃ m, t = s.withSeen m) ∧ ∀ k, k ≠ κ → t.mapTxLockVote.contains k = s.mapTxLockVote.contains k

/-- The message is no valid vote under a hash that is seen in one of the states only. -/
def Harmless (κ : UInt256) (s t : IxState) (msg : IxMessage) : Prop :=
  ∀ E v, msg = .txlvote E v → v.getHash = κ → E.fEnabled = true → E.voteValid v = true →
    t.mapTxLockVote.contains κ = s.mapTxLockVote.contains κ

theorem SameBut.step {msg} (h : SameBut κ s t) (hmsg : Harmless κ s t msg) :
    SameBut κ (s.step P msg) (t.step P msg) := by
  obtain ⟨⟨m,rfl⟩,hsame⟩ := h
  have halike : Alike s (s.withSeen m) (s.step P msg) ((s.withSeen m).step P msg) := by
    cases msg with
    | ix E tx => exact alike_processIx s m
    | txlvote E v =>
      refine alike_processTxlvote s m fun hon hvalid => ?_
      by_cases hκ : v.getHash = κ
      · rw [hκ]
        exact hmsg E v rfl hκ hon hvalid
      · exact hsame _ hκ
    | clean E => exact alike_cleanTransactionLocksList s m
  exact ⟨halike.1,fun k hk => halike.2 k (hsame k hk)⟩

theorem SameBut.foldl {l} (h : SameBut κ s t) (hl : ∀ l₁ msg, l₁++[msg] <+: l →
      Harmless κ (l₁.foldl (IxState.step P) s) (l₁.foldl (IxState.step P) t) msg) :
    SameBut κ (l.foldl (IxState.step P) s) (l.foldl (IxState.step P) t) := by
  induction l using List.reverseRecOn with
  | nil => exact h
  | append_singleton l msg ih =>
    rw [foldl_concat,foldl_concat]
    have hbefore := ih fun l₁ msg' hpre => hl l₁ msg' (hpre.trans (prefix_append l [msg]))
    exact hbefore.step (hl l msg prefix_rfl)

theorem sameBut_of_invalid (h : E.voteValid v = false) (s) :
    SameBut v.getHash s (s.step P (.txlvote E v)) := by
  cases hon : E.fEnabled with
  | false =>
    rw [step,processTxlvote_skip (.inl hon)]
    exact ⟨⟨s.mapTxLockVote,rfl⟩,fun _ _ => rfl⟩
  | true =>
    obtain ⟨m,hm,hseen⟩ := processTxlvote_invalid_spec (P := P) hon h s
    rw [step,hm]
    refine ⟨⟨m,rfl⟩,fun k hk => ?_⟩
    change m.contains k = _
    rw [hseen,decide_eq_false (Ne.symm hk),Bool.false_or]

def IxState.lockView (s : IxState) : HashMap CTransactionLock × (COutPoint → Option UInt256) :=
  (s.mapTxLocks,s.mapLockedInputs)

theorem SameBut.lockView_eq (h : SameBut κ s t) : t.lockView = s.lockView := by
  obtain ⟨⟨m,rfl⟩,-⟩ := h
  rfl

theorem length_votes_step (hon : E.fEnabled) (hvalid : E.voteValid v) (s : IxState) :
    ((s.step P (.txlvote E v)).votes v.txHash).length =
      (s.votes v.txHash).length+(if s.mapTxLockVote.contains v.getHash then 0 else 1) := by
  rw [step]
  cases hseen : s.mapTxLockVote.contains v.getHash with
  | true =>
    rw [processTxlvote_skip (.inr hseen)]
    rfl
  | false =>
    rw [(voted_of_valid hon hseen hvalid).votes,if_pos rfl]
    exact length_append

theorem votes_eq_of_lockView_eq (h : t.lockView = s.lockView) : t.votes = s.votes := by
  have hlocks : t.mapTxLocks = s.mapTxLocks := congrArg Prod.fst h
  unfold votes
  rw [hlocks]

/-- A rejected vote message is traceless in a run exactly if every later valid vote with
its hash finds that hash seen, or not seen, as it would have found it without the message. -/
theorem invalidVote_traceless_iff (hv : E.voteValid v = false) (P : Params) (s : IxState)
    (l : List IxMessage) :
    (∀ l₁, l₁ <+: l → (l₁.foldl (IxState.step P) (s.step P (.txlvote E v))).lockView =
        (l₁.foldl (IxState.step P) s).lockView) ↔
      ∀ l₁ msg, l₁++[msg] <+: l → Harmless v.getHash (l₁.foldl (IxState.step P) s)
        (l₁.foldl (IxState.step P) (s.step P (.txlvote E v))) msg := by
  constructor
  · rintro h l₁ msg hpre E' v' rfl hκ hon hvalid
    have hbefore := h l₁ ((prefix_append l₁ [_]).trans hpre)
    have hafter := h _ hpre
    rw [foldl_concat,foldl_concat] at hafter
    have hlength := congrArg (fun votes => (votes v'.txHash).length) (votes_eq_of_lockView_eq hafter)
    rw [length_votes_step hon hvalid,length_votes_step hon hvalid,votes_eq_of_lockView_eq hbefore,hκ] at hlength
    split_ifs at hlength with h₁ h₂ h₂
    · rw [h₁,h₂]
    · omega
    · omega
    · rw [Bool.eq_false_of_not_eq_true h₁,Bool.eq_false_of_not_eq_true h₂]
  · intro h l₁ hl₁
    exact ((sameBut_of_invalid hv s).foldl fun l₂ msg hpre => h l₂ msg (hpre.trans hl₁)).lockView_eq

namespace Sample

def ixVoters : IxEnv :=
  { ixBase with
    getStormnodeRank := fun _ _ => 1
    findPubkey2 := fun _ => some []
    verifyMessage := fun _ sig _ => sig = [1] }

def ixNet : IxEnv := ixVoters.on params fundFiles fundNode

def vote (node txHash : UInt256) (nBlockHeight : ℤ) (sig : List UInt8) : CConsensusVote :=
  ⟨⟨⟨node,0⟩,[],0xFFFFFFFF⟩,txHash,nBlockHeight,sig⟩

end Sample

open Sample

theorem invalidVote_traceless_iff_other :
    (((empty.step params (.txlvote ixNet (vote 1 7 100 []))).step
      params (.txlvote ixNet (vote 2 7 100 [1]))).lockView) =
    (empty.step params (.txlvote ixNet (vote 2 7 100 [1]))).lockView := by
  have hv : ixNet.voteValid (vote 1 7 100 []) = false := by decide
  refine (invalidVote_traceless_iff hv params .empty
    [.txlvote ixNet (vote 2 7 100 [1])]).mpr (fun l₁ msg hpre => ?_) _ prefix_rfl
  rintro E v rfl hκ - -
  have hmem : IxMessage.txlvote E v ∈ [IxMessage.txlvote ixNet (vote 2 7 100 [1])] :=
    hpre.subset (by simp)
  obtain ⟨rfl,rfl⟩ := IxMessage.txlvote.inj (mem_singleton.mp hmem)
  cases hκ

/-- Anybody can send the vote of a stormnode with a wrong signature first; the vote
itself is then ignored. -/
theorem forged_vote_silences : ixNet.voteValid (vote 1 7 100 []) = false ∧
    (empty.step params (.txlvote ixNet (vote 1 7 100 [1]))).votes 7 = [vote 1 7 100 [1]] ∧
    ((empty.step params (.txlvote ixNet (vote 1 7 100 []))).step
      params (.txlvote ixNet (vote 1 7 100 [1]))).votes 7 = [] ∧
    ((empty.step params (.txlvote ixNet (vote 1 7 100 []))).step
      params (.txlvote ixNet (vote 1 7 100 [1]))).lockView ≠
    (empty.step params (.txlvote ixNet (vote 1 7 100 [1]))).lockView := by
  have hgenuine : (empty.step params (.txlvote ixNet (vote 1 7 100 [1]))).votes 7 =
      [vote 1 7 100 [1]] := by decide +kernel
  have hforged : ((empty.step params (.txlvote ixNet (vote 1 7 100 []))).step
      params (.txlvote ixNet (vote 1 7 100 [1]))).votes 7 = [] := by decide +kernel
  refine ⟨by decide,hgenuine,hforged,fun h => ?_⟩
  have hvotes := congrFun (votes_eq_of_lockView_eq h) 7
  rw [hgenuine,hforged] at hvotes
  cases hvotes

end DarkSilk
