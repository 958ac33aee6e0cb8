import DarkSilk.InstantX

/-! What stands behind a locked input. The votes of a lock come from different
stormnodes, because a vote is collected only once under its hash; a locked input has
enough of them behind it, except where a refused request locked it without asking. -/
namespace DarkSilk

open List IxState

structure IxState.Wf (s : IxState) : Prop where
  own : ∀ h, ∀ v ∈ s.votes h, v.txHash = h
  seen : ∀ h, ∀ v ∈ s.votes h, s.mapTxLockVote.contains v.getHash
  nodup : ∀ h, ((s.votes h).map CConsensusVote.getHash).Nodup
  apart : ∀ h h', ∀ v ∈ s.votes h, ∀ v' ∈ s.votes h', v.getHash = v'.getHash → h = h'

variable {P : Params} {E : IxEnv} {s t : IxState} {v : CConsensusVote}

theorem IxState.wf_empty : empty.Wf := by
  have hnil : ∀ h, empty.votes h = [] := by
    intro h
    simp [votes,empty]
  exact ⟨by simp [hnil],by simp [hnil],by simp [hnil],by simp [hnil]⟩

theorem IxState.Wf.keeps (hs : s.Wf) (h : Keeps s t) : t.Wf := by
  have hvotes : t.votes = s.votes := funext h.votes
  refine ⟨?_,?_,?_,?_⟩ <;> rw [hvotes]
  · exact hs.own
  · exact fun k v hv => h.seen _ (hs.seen k v hv)
  · exact hs.nodup
  · exact hs.apart

theorem Voted.mem_votes (h : Voted E v s t) {k v'} :
    v' ∈ t.votes k ↔ v' ∈ s.votes k ∨ v' = v ∧ v.txHash = k := by
  rw [h.votes]
  split_ifs with hk
  · simp [hk]
  · simp [hk]

theorem IxState.Wf.voted (hs : s.Wf) (h : Voted E v s t) : t.Wf := by
  have hnew : ∀ k, ∀ v' ∈ s.votes k, v'.getHash ≠ v.getHash := by
    intro k v' hv' heq
    have hseen := hs.seen k v' hv'
    rw [heq,h.fresh] at hseen
    exact Bool.false_ne_true hseen
  refine ⟨fun k v' hv' => ?_,fun k v' hv' => ?_,fun k => ?_,fun k k' v₁ hv₁ v₂ hv₂ heq => ?_⟩
  · rcases h.mem_votes.mp hv' with hv' | ⟨rfl,hk⟩
    · exact hs.own k v' hv'
    · exact hk
  · rw [h.seen,Bool.or_eq_true,decide_eq_true_eq]
    rcases h.mem_votes.mp hv' with hv' | ⟨rfl,-⟩
    · exact .inr (hs.seen k v' hv')
    · exact .inl rfl
  · rw [h.votes]
    split_ifs
    · rw [map_append,map_singleton]
      refine nodup_append.mpr ⟨hs.nodup k,nodup_singleton _,fun κ hκ κ' hκ' => ?_⟩
      obtain ⟨v',hv',rfl⟩ := mem_map.mp hκ
      rw [mem_singleton.mp hκ']
      exact hnew k v' hv'
    · exact hs.nodup k
  · rcases h.mem_votes.mp hv₁ with hv₁ | ⟨rfl,hk⟩ <;> rcases h.mem_votes.mp hv₂ with hv₂ | ⟨rfl,hk'⟩
    · exact hs.apart k k' v₁ hv₁ v₂ hv₂ heq
    · exact absurd heq (hnew k v₁ hv₁)
    · exact absurd heq.symm (hnew k' v₂ hv₂)
    · exact hk.symm.trans hk'

theorem votes_cleanLock (E s e h) :
    (cleanLock E s e).votes h = s.votes h ∨ h = e.1 ∧ (cleanLock E s e).votes h = [] := by
  rcases (cleanLock_spec E s e).1 with ⟨hlocks,-⟩ | ⟨hlocks,-⟩
  · left
    rw [votes,hlocks]
    rfl
  · by_cases hh : e.1 = h
    · right
      refine ⟨hh.symm,?_⟩
      rw [votes,hlocks,hh]
      simp
    · left
      rw [votes,hlocks,getElem?_erase,if_neg hh,votes]

theorem IxState.Wf.cleanLock (hs : s.Wf) {e} (he : s.mapTxLocks[e.1]? = some e.2) :
    (cleanLock E s e).Wf := by
  have hsub : ∀ h, ∀ v ∈ (DarkSilk.cleanLock E s e).votes h, v ∈ s.votes h := by
    intro h v hv
    rcases votes_cleanLock E s e h with heq | ⟨-,heq⟩ <;> rw [heq] at hv
    · exact hv
    · exact absurd hv not_mem_nil
  have hvotes : s.votes e.1 = e.2.vecConsensusVotes := by simp [votes,he]
  refine ⟨fun h v hv => hs.own h v (hsub h v hv),fun h v hv => ?_,fun h => ?_,
    fun h h' v hv v' hv' => hs.apart h h' v (hsub h v hv) v' (hsub h' v' hv')⟩
  · have hseen := hs.seen h v (hsub h v hv)
    rcases (cleanLock_spec E s e).1 with ⟨-,hsame⟩ | ⟨hlocks,hkeep⟩
    · rw [hsame]
      exact hseen
    · refine hkeep _ hseen fun hmem => ?_
      obtain ⟨v',hv',heq⟩ := mem_map.mp hmem
      have hh := hs.apart h e.1 v (hsub h v hv) v' (hvotes ▸ hv') heq.symm
      rw [hh,votes,hlocks] at hv
      simp at hv
  · rcases votes_cleanLock E s e h with heq | ⟨-,heq⟩ <;> rw [heq]
    · exact hs.nodup h
    · exact nodup_nil

theorem cleanTransactionLocksList_invariant {I : IxState → Prop}
    (hI : ∀ s e, s.mapTxLocks[e.1]? = some e.2 → I s → I (cleanLock E s e)) (hs : I s) :
    I (cleanTransactionLocksList E s) := by
  have hfold : ∀ (l : List (UInt256 × CTransactionLock)) (s : IxState), l.Pairwise (fun a b => a.1 ≠ b.1) →
      (∀ e ∈ l, s.mapTxLocks[e.1]? = some e.2) → I s → I (l.foldl (cleanLock E) s) := by
    intro l
    induction l with
    | nil => exact fun s _ _ hs => hs
    | cons e l ih =>
      intro s hdist hmem hs
      rw [pairwise_cons] at hdist
      refine ih _ hdist.2 (fun e' he' => ?_) (hI s e (hmem e mem_cons_self) hs)
      have hold := hmem e' (mem_cons_of_mem e he')
      rcases (cleanLock_spec E s e).1 with ⟨hlocks,-⟩ | ⟨hlocks,-⟩
      · rw [hlocks]
        exact hold
      · rw [hlocks,getElem?_erase,if_neg (hdist.1 e' he')]
        exact hold
  refine hfold _ s (s.mapTxLocks.distinct_keys_toList.imp fun hab he => hab (by simp [he])) (fun e he => ?_) hs
  exact Std.ExtTreeMap.mem_toList_iff_getElem?_eq_some.mp he

theorem IxState.Wf.step (hs : s.Wf) (m) : (s.step P m).Wf := by
  cases m with
  | ix E tx => exact hs.keeps (processIx_spec P E tx s).1
  | txlvote E v =>
    rcases processTxlvote_cases P E v s with hv | ⟨hk,-⟩
    · exact hs.voted hv
    · exact hs.keeps hk
  | clean E => exact cleanTransactionLocksList_invariant (fun s e he hs => hs.cleanLock he) hs

variable {l l' : List IxMessage} {h : UInt256}

/-- The vote came in a message, from a known stormnode of the top ranks at its height
and with its signature. -/
def Delivered (l : List IxMessage) (v : CConsensusVote) : Prop :=
  ∃ E l₀, l₀++[.txlvote E v] <+: l ∧ E.voteValid v = true

/-- At some point of the run the transaction had a lock with enough votes for the
height of the lock, from different stormnodes. -/
def Backed (P : Params) (l : List IxMessage) (h : UInt256) : Prop :=
  ∃ l₁ lock votes, l₁ <+: l ∧ (ixRun P l₁).mapTxLocks[h]? = some lock ∧ votes ⊆ lock.vecConsensusVotes ∧
    INSTANTX_SIGNATURES_REQUIRED ≤ votes.length ∧ (votes.map fun v => v.vinStormnode.prevout).Nodup ∧
    ∀ v ∈ votes, v.txHash = h ∧ v.nBlockHeight = lock.nBlockHeight ∧ Delivered l₁ v

/-- Every locked input is locked for a transaction that has its votes. -/
def LocksBacked (P : Params) (l : List IxMessage) : Prop :=
  ∀ o h, (ixRun P l).mapLockedInputs o = some h → Backed P l h

theorem Delivered.mono (hd : Delivered l v) (hl : l <+: l') : Delivered l' v := by
  obtain ⟨E,l₀,hpre,hvalid⟩ := hd
  exact ⟨E,l₀,hpre.trans hl,hvalid⟩

theorem Backed.mono (hb : Backed P l h) (hl : l <+: l') : Backed P l' h := by
  obtain ⟨l₁,lock,votes,hpre,hrest⟩ := hb
  exact ⟨l₁,lock,votes,hpre.trans hl,hrest⟩

theorem ixRun_concat (P l m) : ixRun P (l++[m]) = (ixRun P l).step P m := by
  simp [ixRun]

theorem ixRun_wf (P l) : (ixRun P l).Wf := by
  induction l using reverseRecOn with
  | nil => exact wf_empty
  | append_singleton l m ih =>
    rw [ixRun_concat]
    exact ih.step m

theorem delivered_of_mem_votes (P l) : ∀ h, ∀ v ∈ (ixRun P l).votes h, Delivered l v := by
  induction l using reverseRecOn with
  | nil => simp [ixRun,votes,empty]
  | append_singleton l m ih =>
    rw [ixRun_concat]
    have hpre : l <+: l++[m] := prefix_append l [m]
    cases m with
    | ix E tx =>
      intro h v hv
      rw [show (ixRun P l).step P (.ix E tx) = (processIx P E tx (ixRun P l)).2 from rfl,
        (processIx_spec P E tx (ixRun P l)).1.votes] at hv
      exact (ih h v hv).mono hpre
    | txlvote E w =>
      intro h v hv
      rcases processTxlvote_cases P E w (ixRun P l) with hw | ⟨hk,-⟩
      · rcases hw.mem_votes.mp hv with hv | ⟨rfl,-⟩
        · exact (ih h v hv).mono hpre
        · exact ⟨E,l,prefix_rfl,hw.valid⟩
      · rw [step,hk.votes] at hv
        exact (ih h v hv).mono hpre
    | clean E =>
      refine cleanTransactionLocksList_invariant (I := fun s => ∀ h, ∀ v ∈ s.votes h,
        Delivered (l++[.clean E]) v)
        (fun s e _ hs h v hv => ?_) fun h v hv => (ih h v hv).mono hpre
      rcases votes_cleanLock E s e h with heq | ⟨-,heq⟩ <;> rw [heq] at hv
      · exact hs h v hv
      · exact absurd hv not_mem_nil

theorem backed_of_countSignatures {lock} (hlock : (ixRun P l).mapTxLocks[h]? = some lock)
    (hcount : INSTANTX_SIGNATURES_REQUIRED ≤ lock.countSignatures) : Backed P l h := by
  have hwf := ixRun_wf P l
  have hvotes : (ixRun P l).votes h = lock.vecConsensusVotes := by simp [votes,hlock]
  unfold CTransactionLock.countSignatures at hcount
  split_ifs at hcount with hzero
  · cases hcount
  rw [countP_eq_length_filter] at hcount
  refine ⟨l,lock,_,prefix_rfl,hlock,filter_subset_self _,hcount,?_,fun v hv => ?_⟩
  · -- two votes for the same transaction from one stormnode would have the same hash
    have hnodup := ((hwf.nodup h).sublist ((filter_sublist (p := fun v : CConsensusVote =>
      decide (v.nBlockHeight = lock.nBlockHeight))).map CConsensusVote.getHash))
    rw [hvotes] at hnodup
    have hmap : (lock.vecConsensusVotes.filter fun v => decide (v.nBlockHeight = lock.nBlockHeight)).map
        CConsensusVote.getHash = ((lock.vecConsensusVotes.filter fun v =>
          decide (v.nBlockHeight = lock.nBlockHeight)).map fun v => v.vinStormnode.prevout).map
            fun o => o.hash+BitVec.ofNat 256 o.n.toNat+h := by
      rw [map_map]
      refine map_congr_left fun v hv => ?_
      have hown := hwf.own h v (hvotes ▸ (mem_filter.mp hv).1)
      simp only [CConsensusVote.getHash,Function.comp_apply,hown]
    rw [hmap] at hnodup
    exact hnodup.of_map
  · obtain ⟨hmem,hheight⟩ := mem_filter.mp hv
    rw [← hvotes] at hmem
    exact ⟨hwf.own h v hmem,of_decide_eq_true hheight,delivered_of_mem_votes P l h v hmem⟩

theorem lockInputs_eq_some {hash vin m o} (ho : lockInputs hash vin m o = some h) :
    m o = some h ∨ m o = none ∧ o ∈ vin.map CTxIn.prevout ∧ hash = h := by
  rw [lockInputs_apply] at ho
  cases hfree : m o with
  | some h' =>
    rw [hfree,Option.some_or] at ho
    exact .inl ho
  | none =>
    rw [hfree,Option.none_or] at ho
    split_ifs at ho with hmem
    exact .inr ⟨rfl,hmem,Option.some.inj ho⟩

/-- Where a lock can come from: it was there, a request was refused, or a lock is complete. -/
theorem locked_step_cases {m o} (ho : (s.step P m).mapLockedInputs o = some h) :
    s.mapLockedInputs o = some h ∨
      (∃ E tx, m = .ix E tx ∧ ixRejected P E tx s ∧
        (∃ i ∈ tx.vin, s.mapLockedInputs i.prevout = none) ∧
        tx.getHash P = h) ∨
      ∃ lock, (s.step P m).mapTxLocks[h]? = some lock ∧
      INSTANTX_SIGNATURES_REQUIRED ≤ lock.countSignatures := by
  cases m with
  | ix E tx =>
    rw [step,(processIx_spec P E tx s).2] at ho
    split_ifs at ho with hrej
    · rcases lockInputs_eq_some ho with hold | ⟨hfree,hmem,hhash⟩
      · exact .inl hold
      · obtain ⟨i,hi,rfl⟩ := mem_map.mp hmem
        exact .inr (.inl ⟨E,tx,rfl,hrej,⟨i,hi,hfree⟩,hhash⟩)
    · exact .inl ho
  | txlvote E v =>
    rcases processTxlvote_cases P E v s with hv | ⟨-,hsame⟩
    · rcases hv.locked with hsame | ⟨⟨vin,hlock⟩,hcomplete⟩
      · exact .inl (hsame ▸ ho)
      · rw [step,hlock] at ho
        rcases lockInputs_eq_some ho with hold | ⟨-,-,rfl⟩
        · exact .inl hold
        · exact .inr (.inr hcomplete)
    · exact .inl (hsame ▸ ho)
  | clean E =>
    have hsub := cleanTransactionLocksList_invariant (E := E) (s := s)
      (I := fun t => ∀ o h, t.mapLockedInputs o = some h → s.mapLockedInputs o = some h)
      (fun t e _ ht o h ho => ht o h ((cleanLock_spec E t e).2 o h ho)) fun _ _ ho => ho
    exact .inl (hsub o h ho)

/-- In the whole of a run every locked input is locked for a transaction that has its
votes, exactly if that is so for the requests which lock inputs although they are refused. -/
theorem locksBacked_iff_refused_backed (P : Params) (l : List IxMessage) :
    (∀ l₁, l₁ <+: l → LocksBacked P l₁) ↔
      ∀ l₁ E tx, l₁++[.ix E tx] <+: l → ixRejected P E tx (ixRun P l₁) = true →
        (∃ i ∈ tx.vin, (ixRun P l₁).mapLockedInputs i.prevout = none) →
          Backed P (l₁++[.ix E tx]) (tx.getHash P) := by
  constructor
  · rintro h l₁ E tx hpre hrej ⟨i,hi,hfree⟩
    refine h _ hpre i.prevout _ ?_
    rw [ixRun_concat,step,(processIx_spec P E tx _).2,if_pos hrej,lockInputs_apply,hfree,
      if_pos (mem_map_of_mem hi)]
    rfl
  · intro hcond l₁
    induction l₁ using List.reverseRecOn with
    | nil =>
      intro _ o h ho
      exact absurd ho (by simp [ixRun,empty])
    | append_singleton l₁ m ih =>
      intro hpre o h ho
      have hfirst : l₁ <+: l₁++[m] := prefix_append l₁ [m]
      rw [ixRun_concat] at ho
      rcases locked_step_cases ho with hold | ⟨E,tx,rfl,hrej,hfree,rfl⟩ | ⟨lock,hlock,hcount⟩
      · exact (ih (hfirst.trans hpre) o h hold).mono hfirst
      · exact hcond l₁ E tx hpre hrej hfree
      · rw [← ixRun_concat] at hlock
        exact backed_of_countSignatures hlock hcount

namespace Sample

def fundNode : Node := { Node.empty with
  chain := state
  mapBlockIndex := (∅ : HashMap CBlockIndex).insert genesis.hashBlock ⟨genesis,[]⟩
  hashBestChain := genesis.hashBlock
  tip := some tip }

def fundFiles : BlockFiles := fun nFile =>
  if nFile = 1 then some (List.replicate 5000 0++fundBlock.block.serialize) else none

def ixBase : IxEnv where
  fEnabled := true
  nTime := 1000
  nAdjustedTime := 300
  nBestHeight := 0
  blockHeight := fun _ => none
  getTransaction := fun _ => none
  nMaxValue := 1000
  getStormnodeRank := fun _ _ => -1
  findPubkey2 := fun _ => none
  verifyMessage := fun _ _ _ => false
  pool := .empty
  call := relayed
  activeStormnode := none
  sign := fun _ => none

def ixEnv : IxEnv := ixBase.on params fundFiles fundNode

def unknownSpend : CTransaction := payment 150 [⟨7,0⟩] [⟨COIN,[0x6a]⟩]

end Sample

open Sample

/-- One refused request, and no vote at all: its input is locked for it. -/
theorem locked_without_votes : (ixRun params [.ix ixEnv unknownSpend]).mapLockedInputs ⟨7,0⟩ =
        some (unknownSpend.getHash params) ∧
      ¬ LocksBacked params [.ix ixEnv unknownSpend] := by
  have hlocked : (ixRun params [.ix ixEnv unknownSpend]).mapLockedInputs ⟨7,0⟩ =
      some (unknownSpend.getHash params) := by decide +kernel
  refine ⟨hlocked,fun h => ?_⟩
  obtain ⟨l₁,lock,votes,hpre,-,-,hlen,-,hvotes⟩ := h _ _ hlocked
  cases votes with
  | nil => cases hlen
  | cons v votes =>
    obtain ⟨-,-,E,l₀,hv,-⟩ := hvotes v mem_cons_self
    have hmem : IxMessage.txlvote E v ∈ [IxMessage.ix ixEnv unknownSpend] :=
      (hv.trans hpre).subset (by simp)
    simp at hmem

end DarkSilk
