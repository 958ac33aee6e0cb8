import DarkSilk.BlockFile
import DarkSilk.StormnodeTraces

/-! The collateral behind an entry. A broadcast is checked against the chain in three ways:
the funding transaction must have an output of a thousand coins for the key, a probe that
spends the named output must be acceptable, and the output must have some age. The age is
asked of a look-up that never names the block of a transaction, so no broadcast passes. -/

namespace DarkSilk

open List Option

namespace Stormnode

variable {K : Crypto} {E : Env} {c : AcceptCall}

variable (P : Params) (files : BlockFiles) (pool : MemPoolMaps) (n : Node)

/-- Would a transaction with these inputs get into a block? Signatures are not looked at. -/
def acceptableInputs (c : AcceptCall) (fRejectInsaneFee isSSTX : Bool) (tx : CTransaction) :
    Except Reject Unit := do
  (match checkTransaction tx with
    | .ok _ => .ok ()
    | .error _ => .error ⟨0,"AcceptableInputs : CheckTransaction failed"⟩)
  require (!tx.isCoinBase) 100 "AcceptableInputs : coinbase as individual tx"
  require (!tx.isCoinStake) 100 "AcceptableInputs : coinstake as individual tx"
  require (!pool.exists' (tx.getHash P)) 0 ""
  checkAll (fun i => match c.W.mapLockedInputs i.prevout with
    | none => .ok ()
    | some hash => require (hash = tx.getHash P) 0
        "AcceptableInputs : conflicts with existing transaction lock") tx.vin
  checkAll (fun i => require (pool.mapNextTx i.prevout).isNone 0 "") tx.vin
  require (!CTxDB.containsTx ⟨c.pdb,none⟩ (tx.getHash P)) 0 ""
  let inputs ← fetchInputs { c.W with lookup := pool.lookup } ⟨c.pdb,none⟩ ∅ false false tx
  require (Script.getLegacySigOpCount tx+getP2SHSigOpCount inputs tx ≤ MAX_TX_SIGOPS) 0
    "AcceptableInputs : too many sigops"
  require ((getValueIn inputs tx).isSome && tx.getValueOut.isSome) 0
    "CTransaction::GetValueOut() : value out of range"
  let nFees := (getValueIn inputs tx).getD 0-tx.getValueOut.getD 0
  let txMinFee := getMinFee tx tx.serialize.length true .GMF_RELAY
  require (!(!isSSTX && c.fLimitFree && nFees < txMinFee)) 0 "AcceptableInputs : not enough fees"
  require (!(!isSSTX && c.fLimitFree && nFees < MIN_RELAY_TX_FEE && c.rateLimited)) 0
    "AcceptableInputs : free transaction rejected by rate limiter"
  require (!(fRejectInsaneFee && txMinFee*10000 < nFees)) 0 "AcceptableInputs: : insane fees"
  let _ ← connectInputs P c.tip tx .memPool c.tip.pindexBest true false Flags.STANDARD false inputs ∅
  .ok ()

structure Env.On (P : Params) (files : BlockFiles) (pool : MemPoolMaps) (n : Node) (c : AcceptCall)
    (E : Env) : Prop where
  tip : n.tip = some c.tip
  pdb : c.pdb = n.chain.txdb.pdb
  readTx : c.W.readTx = CTransaction.readFromDisk files
  getTransaction : ∀ hash, E.getTransaction hash = (DarkSilk.getTransaction P files pool n hash 0).map Prod.fst
  acceptableInputs : ∀ tx, E.acceptableInputs tx =
    (Stormnode.acceptableInputs P pool { c with fLimitFree := false } false false tx).toBool
  getInputAge : ∀ vin, E.getInputAge vin = DarkSilk.getInputAge P files pool n vin

/-- The message comes to a node with such a chain, no block of which has the hash of the null
header. -/
def Message.OnNode (P : Params) (msg : Message) : Prop :=
  ∃ (files : BlockFiles) (pool : MemPoolMaps) (n : Node) (c : AcceptCall),
    msg.env.On P files pool n c ∧ n.NoNullBlock P

/-- An entry is one that was listed before, or a renewal of it: with the same outpoint and key
of the collateral, newer, and signed with this key. -/
structure Renewed (K : Crypto) (sn₀ sn : CStormnode) : Prop where
  vin : sn₀.vin = sn.vin
  pubkey : sn₀.pubkey = sn.pubkey
  renewal : sn.toCStormnodeBroadcast = sn₀.toCStormnodeBroadcast ∨
    sn₀.sigTime < sn.sigTime ∧ K.verifyMessage sn.pubkey sn.vchSig sn.text = true

variable {P} {files} {pool} {n}

variable {man : CStormnodeMan} {snb : CStormnodeBroadcast} {sn : CStormnode}

/-- No input has the confirmations that a collateral needs. -/
def Env.Young (E : Env) : Prop := ∀ vin, E.getInputAge vin < STORMNODE_MIN_CONFIRMATIONS

theorem vStormnodes_addNew (hyoung : E.Young) (snb man) :
    (CStormnodeBroadcast.checkInputsAndAdd.addNew K E snb man).2.vStormnodes = man.vStormnodes := by
  unfold CStormnodeBroadcast.checkInputsAndAdd.addNew
  rw [if_pos (hyoung snb.vin)]
  split_ifs <;> rfl

theorem checkInputsAndAdd_subset (hyoung : E.Young) (snb : CStormnodeBroadcast)
    (man : CStormnodeMan) :
    (snb.checkInputsAndAdd K E man).2.vStormnodes ⊆ man.vStormnodes := by
  unfold CStormnodeBroadcast.checkInputsAndAdd
  split_ifs
  · exact Subset.refl _
  · cases man.find snb.vin with
    | none =>
      rw [vStormnodes_addNew hyoung]
      exact Subset.refl _
    | some psn =>
      dsimp only
      split_ifs
      · exact Subset.refl _
      · rw [vStormnodes_addNew hyoung]
        exact eraseP_subset

theorem mem_updateFirst {α : Type} {fits : α → Bool} {f : α → α} {a : α} {l : List α}
    (h : a ∈ updateFirst fits f l) :
    a ∈ l ∨ ∃ b ∈ l.find? fits, a = f b := by
  induction l with
  | nil => cases h
  | cons b l ih =>
    rw [updateFirst] at h
    rw [find?_cons]
    split_ifs at h with hfits
    · rcases mem_cons.mp h with rfl | h
      · exact .inr ⟨b,by simp [hfits],rfl⟩
      · exact .inl (mem_cons_of_mem b h)
    · rcases mem_cons.mp h with rfl | h
      · exact .inl mem_cons_self
      · simp only [hfits]
        exact (ih h).imp_left (mem_cons_of_mem b)

theorem Renewed.refl (sn : CStormnode) : Renewed K sn sn := ⟨rfl,rfl,.inl rfl⟩

theorem Renewed.trans {sn₀ sn₁ sn₂ : CStormnode} (h₁ : Renewed K sn₀ sn₁) (h₂ : Renewed K sn₁ sn₂) :
    Renewed K sn₀ sn₂ := by
  refine ⟨h₁.vin.trans h₂.vin,h₁.pubkey.trans h₂.pubkey,?_⟩
  rcases h₁.renewal with heq₁ | ⟨hlt₁,hsig₁⟩ <;> rcases h₂.renewal with heq₂ | ⟨hlt₂,hsig₂⟩
  · exact .inl (heq₂.trans heq₁)
  · rw [heq₁] at hlt₂
    exact .inr ⟨hlt₂,hsig₂⟩
  · rw [heq₂]
    exact .inr ⟨hlt₁,hsig₁⟩
  · exact .inr ⟨Int64.lt_trans hlt₁ hlt₂,hsig₂⟩

/-- What the checks ask of a broadcast that renews an entry. -/
theorem renewed_of_checkAndUpdate {man'} (h : snb.checkAndUpdate K E man = .ok man')
    (hsn : sn ∈ man'.vStormnodes) : ∃ sn₀ ∈ man.vStormnodes, Renewed K sn₀ sn := by
  unfold CStormnodeBroadcast.checkAndUpdate at h
  split at h
  · cases h
  · rename_i hfields
    split at h
    · cases h
      exact ⟨sn,hsn,.refl sn⟩
    · rename_i psn hfind
      split_ifs at h with holder hupdates
      · cases h
        rcases mem_updateFirst hsn with hsn | ⟨sn₀,hsn₀,rfl⟩
        · exact ⟨sn,hsn,.refl sn⟩
        -- the entry that is changed is the one that was found
        · obtain rfl : psn = sn₀ := some.inj (hfind.symm.trans hsn₀)
          have hcheck := toCStormnodeBroadcast_check E false (psn.updateFromNewBroadcast K E man snb)
          simp only [CStormnodeBroadcast.updates,Bool.and_eq_true,decide_eq_true_eq] at hupdates
          obtain ⟨⟨⟨-,hkey⟩,-⟩,hnewer⟩ := hupdates
          have hsig : K.verifyMessage snb.pubkey snb.vchSig snb.text = true := by
            unfold CStormnodeBroadcast.checkFields at hfields
            split_ifs at hfields with _ _ _ _ _ hverify
            simpa using hverify
          refine ⟨psn,mem_of_find?_eq_some hfind,?_,?_,.inr ?_⟩
          · rw [hcheck]
            rfl
          · rw [hcheck]
            rfl
          · rw [hcheck]
            refine ⟨hnewer,?_⟩
            rw [← hkey] at hsig
            simpa [CStormnode.updateFromNewBroadcast,CStormnodeBroadcast.text,hkey] using hsig
      · cases h
        exact ⟨sn,hsn,.refl sn⟩

theorem renewed_of_processMessage {msg} (hyoung : msg.env.Young)
    (hsn : sn ∈ (man.processMessage K msg).vStormnodes) :
    ∃ sn₀ ∈ man.vStormnodes, Renewed K sn₀ sn := by
  unfold CStormnodeMan.processMessage at hsn
  split_ifs at hsn
  · exact ⟨sn,hsn,.refl sn⟩
  · cases msg with
    | snp E snp =>
      rw [(alike_processSnp (H := fun _ => False) man snp).list] at hsn
      exact ⟨sn,hsn,.refl sn⟩
    | snb E snb =>
      dsimp only at hsn
      cases hnew : man.mapSeenStormnodeBroadcast.contains (snb.getHash K) with
      | true =>
        rw [processSnb_of_seen hnew] at hsn
        exact ⟨sn,hsn,.refl sn⟩
      | false =>
        cases hcheck : snb.checkAndUpdate K E (man.note K snb) with
        | error nDos =>
          rw [processSnb_of_error hnew hcheck] at hsn
          exact ⟨sn,hsn,.refl sn⟩
        | ok man' =>
          rw [processSnb_of_ok hnew hcheck] at hsn
          have hmem : sn ∈ man'.vStormnodes := by
            split_ifs at hsn
            · exact checkInputsAndAdd_subset hyoung snb man' hsn
            · exact hsn
          obtain ⟨sn₀,hsn₀,hrenewed⟩ := renewed_of_checkAndUpdate hcheck hmem
          exact ⟨sn₀,hsn₀,hrenewed⟩

theorem Message.OnNode.young {msg : Message} (h : msg.OnNode P) : msg.env.Young := by
  obtain ⟨files,pool,n,c,hE,hn⟩ := h
  intro vin
  rw [hE.getInputAge,hn.getInputAge_eq_zero]
  decide

/-- Whatever messages come to nodes no block of which has the hash of the null header, no entry
is added: each one was listed before, with its outpoint and the key of its collateral, and a
renewal of it is signed with this key and newer. -/
theorem no_entry_added (msgs : List Message) (hmsgs : ∀ msg ∈ msgs, msg.OnNode K.P)
    (man : CStormnodeMan)
    {sn} (hsn : sn ∈ (msgs.foldl (CStormnodeMan.processMessage K) man).vStormnodes) :
    ∃ sn₀ ∈ man.vStormnodes, Renewed K sn₀ sn := by
  induction msgs generalizing man with
  | nil => exact ⟨sn,hsn,.refl sn⟩
  | cons msg msgs ih =>
    obtain ⟨sn₁,hsn₁,hren₁⟩ := ih (fun m hm => hmsgs m (mem_cons_of_mem _ hm)) _ hsn
    obtain ⟨sn₀,hsn₀,hren₀⟩ := renewed_of_processMessage (hmsgs msg mem_cons_self).young hsn₁
    exact ⟨sn₀,hsn₀,hren₀.trans hren₁⟩

/-- The same handler, on this node. -/
def Env.on (P : Params) (files : BlockFiles) (pool : MemPoolMaps) (n : Node) (c : AcceptCall)
    (E : Env) : Env :=
  { E with
    getTransaction := fun hash => (DarkSilk.getTransaction P files pool n hash 0).map Prod.fst
    acceptableInputs := fun tx => (Stormnode.acceptableInputs P pool { c with fLimitFree := false } false false tx).toBool
    getInputAge := DarkSilk.getInputAge P files pool n }

theorem on_on (htip : n.tip = some c.tip) (hpdb : c.pdb = n.chain.txdb.pdb)
    (hread : c.W.readTx = CTransaction.readFromDisk files) :
    (E.on P files pool n c).On P files pool n c where
  tip := htip
  pdb := hpdb
  readTx := hread
  getTransaction := fun _ => rfl
  acceptableInputs := fun _ => rfl
  getInputAge := fun _ => rfl

namespace Sample

def chainCrypto : Crypto := ⟨DarkSilk.Sample.chainParams,fun _ vchSig _ => vchSig = [1]⟩

theorem tip_isSome : DarkSilk.Sample.onA₁.tip.isSome := by decide +kernel

/-- The calls on the node with one block on the genesis block. -/
def chainCall : AcceptCall where
  W := ⟨0,false,fun _ => none,CTransaction.readFromDisk DarkSilk.Sample.blockFiles,fun _ => none,true,true⟩
  tip := DarkSilk.Sample.onA₁.tip.get tip_isSome
  pdb := DarkSilk.Sample.onA₁.chain.txdb.pdb
  fLimitFree := false
  ignoreFees := false
  rateLimited := false

def chainEnv (nTime : Int64) : Env :=
  (envAt nTime).on chainCrypto.P DarkSilk.Sample.blockFiles .empty DarkSilk.Sample.onA₁ chainCall

theorem on_chainEnv (nTime) :
    (chainEnv nTime).On chainCrypto.P DarkSilk.Sample.blockFiles .empty DarkSilk.Sample.onA₁
      chainCall := by
  refine on_on ?_ ?_ ?_
  · simp only [chainCall,some_get]
  · simp only [chainCall]
  · simp only [chainCall]

end Sample

open DarkSilk.Stormnode.Sample

theorem onNode_chainEnv (nTime snb) : (Message.snb (chainEnv nTime) snb).OnNode chainCrypto.P :=
  ⟨_,_,_,_,on_chainEnv nTime,by decide +kernel,by decide +kernel⟩

/-- A newer broadcast of a listed entry renews it, and one for an outpoint that is not listed
adds nothing. -/
theorem no_entry_added_renewed : ∃ man : CStormnodeMan,
    man = [Message.snb (chainEnv 5000) (entry 5000 5000).toCStormnodeBroadcast,
        .snb (chainEnv 5000) { (entry 5000 5000).toCStormnodeBroadcast with vin := ⟨⟨1,1⟩,[],0⟩, sigTime := 4000 }].foldl
          (CStormnodeMan.processMessage chainCrypto) (listed 1000 1000) ∧
      man.vStormnodes.map (fun sn => sn.sigTime) = [5000] ∧
      ∀ sn ∈ man.vStormnodes, ∃ sn₀ ∈ (listed 1000 1000).vStormnodes, Renewed chainCrypto sn₀ sn := by
  refine ⟨_,rfl,by decide +kernel,fun sn hsn => no_entry_added _ ?_ _ hsn⟩
  intro msg hmsg
  simp only [mem_cons,not_mem_nil,or_false] at hmsg
  rcases hmsg with rfl | rfl <;> exact onNode_chainEnv 5000 _

end Stormnode

end DarkSilk
