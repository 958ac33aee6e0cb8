import DarkSilk.ChainRuns

/-! The address index over whole runs. Connecting a block lists its transactions under
the address ids of their outputs and of all outputs of the transactions they spend
from; disconnecting takes nothing off. -/
namespace DarkSilk

open BatchStore List CTransaction
open Option hiding or_assoc

variable {W : World} {T : Set CTransaction} {tx : CTransaction} {a : UInt160} {h : UInt256} {tip : Tip} {gen : CBlock}
  {E : CBlockIndex → World} {n n' : Node} {pindexNew : CBlockIndex}

/-- The transactions listed under an address id, as the open transaction sees them. -/
def CTxDB.addrTxids (db : CTxDB) (addrId : UInt160) : List UInt256 :=
  (db.readAddrIndex addrId).getD []

theorem CTxDB.addrTxids_eq (db : CTxDB) (a) : db.addrTxids a = (db.view (.adr a)).getD [] := by
  rw [addrTxids,readAddrIndex,TxDB.read_eq_view]

theorem CTxDB.addrTxids_put (db : CTxDB) {k} (hk : ∀ a, k ≠ .adr a) (v) :
    CTxDB.addrTxids (db.put k v) = db.addrTxids := by
  funext a
  rw [addrTxids_eq,addrTxids_eq,TxDB.view_put,Function.update_of_ne (hk a).symm]

theorem CTxDB.addrTxids_write_adr (db : CTxDB) (a a' l) :
    CTxDB.addrTxids (db.write (.adr a) l) a' = if a' = a then l else db.addrTxids a' := by
  rw [addrTxids_eq,addrTxids_eq,TxDB.view_write]
  split_ifs with ha
  · subst ha
    rw [Function.update_self]
    rfl
  · rw [Function.update_of_ne (by simpa using ha)]

theorem CTxDB.mem_writeAddrIndex (db : CTxDB) (a a' hash h) :
    h ∈ (db.writeAddrIndex a hash).addrTxids a' ↔ h ∈ db.addrTxids a' ∨ a' = a ∧ h = hash := by
  have hlist : ∀ r, db.readAddrIndex a = r → db.addrTxids a = r.getD [] := fun r hr => by rw [addrTxids,hr]
  unfold writeAddrIndex
  split
  · rename_i hr
    rw [addrTxids_write_adr]
    split_ifs with ha
    · subst ha
      simp [hlist _ hr]
    · simp [ha]
  · rename_i l hr
    split_ifs with hmem
    · constructor
      · exact .inl
      · rintro (h' | ⟨rfl,rfl⟩)
        · exact h'
        · rw [hlist _ hr]
          exact hmem
    · rw [addrTxids_write_adr]
      split_ifs with ha
      · subst ha
        simp [hlist _ hr]
      · simp [ha]

theorem mem_addrTxids_foldl {α : Type} {f} {Q : α → UInt160 → UInt256 → Prop}
    (hf : ∀ db x a h, h ∈ (f db x).addrTxids a ↔ h ∈ db.addrTxids a ∨ Q x a h) (l : List α)
    (db : CTxDB) (a h) :
    h ∈ (l.foldl f db).addrTxids a ↔ h ∈ db.addrTxids a ∨ ∃ x ∈ l, Q x a h := by
  induction l generalizing db with
  | nil => simp
  | cons x l ih => rw [foldl_cons,ih,hf,exists_mem_cons_iff,or_assoc]

variable (P : Params)

def outAddrs (vout : List CTxOut) : List UInt160 :=
  vout.flatMap fun o => Script.buildAddrIndex P o.scriptPubKey

theorem mem_writeAddrs (hash : UInt256) (vout) (db : CTxDB) (a : UInt160) (h : UInt256) :
    h ∈ (writeAddrs P hash vout db).addrTxids a ↔ h ∈ db.addrTxids a ∨ a ∈ outAddrs P vout ∧
      h = hash := by
  have hinner : ∀ (db : CTxDB) (o : CTxOut) a h,
      h ∈ CTxDB.addrTxids ((Script.buildAddrIndex P o.scriptPubKey).foldl
        (fun (db : CTxDB) addrId => db.writeAddrIndex addrId hash) db) a ↔
      h ∈ db.addrTxids a ∨ a ∈ Script.buildAddrIndex P o.scriptPubKey ∧ h = hash := by
    intro db o a h
    rw [mem_addrTxids_foldl (fun (db : CTxDB) addrId a h => db.mem_writeAddrIndex addrId a hash h)]
    simp
  rw [writeAddrs,mem_addrTxids_foldl hinner]
  simp [outAddrs,← and_assoc]

theorem buildAddrIndex_ne_nil (script) : Script.buildAddrIndex P script ≠ [] := by
  unfold Script.buildAddrIndex
  split <;> simp_all

theorem outAddrs_ne_nil {vout} (h : vout ≠ []) : outAddrs P vout ≠ [] := by
  obtain ⟨o,l,rfl⟩ := exists_cons_of_ne_nil h
  simp [outAddrs,buildAddrIndex_ne_nil]

def spentAddrs (i : CTxIn) (txPrev : CTransaction) : List UInt160 :=
  outAddrs P (txPrev.vout[i.prevout.n.toNat]?).toList

/-- The ids that are written for an input: those of all outputs beside the one it spends. -/
def prevAddrs (_ : CTxIn) (txPrev : CTransaction) : List UInt160 := outAddrs P txPrev.vout

/-- An address id belongs to a transaction, by an output or by an input, where the
transactions spent from are looked up in a set. -/
def Concerns (T : Set CTransaction) (ids : CTxIn → CTransaction → List UInt160) (tx : CTransaction)
    (a : UInt160) : Prop :=
  a ∈ outAddrs P tx.vout ∨ tx.isCoinBase = false ∧
    ∃ i ∈ tx.vin, ∃ txPrev ∈ T, txPrev.getHash P = i.prevout.hash ∧ a ∈ ids i txPrev

def Returns (W : World) (idx : TxIndex) (T : Set CTransaction) : Prop :=
  ∀ h r t, idx h = some r → fetchTxPrev W h r.pos = .ok t → t ∈ T ∧ t.getHash P = h

variable {P} {db db' : CTxDB}

variable {i : CTxIn} {pool : HashMap CTxIndex} {fMiner : Bool} {inputs inputs' : MapPrevTx}

theorem mem_prevAddrs_of_mem_spentAddrs {txPrev} (ha : a ∈ spentAddrs P i txPrev) :
    a ∈ prevAddrs P i txPrev := by
  obtain ⟨o,ho,ha⟩ := mem_flatMap.mp ha
  exact mem_flatMap.mpr ⟨o,mem_of_getElem? (mem_toList.mp ho),ha⟩

theorem Concerns.of_spent (hc : Concerns P T (spentAddrs P) tx a) :
    Concerns P T (prevAddrs P) tx a := by
  rcases hc with hown | ⟨hcb,i,hi,txPrev,hT,hid,ha⟩
  · exact .inl hown
  · exact .inr ⟨hcb,i,hi,txPrev,hT,hid,mem_prevAddrs_of_mem_spentAddrs ha⟩

theorem fetchInput_block
    (hi : fetchInput W db pool true fMiner inputs i = .ok inputs') :
    inputs' = inputs ∨ ∃ e, inputs' = inputs.insert i.prevout.hash e := by
  simp only [fetchInput,Bool.true_or,if_true] at hi
  split_ifs at hi
  · exact .inl (Except.ok.inj hi).symm
  · split at hi
    · obtain ⟨t,-,hi⟩ := bind_eq_ok.mp hi
      exact .inr ⟨_,(Except.ok.inj hi).symm⟩
    · cases hi

theorem fetchLoop_keys {vin} (hl : fetchLoop W db pool true fMiner vin inputs = .ok inputs')
    (hk : h ∈ inputs') : h ∈ inputs ∨ ∃ i ∈ vin, i.prevout.hash = h := by
  induction vin generalizing inputs with
  | nil =>
    rw [fetchLoop,Except.ok.injEq] at hl
    exact .inl (hl ▸ hk)
  | cons i vin ih =>
    obtain ⟨m,hm,hl⟩ := bind_eq_ok.mp hl
    rcases ih hl with hmem | ⟨j,hj,hid⟩
    · rcases fetchInput_block hm with rfl | ⟨e,rfl⟩
      · exact .inl hmem
      · rcases Std.ExtTreeMap.mem_insert.mp hmem with hid | hmem
        · exact .inr ⟨i,mem_cons_self,by simpa using hid⟩
        · exact .inl hmem
    · exact .inr ⟨j,mem_cons_of_mem i hj,hid⟩

theorem exists_fetched_iff {Q : CTransaction → Prop} (hcb : tx.isCoinBase = false)
    (hinj : Set.InjOn (getHash P) T) (hr : Returns P W db.txView T)
    (hin : fetchInputs W db ∅ true false tx = .ok inputs) :
    (∃ e ∈ inputs.toList, Q e.2.2) ↔
      ∃ i ∈ tx.vin, ∃ txPrev ∈ T, txPrev.getHash P = i.prevout.hash ∧ Q txPrev := by
  obtain ⟨hf,hrange⟩ := fetchInputs_spec hcb hin
  rw [overlay_empty] at hf
  constructor
  · rintro ⟨⟨k,r,t⟩,he,hq⟩
    have hk : inputs[k]? = some (r,t) := Std.ExtTreeMap.mem_toList_iff_getElem?_eq_some.mp he
    obtain ⟨hidx,hread⟩ := hf k r t hk
    obtain ⟨ht,hid⟩ := hr k r t hidx hread
    simp only [fetchInputs,hcb,Bool.false_eq_true,if_false] at hin
    obtain ⟨m,hm,hin⟩ := bind_eq_ok.mp hin
    simp only [andThen_eq_ok,Except.ok.injEq] at hin
    rw [hin.2] at hm
    have hmem : k ∈ inputs := Std.ExtTreeMap.mem_iff_isSome_getElem?.mpr (by rw [hk]; rfl)
    rcases fetchLoop_keys hm hmem with hmem | ⟨i,hi,rfl⟩
    · cases hmem
    · exact ⟨i,hi,t,ht,hid,hq⟩
  · rintro ⟨i,hi,txPrev,hT,hid,hq⟩
    have hi' := hrange i hi
    unfold inRange at hi'
    split at hi'
    · cases hi'
    · rename_i r t hk
      obtain ⟨hidx,hread⟩ := hf _ r t hk
      obtain ⟨ht,hid'⟩ := hr _ r t hidx hread
      obtain rfl := hinj ht hT (hid'.trans hid.symm)
      exact ⟨(i.prevout.hash,r,t),Std.ExtTreeMap.mem_toList_iff_getElem?_eq_some.mpr hk,hq⟩

/-- One transaction is listed under every id of its own outputs and of all outputs of the
transactions it spends from. -/
theorem mem_writeTxAddrs (hinj : Set.InjOn (getHash P) T) (hr : Returns P W db.txView T)
    (hw : writeTxAddrs P W tx db = (.ok (),db')) :
    h ∈ db'.addrTxids a ↔ h ∈ db.addrTxids a ∨ Concerns P T (prevAddrs P) tx a ∧
      h = tx.getHash P := by
  unfold writeTxAddrs at hw
  split_ifs at hw with hcb
  · cases hw
    simp [mem_writeAddrs,Concerns,hcb]
  · split at hw
    · cases hw
    · rename_i inputs hin
      cases hw
      have hprev := exists_fetched_iff (Q := fun t => a ∈ outAddrs P t.vout) (by simpa using hcb) hinj hr hin
      rw [mem_writeAddrs,mem_addrTxids_foldl (fun db (e : UInt256 × CTxIndex × CTransaction) a h =>
        mem_writeAddrs P (tx.getHash P) e.2.2.vout db a h)]
      simp only [Concerns,prevAddrs,← hprev,hcb]
      grind

theorem mem_writeBlockAddrs {vtx} (hinj : Set.InjOn (getHash P) T) (hr : Returns P W db.txView T)
    (hw : writeBlockAddrs P W vtx db = (.ok (),db')) :
    h ∈ db'.addrTxids a ↔
      h ∈ db.addrTxids a ∨ ∃ tx ∈ vtx, Concerns P T (prevAddrs P) tx a ∧ h = tx.getHash P := by
  induction vtx generalizing db with
  | nil =>
    cases hw
    simp
  | cons tx vtx ih =>
    have hq := quiet_writeTxAddrs (P := P) (W := W) tx db
    unfold writeBlockAddrs at hw
    split at hw <;> rename_i m hm <;> rw [hm] at hq
    · cases hw
    · have hr' : Returns P W m.txView T := hq.1.symm ▸ hr
      rw [ih hr' hw,mem_writeTxAddrs hinj hr hm,exists_mem_cons_iff,or_assoc]

variable {pindex : CBlockIndex} {b : CBlock} {s s' : ChainState}

theorem CTxDB.addrTxids_writeBlockIndex (db : CTxDB) (r) :
    (db.writeBlockIndex r).addrTxids = db.addrTxids := addrTxids_put db (by simp) _

theorem CTxDB.addrTxids_writeHashBestChain (db : CTxDB) (hash) :
    (db.writeHashBestChain hash).addrTxids = db.addrTxids := addrTxids_put db (by simp) _

theorem CTxDB.addrTxids_writeQueue (db : CTxDB) (q) :
    (db.writeQueue q).addrTxids = db.addrTxids := by
  unfold writeQueue
  generalize q.toList = l
  induction l generalizing db with
  | nil => rfl
  | cons e l ih => exact (ih _).trans (addrTxids_put db (by simp) _)

structure Adds (P : Params) (T : Set CTransaction) (txs : List CTransaction) (db db' : CTxDB) :
    Prop where
  mem : ∀ a h, h ∈ db'.addrTxids a ↔
    h ∈ db.addrTxids a ∨ ∃ tx ∈ txs, Concerns P T (prevAddrs P) tx a ∧ h = tx.getHash P
  vout_ne : ∀ tx ∈ txs, tx.vout ≠ []

theorem Adds.of_eq (he : db'.addrTxids = db.addrTxids) : Adds P T [] db db' :=
  ⟨fun a h => by simp [he],by simp⟩

theorem Adds.trans {txs txs' db''} (h1 : Adds P T txs db db') (h2 : Adds P T txs' db' db'') :
    Adds P T (txs++txs') db db'' := by
  refine ⟨fun a h => ?_,fun tx htx => ?_⟩
  · rw [h2.mem,h1.mem,or_assoc]
    simp only [mem_append,or_and_right,exists_or]
  · rcases mem_append.mp htx with htx | htx
    · exact h1.vout_ne tx htx
    · exact h2.vout_ne tx htx

theorem vout_ne_of_checkBlock {fCheckPOW fCheckMerkleRoot fCheckSig}
    (hb : checkBlock P W b fCheckPOW fCheckMerkleRoot fCheckSig = .ok ()) (htx : tx ∈ b.vtx) :
    tx.vout ≠ [] := by
  simp only [checkBlock,andThen_eq_ok,checkAll_eq_ok] at hb
  obtain ⟨-,-,-,-,-,-,-,-,htxs,-⟩ := hb
  have hok := htxs tx htx
  simp only [checkBlockTx] at hok
  cases hc : checkTransaction tx with
  | error e => simp [hc] at hok
  | ok u =>
    simp only [checkTransaction,andThen_eq_ok,require_eq_ok,Bool.not_eq_true',isEmpty_eq_false_iff] at hc
    exact hc.2.1

theorem connectBlock_adds (hinj : Set.InjOn (getHash P) T) (hr : Returns P W s'.txdb.txView T)
    (hc : connectBlock P W tip pindex b false s = (.ok (),s')) : Adds P T b.vtx s.txdb s'.txdb := by
  obtain ⟨t,ht,hview,-⟩ := connectBlock_ok hc
  refine ⟨fun a h => ?_,fun tx => vout_ne_of_checkBlock (connectChecks_eq_ok.mp ht).1⟩
  rw [hview] at hr
  unfold connectBlock at hc
  rw [ht] at hc
  simp only [Bool.false_eq_true,if_false] at hc
  split at hc
  · cases hc
  · rename_i db hdb
    have hw := mem_writeBlockAddrs (a := a) (h := h) hinj
      (by rw [CTxDB.txView_writeQueue,CTxDB.txView_writeBlockIndex]; exact hr) hdb
    rw [CTxDB.addrTxids_writeQueue,CTxDB.addrTxids_writeBlockIndex] at hw
    rw [← hw]
    cases hc
    cases pindex.pprev with
    | none => rfl
    | some q => rw [CTxDB.addrTxids_writeBlockIndex]

theorem addrTxids_releaseInputs (vin) (db : CTxDB) :
    (releaseInputs vin db).2.addrTxids = db.addrTxids := by
  induction vin generalizing db with
  | nil => rfl
  | cons i vin ih =>
    rw [releaseInputs]
    split
    · rfl
    · split_ifs
      · rfl
      · exact (ih _).trans (CTxDB.addrTxids_put db (by simp) _)

theorem addrTxids_disconnectInputs (P tx) (db : CTxDB) :
    (disconnectInputs P tx db).2.addrTxids = db.addrTxids := by
  have hr := addrTxids_releaseInputs tx.vin db
  unfold disconnectInputs
  split_ifs
  · exact CTxDB.addrTxids_put db (by simp) _
  · split <;> rename_i m hm <;> rw [hm] at hr
    · exact hr
    · exact (CTxDB.addrTxids_put m (by simp) _).trans hr

theorem addrTxids_disconnectTxs (P vtx) (db : CTxDB) :
    (disconnectTxs P vtx db).2.addrTxids = db.addrTxids := by
  induction vtx generalizing db with
  | nil => rfl
  | cons tx vtx ih =>
    have hd := addrTxids_disconnectInputs P tx db
    rw [disconnectTxs]
    split <;> rename_i m hm <;> rw [hm] at hd
    · exact hd
    · exact (ih m).trans hd

theorem addrTxids_disconnectBlock (P pindex b s) :
    (disconnectBlock P pindex b s).2.txdb.addrTxids = s.txdb.addrTxids := by
  have hd := addrTxids_disconnectTxs P b.vtx.reverse s.txdb
  unfold disconnectBlock
  split <;> rename_i m hm <;> rw [hm] at hd
  · exact hd
  · cases pindex.pprev with
    | none => exact hd
    | some q => exact (CTxDB.addrTxids_writeBlockIndex m _).trans hd

theorem addrTxids_disconnectBranch (P E l acc s) :
    (disconnectBranch P E l acc s).2.txdb.addrTxids = s.txdb.addrTxids := by
  induction l generalizing acc s with
  | nil => rfl
  | cons pindex l ih =>
    rw [disconnectBranch]
    split
    · rfl
    · rename_i b hb
      have hd := addrTxids_disconnectBlock P pindex b s
      split <;> rename_i m hm <;> rw [hm] at hd
      · exact hd
      · exact (ih _ m).trans hd

/-- The block files: the place of a stored transaction is not the mark of the memory
pool, and what is read there is the transaction stored. -/
structure ReadsBack (W : World) (m : HashMap CBlockIndex) : Prop where
  place : ∀ (h : UInt256) (p : CBlockIndex), m[h]? = some p →
    ∀ x ∈ blockPositions p.data p.data.block false, x.2 ≠ .memPool
  read : ∀ (h : UInt256) (p : CBlockIndex), m[h]? = some p →
    ∀ x ∈ blockPositions p.data p.data.block false, ∀ tx, W.readTx x.2 = some tx → tx = x.1

variable {m : HashMap CBlockIndex} {p : CBlockIndex} {k : UInt256} {base l : List BlockIndexData}

theorem ReadsBack.returns {idx} (hW : ReadsBack W m) (ht : Tree P gen m)
    (hinj : Set.InjOn (getHash P) (treeTxs m)) (hp : m[k]? = some p) (hs : base <:+ p.path)
    (ha : Applied P idx base) : Returns P W idx (treeTxs m) := by
  intro hash r t hidx hread
  obtain ⟨e,he,rfl,hpos,-⟩ := (ha.tracks ((ht.sound hinj hp).suffix hs)).recorded hash r hidx
  obtain ⟨x,hx,rfl⟩ := mem_map.mp he
  obtain ⟨d,ds,hd,-,hx⟩ := mem_pathPositions.mp hx
  have hmem := ht.mem_of_suffix hp (hd.trans hs)
  have hplace : x.2 ≠ .memPool := hW.place _ _ hmem x hx
  rw [hpos,fetchTxPrev,show (txEntry P x).pos = x.2 from rfl,if_neg hplace] at hread
  split at hread
  · cases hread
  · rename_i t' ht'
    obtain rfl := Except.ok.inj hread
    obtain rfl := hW.read _ _ hmem x hx t' ht'
    exact ⟨⟨_,_,hmem,fst_mem_of_mem_blockPositions hx⟩,rfl⟩

theorem connectBranch_adds (hE : ∀ q, ReadsBack (E q) m) (ht : Tree P gen m)
    (hinj : Set.InjOn (getHash P) (treeTxs m)) (hp : m[k]? = some p) {acc vDelete}
    (hbase : base ≠ []) (hs : l.reverse++base <:+ p.path) (ha : Applied P s.txdb.txView base)
    (hc : connectBranch P E tip (stackOn base l) acc s = (.ok vDelete,s')) :
    Adds P (treeTxs m) (blocksTxs l) s.txdb s'.txdb := by
  induction l generalizing acc s base with
  | nil =>
    cases hc
    exact .of_eq rfl
  | cons d l ih =>
    rw [reverse_cons,append_assoc,singleton_append] at hs
    rw [stackOn,connectBranch] at hc
    split at hc
    · cases hc
    · rename_i b hb
      obtain ⟨rfl,-⟩ := readFromDisk_eq_some hb
      split at hc
      · cases hc
      · rename_i s₁ hs₁
        have ha₁ := ha.connect hbase hs₁
        have hr := (hE ⟨d,base⟩).returns ht hinj hp ((suffix_append _ _).trans hs) ha₁
        rw [blocksTxs_cons]
        exact (connectBlock_adds hinj hr hs₁).trans (ih (by simp) hs ha₁ hc)

theorem CTxDB.addrTxids_txnCommit_true (db : CTxDB) :
    CTxDB.addrTxids (db.txnCommit true) = db.addrTxids := by
  funext a
  rw [addrTxids_eq,addrTxids_eq,TxDB.view_of_idle (TxDB.activeBatch_txnCommit db true),TxDB.pdb_txnCommit_true]

theorem CTxDB.addrTxids_txnBegin (hidle : db.activeBatch = none) :
    CTxDB.addrTxids db.txnBegin = db.addrTxids := by
  funext a
  rw [addrTxids_eq,addrTxids_eq,TxDB.view_txnBegin,TxDB.view_of_idle hidle]

theorem setBestChainInner_adds {d : BlockIndexData} (hW : ReadsBack W m) (ht : Tree P gen m)
    (hinj : Set.InjOn (getHash P) (treeTxs m)) (hp : m[k]? = some p) (hbase : base ≠ [])
    (hs : d::base <:+ p.path) (hn : Committed P n.chain base)
    (hc : setBestChainInner P W tip d.block ⟨d,base⟩ (n.withDb n.chain.txdb.txnBegin) =
      some (.ok (),n')) :
    Adds P (treeTxs m) d.block.vtx n.chain.txdb n'.chain.txdb := by
  unfold setBestChainInner at hc
  split at hc
  · obtain ⟨m,-,hc⟩ := map_eq_some_iff.mp hc
    cases hc
  · rename_i s hs₁
    have ha : Applied P s.txdb.txView (d::base) :=
      Applied.connect (s := (n.withDb n.chain.txdb.txnBegin).chain) hn.applied hbase hs₁
    have hadd := connectBlock_adds hinj (hW.returns ht hinj hp hs ha) hs₁
    have hbegin : Adds P (treeTxs m) [] n.chain.txdb n.chain.txdb.txnBegin :=
      .of_eq (CTxDB.addrTxids_txnBegin hn.idle)
    split_ifs at hc with hok
    · split at hc
      · cases hc
      · cases hc
        rw [← append_nil d.block.vtx,← nil_append d.block.vtx]
        refine (hbegin.trans hadd).trans (.of_eq ?_)
        rw [hok,CTxDB.addrTxids_txnCommit_true,CTxDB.addrTxids_writeHashBestChain]
    · cases hc

theorem attachPostponed_adds (hE : ∀ q, ReadsBack (E q) m) (ht : Tree P gen m)
    (hinj : Set.InjOn (getHash P) (treeTxs m)) (hp : m[k]? = some p) (hbase : base ≠ [])
    (hs : l.reverse++base <:+ p.path) (hn : Committed P n.chain base)
    (hc : attachPostponed P E tip (stackOn base l) n = some (true,n')) :
    Adds P (treeTxs m) (blocksTxs l) n.chain.txdb n'.chain.txdb := by
  induction l generalizing n base with
  | nil =>
    cases hc
    exact .of_eq rfl
  | cons d l ih =>
    rw [reverse_cons,append_assoc,singleton_append] at hs
    have hs' : d::base <:+ p.path := (suffix_append _ _).trans hs
    have hdist : Distinct base := (ht.distinct hp).suffix ((suffix_cons d _).trans hs')
    rw [stackOn,attachPostponed] at hc
    split at hc
    · cases hc
    · rename_i b hb
      obtain ⟨rfl,hhash⟩ := readFromDisk_eq_some hb
      split at hc
      · cases hc
      · cases hc
      · rename_i n₁ hn₁
        have hcomm := (setBestChainInner_ok hbase hn hhash hdist hn₁).1
        rw [blocksTxs_cons]
        exact (setBestChainInner_adds (hE _) ht hinj hp hbase hs' hn hn₁).trans (ih (by simp) hs hcomm hc)

theorem reorganize_adds (hE : ∀ q, ReadsBack (E q) m) (ht : Tree P gen m)
    (hinj : Set.InjOn (getHash P) (treeTxs m)) (hp : m[k]? = some p)
    (hs : pindexNew.path <:+ p.path) (hn : Committed P n.chain tip.pindexBest.path)
    (hold : Sound P tip.pindexBest.path)
    (hc : reorganize P E tip pindexNew (n.withDb n.chain.txdb.txnBegin) = some (.ok (),n')) :
    ∃ detached common connected, tip.pindexBest.path = detached++common ∧
      pindexNew.path = connected.reverse++common ∧ common ≠ [] ∧
      Adds P (treeTxs m) (blocksTxs connected) n.chain.txdb n'.chain.txdb := by
  unfold reorganize at hc
  split at hc
  · cases hc
  · rename_i pfork hfork
    obtain ⟨detached,connected,hold',hbd,hnew',hbl⟩ := findFork_branches hfork
    have hne := pfork.path_ne_nil
    dsimp only at hc
    rw [hbd,hbl] at hc
    rw [hold'] at hn hold
    rw [hnew'] at hs
    have hkept := addrTxids_disconnectBranch P E (entriesOn pfork.path detached) []
      (n.withDb n.chain.txdb.txnBegin).chain
    split at hc <;> rename_i v s hdis <;> rw [hdis] at hkept
    · cases hc
    · obtain ⟨ha,-⟩ := disconnectBranch_ok (s := (n.withDb n.chain.txdb.txnBegin).chain) hne hn.applied hold hdis
      have hkept' : Adds P (treeTxs m) [] n.chain.txdb s.txdb :=
        .of_eq (hkept.trans (CTxDB.addrTxids_txnBegin hn.idle))
      split at hc <;> rename_i v' s' hcon
      · cases hc
      · have hadd := connectBranch_adds hE ht hinj hp hne hs ha hcon
        split_ifs at hc with hok
        · obtain ⟨pool,-,hc⟩ := map_eq_some_iff.mp hc
          cases hc
          refine ⟨detached,pfork.path,connected,hold',hnew',hne,?_⟩
          rw [← append_nil (blocksTxs connected),← nil_append (blocksTxs connected)]
          refine (hkept'.trans hadd).trans (.of_eq ?_)
          rw [hok,CTxDB.addrTxids_txnCommit_true,CTxDB.addrTxids_writeHashBestChain]
        · cases hc

variable (P)

/-- The lists are those of a chain: a transaction is listed under an id exactly if it is
one of the chain and the id is of an output of it, or of an output that it spends. -/
def AddrIndexed (db : CTxDB) (path : List BlockIndexData) : Prop :=
  ∀ a h, h ∈ db.addrTxids a ↔
    ∃ tx ∈ pathTxs path, tx.getHash P = h ∧ Concerns P { tx | tx ∈ pathTxs path } (spentAddrs P) tx a

/-- Spending from a transaction, one has to do with all ids of its outputs anyway. -/
def OnlySpent (path : List BlockIndexData) : Prop :=
  ∀ tx ∈ pathTxs path, ∀ a, Concerns P { tx | tx ∈ pathTxs path } (prevAddrs P) tx a →
    Concerns P { tx | tx ∈ pathTxs path } (spentAddrs P) tx a

variable {P} {idx : TxIndex} {path : List BlockIndexData} {ids : CTxIn → CTransaction → List UInt160}

theorem mem_pathTxs_stacked (hbase : base ≠ []) :
    tx ∈ pathTxs (l.reverse++base) ↔ tx ∈ blocksTxs l ∨ tx ∈ pathTxs base := by
  rw [mem_pathTxs_append hbase,mem_blocksTxs_reverse]

theorem Applied.prev_mem (ha : Applied P idx path) (hs : Sound P path) (htx : tx ∈ pathTxs path)
    (hcb : tx.isCoinBase = false) (hi : i ∈ tx.vin) :
    ∃ txPrev ∈ pathTxs path, txPrev.getHash P = i.prevout.hash := by
  obtain ⟨x,hx,rfl⟩ := mem_map.mp htx
  have htracks := ha.tracks hs
  have hin : i.prevout.key ∈ (txEntry P x).ins := by
    simp only [txEntry,hcb,Bool.false_eq_true,if_false]
    exact mem_map_of_mem hi
  have hcell := htracks.spender _ (mem_map_of_mem hx) _ hin
  obtain ⟨e,he,hid,-⟩ := (htracks.isSome_cell_iff (ha.txids_nodup hs)).mp (by rw [hcell]; rfl)
  obtain ⟨y,hy,rfl⟩ := mem_map.mp he
  exact ⟨y.1,mem_map_of_mem hy,hid⟩

structure Placed (P : Params) (T : Set CTransaction) (path : List BlockIndexData) : Prop where
  applied : ∃ idx, Applied P idx path
  sound : Sound P path
  mem : ∀ tx ∈ pathTxs path, tx ∈ T
  inj : Set.InjOn (CTransaction.getHash P) T

/-- On a connected chain it does not matter where the transactions spent from are looked up. -/
theorem Placed.concerns_iff (h : Placed P T path) (htx : tx ∈ pathTxs path) :
    Concerns P { tx | tx ∈ pathTxs path } ids tx a ↔ Concerns P T ids tx a := by
  obtain ⟨idx,happ⟩ := h.applied
  refine or_congr_right (and_congr_right fun hcb => exists_congr fun i => and_congr_right fun hi => ?_)
  constructor
  · rintro ⟨txPrev,hprev,hid,ha⟩
    exact ⟨txPrev,h.mem _ hprev,hid,ha⟩
  · rintro ⟨txPrev,hprev,hid,ha⟩
    obtain ⟨t,ht,hid'⟩ := happ.prev_mem h.sound htx hcb hi
    obtain rfl := h.inj (h.mem t ht) hprev (hid'.trans hid.symm)
    exact ⟨t,ht,hid,ha⟩

theorem Placed.addrIndexed_iff (h : Placed P T path) :
    AddrIndexed P db path ↔ ∀ a hash, hash ∈ db.addrTxids a ↔
      ∃ tx ∈ pathTxs path, tx.getHash P = hash ∧ Concerns P T (spentAddrs P) tx a := by
  refine forall_congr' fun a => forall_congr' fun hash => iff_congr Iff.rfl ?_
  refine exists_congr fun tx => and_congr_right fun htx => ?_
  rw [h.concerns_iff htx]

theorem Placed.onlySpent_iff (h : Placed P T path) :
    OnlySpent P path ↔ ∀ tx ∈ pathTxs path, ∀ a, Concerns P T (prevAddrs P) tx a →
      Concerns P T (spentAddrs P) tx a := by
  refine forall_congr' fun tx => forall_congr' fun htx => forall_congr' fun a => ?_
  rw [h.concerns_iff htx,h.concerns_iff htx]

/-- From the lists of one chain to those of another: every transaction has to stay on the
chain, and none that is added may be written under the id of an output beside the
one it spends. -/
theorem addrIndexed_moved_iff {old common added} (hold : Placed P T old)
    (hnew : Placed P T (added.reverse++common)) (hcommon : common ≠ []) (hs : common <:+ old)
    (hvout : ∀ tx ∈ pathTxs old, tx.vout ≠ []) (hadd : Adds P T (blocksTxs added) db db')
    (hdb : AddrIndexed P db old) (honly : OnlySpent P old) :
    AddrIndexed P db' (added.reverse++common) ↔
      (∀ tx ∈ pathTxs old, tx ∈ pathTxs (added.reverse++common)) ∧
      OnlySpent P (added.reverse++common) := by
  rw [hold.addrIndexed_iff] at hdb
  rw [hold.onlySpent_iff] at honly
  rw [hnew.addrIndexed_iff,hnew.onlySpent_iff]
  have hbelow : ∀ tx ∈ pathTxs common, tx ∈ pathTxs old := fun tx htx => mem_pathTxs_of_suffix hs htx
  have hadded : ∀ tx ∈ blocksTxs added, tx ∈ pathTxs (added.reverse++common) :=
    fun tx htx => (mem_pathTxs_stacked hcommon).mpr (.inl htx)
  constructor
  · intro hidx
    -- whoever is listed under an id of an own output is, by its hash, a transaction of the new chain
    have hlisted : ∀ tx ∈ T, ∀ a, tx.getHash P ∈ db'.addrTxids a →
        tx ∈ pathTxs (added.reverse++common) ∧ Concerns P T (spentAddrs P) tx a := by
      intro tx htx a hmem
      obtain ⟨t,ht,hid,hc⟩ := (hidx a _).mp hmem
      obtain rfl := hnew.inj (hnew.mem t ht) htx hid
      exact ⟨ht,hc⟩
    refine ⟨fun tx htx => ?_,fun tx htx a hc => ?_⟩
    · obtain ⟨a,ha⟩ := exists_mem_of_ne_nil _ (outAddrs_ne_nil P (hvout tx htx))
      exact (hlisted tx (hold.mem tx htx) a ((hadd.mem a _).mpr (.inl ((hdb a _).mpr ⟨tx,htx,rfl,.inl ha⟩)))).1
    · rcases (mem_pathTxs_stacked hcommon).mp htx with hc' | hc'
      · exact (hlisted tx (hnew.mem tx htx) a ((hadd.mem a _).mpr (.inr ⟨tx,hc',hc,rfl⟩))).2
      · exact honly tx (hbelow tx hc') a hc
  · rintro ⟨hkept,hspent⟩ a h
    rw [hadd.mem,hdb]
    constructor
    · rintro (⟨tx,htx,hid,hc⟩ | ⟨tx,htx,hc,rfl⟩)
      · exact ⟨tx,hkept tx htx,hid,hc⟩
      · exact ⟨tx,hadded tx htx,rfl,hspent tx (hadded tx htx) a hc⟩
    · rintro ⟨tx,htx,rfl,hc⟩
      rcases (mem_pathTxs_stacked hcommon).mp htx with hc' | hc'
      · exact .inr ⟨tx,hc',hc.of_spent,rfl⟩
      · exact .inl ⟨tx,hbelow tx hc',rfl,hc⟩

/-- What a call adds that attaches all its postponed blocks: the blocks above the fork. -/
theorem Synced.switchChain_adds (hn : Synced P gen n) (hE : ∀ q, ReadsBack (E q) n.mapBlockIndex)
    (hinj : Set.InjOn (getHash P) (treeTxs n.mapBlockIndex))
    (hmem : n.mapBlockIndex[pindexNew.getBlockHash]? = some pindexNew) (htip : n.tip = some tip)
    (hc : switchChain P E pindexNew n = some (.ok true,n')) :
    ∃ common added, common ≠ [] ∧ common <:+ tip.pindexBest.path ∧
      pindexNew.path = added.reverse++common ∧
      Adds P (treeTxs n.mapBlockIndex) (blocksTxs added) n.chain.txdb n'.chain.txdb := by
  obtain ⟨tip',htip',htree,-,hcomm⟩ := hn.best
  obtain rfl : tip' = tip := some.inj (htip'.symm.trans htip)
  have hne := tip'.pindexBest.path_ne_nil
  cases (switchChain_cases hc).2 with
  | first hnone => exact absurd hnone hn.first
  | extended htip₁ hext hinner =>
    obtain rfl : tip' = _ := some.inj (htip.symm.trans htip₁)
    obtain ⟨d,ds⟩ := pindexNew
    obtain rfl : ds = _ := hn.ancestors_eq htip hmem hext (ancestors_ne_nil_of_setBestChainInner hinner)
    refine ⟨tip'.pindexBest.path,[d],hne,suffix_rfl,rfl,?_⟩
    have hadd := setBestChainInner_adds (hE _) hn.tree hinj hmem hne suffix_rfl hcomm hinner
    simpa [blocksTxs] using hadd
  | reorganized htip₁ _ hre hattach =>
    obtain rfl : tip' = _ := some.inj (htip.symm.trans htip₁)
    obtain ⟨l,hl,hsec⟩ := postpone_spec
      (p := (postpone tip'.pindexBest.nChainTrust pindexNew.data pindexNew.ancestors []).1) rfl
    rw [hsec,append_nil] at hattach
    generalize (postpone tip'.pindexBest.nChainTrust pindexNew.data pindexNew.ancestors []).1 = mid
      at hl hre hattach
    have hpath : pindexNew.path = l.reverse++mid.path := hl
    have hs : mid.path <:+ pindexNew.path := hpath ▸ suffix_append _ _
    have hsold := hn.tree.sound hinj htree
    obtain ⟨_,_,_,hm⟩ :=
      reorganize_ok hcomm hsold (hn.tree.distinct htree) ((hn.tree.distinct hmem).suffix hs) hre
    have hmid := hm.committed
    rw [reverse_nil,nil_append,← hm.mid] at hmid
    obtain ⟨detached,common,connected,hold,hnew,hcommon,hadd⟩ :=
      reorganize_adds hE hn.tree hinj hmem hs hcomm hsold hre
    refine ⟨common,connected++l,hcommon,hold ▸ suffix_append _ _,by simp [hpath,hnew],?_⟩
    have hblocks : blocksTxs (connected++l) = blocksTxs connected++blocksTxs l := flatMap_append
    rw [hblocks]
    exact hadd.trans (attachPostponed_adds hE hn.tree hinj hmem mid.path_ne_nil (hpath ▸ suffix_rfl)
      hmid hattach)

theorem Synced.placed (hn : Synced P gen n) (hinj : Set.InjOn (getHash P) (treeTxs n.mapBlockIndex))
    (hp : n.mapBlockIndex[h]? = some p) (ha : Applied P idx p.path) :
    Placed P (treeTxs n.mapBlockIndex) p.path :=
  ⟨⟨idx,ha⟩,hn.tree.sound hinj hp,fun _ htx => hn.tree.mem_treeTxs hp htx,hinj⟩

/-- The lists are those of the best chain, on which every transaction has an output and to
do with all ids it was written under. -/
structure Indexed (P : Params) (n : Node) (tip : Tip) : Prop where
  lists : AddrIndexed P n.chain.txdb tip.pindexBest.path
  spent : OnlySpent P tip.pindexBest.path
  vout_ne : ∀ tx ∈ pathTxs tip.pindexBest.path, tx.vout ≠ []

/-- No transaction leaves the best chain, and on the new one every id that a transaction is
written under is of an own output or of one that it spends. -/
def KeepsAddrs (P : Params) (pindexNew : CBlockIndex) (n : Node) : Prop :=
  ∀ tip, n.tip = some tip →
    (∀ tx ∈ pathTxs tip.pindexBest.path, tx ∈ pathTxs pindexNew.path) ∧ OnlySpent P pindexNew.path

theorem Indexed.setBestChain_iff (hi : Indexed P n tip) (htip : n.tip = some tip)
    (hn : Synced P gen n) (hE : ∀ q, ReadsBack (E q) n.mapBlockIndex)
    (hinj : Set.InjOn (getHash P) (treeTxs n.mapBlockIndex))
    (hmem : n.mapBlockIndex[pindexNew.getBlockHash]? = some pindexNew)
    (hgood : Attaches P E pindexNew n) (hc : setBestChain P E pindexNew n = some (.ok (),n')) :
    (AddrIndexed P n'.chain.txdb pindexNew.path ↔ KeepsAddrs P pindexNew n) ∧
      ∀ tx ∈ pathTxs pindexNew.path, tx.vout ≠ [] := by
  obtain ⟨tip',htip',htree,-,hcomm⟩ := hn.best
  obtain rfl : tip' = tip := some.inj (htip'.symm.trans htip)
  have hsync := hn.setBestChain hinj hmem hgood hc
  obtain ⟨all,m,hs,rfl⟩ := setBestChain_eq_ok.mp hc
  obtain rfl := hgood.eq_true hs
  obtain ⟨common,added,hcommon,hsuf,hpath,hadd⟩ := hn.switchChain_adds hE hinj hmem htip hs
  obtain ⟨tip₁,htip₁,-,-,hcomm'⟩ := hsync.best
  cases htip₁
  have hnew := hn.placed hinj hmem hcomm'.applied
  rw [hpath] at hnew
  have hiff := addrIndexed_moved_iff (hn.placed hinj htree hcomm.applied) hnew hcommon hsuf hi.vout_ne hadd
    hi.lists hi.spent
  refine ⟨?_,fun tx htx => ?_⟩
  · rw [hpath]
    refine hiff.trans ⟨fun hk tip₁ htip₁ => ?_,fun hk => ?_⟩
    · obtain rfl : tip₁ = tip' := some.inj (htip₁.symm.trans htip)
      rw [hpath]
      exact hk
    · rw [← hpath]
      exact hk tip' htip
  · rw [hpath,mem_pathTxs_stacked hcommon] at htx
    rcases htx with htx | htx
    · exact hadd.vout_ne tx htx
    · exact hi.vout_ne tx (mem_pathTxs_of_suffix hsuf htx)

def AddrIndexCorrect (P : Params) (n : Node) : Prop :=
  ∃ tip, n.tip = some tip ∧ AddrIndexed P n.chain.txdb tip.pindexBest.path

/-- The block files give back what was stored, no postponed block fails, and a call that
goes through keeps the ids and the transactions together. -/
def TidyCall (P : Params) (E : CBlockIndex → World) (pindexNew : CBlockIndex) (n : Node) : Prop :=
  (∀ q, ReadsBack (E q) n.mapBlockIndex) ∧ Attaches P E pindexNew n ∧
    ((setBestChain P E pindexNew n).map Prod.fst = some (.ok ()) → KeepsAddrs P pindexNew n)

theorem addrTxids_of_idle (hidle : db.activeBatch = none) (hidle' : db'.activeBatch = none)
    (hpdb : ∀ a, db'.pdb (.adr a) = db.pdb (.adr a)) : db'.addrTxids = db.addrTxids := by
  funext a
  rw [CTxDB.addrTxids_eq,CTxDB.addrTxids_eq,TxDB.view_of_idle hidle,TxDB.view_of_idle hidle',hpdb]

theorem Indexed.of_addrTxids (hi : Indexed P n tip)
    (he : n'.chain.txdb.addrTxids = n.chain.txdb.addrTxids) :
    Indexed P n' tip :=
  ⟨fun a h => by rw [he]; exact hi.lists a h,hi.spent,hi.vout_ne⟩

theorem indexed_start {A slot hashProof}
    (h : addToBlockIndex P A gen slot hashProof .empty = some (.ok (),n)) (htip : n.tip.isSome) :
    ∃ tip, n.tip = some tip ∧ Indexed P n tip := by
  obtain ⟨p,hroot,-,-,rfl⟩ := addToBlockIndex_first h htip
  have hnone : pathTxs p.path = [] := by rw [CBlockIndex.path,hroot]; rfl
  have hlists : ∀ a, (Node.first P A p).chain.txdb.addrTxids a = [] := by
    intro a
    change CTxDB.addrTxids (TxDB.txnCommit (CTxDB.writeHashBestChain _ _) true) a = []
    rw [CTxDB.addrTxids_txnCommit_true,CTxDB.addrTxids_writeHashBestChain,CTxDB.addrTxids_eq,TxDB.view_txnBegin,
      pdb_addIndex A .empty p (by simp)]
    rfl
  refine ⟨⟨p,p.nHeight,rfl⟩,rfl,fun a h => ?_,fun tx htx => ?_,fun tx htx => ?_⟩
  · rw [hlists,hnone]
    simp
  · rw [hnone] at htx
    cases htx
  · rw [hnone] at htx
    cases htx

theorem Reach.indexed (hn : Reach P gen (TidyCall P) n)
    (hinj : Set.InjOn (getHash P) (treeTxs n.mapBlockIndex)) :
    ∃ tip, n.tip = some tip ∧ Indexed P n tip := by
  induction hn with
  | start _ h htip => exact indexed_start h htip
  | @index n A tip b pindexPrev hashProof slot hn htip hacc ih =>
    have hinj' := hinj.mono (treeTxs_addIndex hacc)
    obtain ⟨tip',htip',hi⟩ := ih hinj'
    obtain ⟨_,-,-,-,hcomm⟩ := (hn.synced (fun _ _ _ h => h.2.1) hinj').best
    exact ⟨tip',htip',hi.of_addrTxids (addrTxids_of_idle hcomm.idle rfl fun a => pdb_addIndex A n _ (by simp))⟩
  | @best n n' E pindexNew r hn hmem h hcall ih =>
    rw [setBestChain_mapBlockIndex h] at hinj
    obtain ⟨tip,htip,hi⟩ := ih hinj
    have hsync := hn.synced (fun _ _ _ h => h.2.1) hinj
    obtain ⟨hE,hattach,hkeeps⟩ := hcall
    cases r with
    | error e =>
      obtain ⟨hu,hidle,hidle'⟩ := switchChain_error (setBestChain_eq_error.mp h)
      refine ⟨tip,?_,hi.of_addrTxids (addrTxids_of_idle hidle hidle' fun a => hu.pdb _ (by simp))⟩
      rw [hu.globals]
      exact htip
    | ok u =>
      have hk := hkeeps (by rw [h]; rfl)
      obtain ⟨hiff,hvout⟩ := hi.setBestChain_iff htip hsync hE hinj hmem hattach h
      have hlists := hiff.mpr hk
      obtain ⟨all,m,-,rfl⟩ := setBestChain_eq_ok.mp h
      exact ⟨⟨pindexNew,pindexNew.nHeight,rfl⟩,rfl,hlists,(hk tip htip).2,hvout⟩

namespace Sample

theorem readsBack (h : ∀ e ∈ m.toList, ∀ x ∈ blockPositions e.2.data e.2.data.block false,
      x.2 ≠ .memPool ∧ (W.readTx x.2).all (fun tx => tx = x.1)) : ReadsBack W m := by
  have hmem : ∀ (k : UInt256) (p : CBlockIndex), m[k]? = some p → (k,p) ∈ m.toList :=
    fun _ _ hp => Std.ExtTreeMap.mem_toList_iff_getElem?_eq_some.mpr hp
  refine ⟨fun k p hp x hx => (h _ (hmem k p hp) x hx).1,fun k p hp x hx tx htx => ?_⟩
  have hall := (h _ (hmem k p hp) x hx).2
  rw [htx] at hall
  simpa using hall

theorem onlySpent_of_coinbases (h : ∀ tx ∈ pathTxs path, tx.isCoinBase) :
    OnlySpent chainParams path := by
  intro tx htx a hc
  rcases hc with hown | ⟨hcb,-⟩
  · exact .inl hown
  · rw [h tx htx] at hcb
    cases hcb

theorem keepsAddrs_a₁ : KeepsAddrs chainParams a₁ (started.addIndex acceptEnv a₁) := by
  have htip : (started.addIndex acceptEnv a₁).tip.map (fun tip => pathTxs tip.pindexBest.path) = some [] := by
    decide +kernel
  intro tip h
  rw [h] at htip
  have hnone : pathTxs tip.pindexBest.path = [] := some.inj htip
  refine ⟨fun tx htx => ?_,onlySpent_of_coinbases (by decide +kernel)⟩
  rw [hnone] at htx
  cases htx

theorem readsBack_a₁ : ∀ q, ReadsBack (files q) (started.addIndex acceptEnv a₁).mapBlockIndex :=
  fun _ => readsBack (W := world 400 [a₁.data,b₁.data,c₂.data,c₃.data,c₄.data]) (by decide +kernel)

def overtaken : Node := forked.addIndex acceptEnv c₂

theorem reach_overtaken : Reach chainParams genesis.block (TidyCall chainParams) overtaken :=
  reach_addIndex (reach_forked ⟨readsBack_a₁,attaches_a₁,fun _ => keepsAddrs_a₁⟩) c₂ b₁ run_c₂.2.1

end Sample

/-- Over every run of tidy calls the address index is the one of the best chain, and a
further call that goes through keeps it so exactly if no transaction leaves the chain
and none is written under an id that it has nothing to do with. -/
theorem addrIndexCorrect_iff (hn : Reach P gen (TidyCall P) n)
    (hinj : Set.InjOn (getHash P) (treeTxs n.mapBlockIndex)) :
    AddrIndexCorrect P n ∧ ∀ E pindexNew n', (∀ q, ReadsBack (E q) n.mapBlockIndex) →
      n.mapBlockIndex[pindexNew.getBlockHash]? = some pindexNew → Attaches P E pindexNew n →
      setBestChain P E pindexNew n = some (.ok (),n') →
      (AddrIndexCorrect P n' ↔ KeepsAddrs P pindexNew n) := by
  obtain ⟨tip,htip,hi⟩ := hn.indexed hinj
  have hsync := hn.synced (fun _ _ _ h => h.2.1) hinj
  refine ⟨⟨tip,htip,hi.lists⟩,fun E pindexNew n' hE hmem hattach h => ?_⟩
  obtain ⟨hiff,-⟩ := hi.setBestChain_iff htip hsync hE hinj hmem hattach h
  obtain ⟨all,m,-,rfl⟩ := setBestChain_eq_ok.mp h
  rw [← hiff]
  constructor
  · rintro ⟨tip',htip',hlists⟩
    cases htip'
    exact hlists
  · intro hlists
    exact ⟨⟨pindexNew,pindexNew.nHeight,rfl⟩,rfl,hlists⟩

open Sample

/-- After the first block the lists are those of its coinbase. -/
theorem addrIndexCorrect_a₁ :
    AddrIndexCorrect chainParams (call files a₁
      (started.addIndex acceptEnv a₁)) := by
  have hiff := (addrIndexCorrect_iff (reach_index_a₁ _) (injOn_treeTxs (by decide +kernel))).2 _ _ _
    readsBack_a₁ run_a₁.2.1 attaches_a₁ setBestChain_a₁
  exact hiff.mpr keepsAddrs_a₁

/-- The better branch is switched to, and the coinbase of the block that was left stays
listed under the id of its output. -/
theorem stale_coinbase_listed :
    ∃ n n', Reach chainParams genesis.block (TidyCall chainParams) n ∧
      Set.InjOn (getHash chainParams) (treeTxs n.mapBlockIndex) ∧
      (∀ q, ReadsBack (files q) n.mapBlockIndex) ∧
      n.mapBlockIndex[c₂.getBlockHash]? = some c₂ ∧
      Attaches chainParams files c₂ n ∧
      setBestChain chainParams files c₂ n = some (.ok (),n') ∧
      (coinbase 1 200 COIN).getHash chainParams ∈
        n'.chain.txdb.addrTxids (chainParams.hash160 opTrue) ∧
      (coinbase 1 200 COIN).getHash chainParams ∉
        (pathTxs c₂.path).map (getHash chainParams) ∧
      ¬ AddrIndexCorrect chainParams n' := by
  have hcall : (setBestChain chainParams files c₂ overtaken).map
      (fun r => (r.1,r.2.tip.map fun tip => tip.pindexBest,
        decide ((coinbase 1 200 COIN).getHash chainParams ∈
          r.2.chain.txdb.addrTxids (chainParams.hash160 opTrue)))) =
        some (.ok (),some c₂,true) := by decide +kernel
  obtain ⟨⟨r,m⟩,hm,hr⟩ := map_eq_some_iff.mp hcall
  obtain ⟨rfl,hbest,hlisted⟩ : r = .ok () ∧ (m.tip.map fun tip => tip.pindexBest) = some c₂ ∧
      decide ((coinbase 1 200 COIN).getHash chainParams ∈
        m.chain.txdb.addrTxids (chainParams.hash160 opTrue)) = true := by
    simpa only [Prod.mk.injEq] using hr
  have hlisted := of_decide_eq_true hlisted
  have hgone : (coinbase 1 200 COIN).getHash chainParams ∉
      (pathTxs c₂.path).map (getHash chainParams) := by decide +kernel
  refine ⟨overtaken,m,reach_overtaken,injOn_treeTxs (by decide +kernel),?_,by decide +kernel,
    by decide +kernel,hm,hlisted,hgone,?_⟩
  · exact fun _ => readsBack (W := world 400
      [a₁.data,b₁.data,c₂.data,c₃.data,c₄.data]) (by decide +kernel)
  · rintro ⟨tip,htip,hlists⟩
    rw [htip] at hbest
    have hc₂ : tip.pindexBest = c₂ := some.inj hbest
    obtain ⟨tx,htx,hid,-⟩ := (hlists _ _).mp hlisted
    rw [hc₂] at htx
    exact hgone (hid ▸ mem_map_of_mem htx)

end DarkSilk
