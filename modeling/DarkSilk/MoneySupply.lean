import DarkSilk.ConnectBlock

/-! The money supply. The exact value that a block takes in and pays out is defined
from the block files, next to the 64-bit sums of ConnectBlock, and the increase of
the supply is compared with the reward. -/
namespace DarkSilk
namespace MoneySupply

open BatchStore List Function CTransaction

abbrev Positions := UInt256 → Option CDiskTxPos

def positions (idx : TxIndex) : Positions := fun h => (idx h).map SpendIndex.Record.pos

def prevValue (W : World) (pos : Positions) (i : CTxIn) : ℤ :=
  match pos i.prevout.hash with
  | none => 0
  | some p =>
    match fetchTxPrev W i.prevout.hash p with
    | .error _ => 0
    | .ok txPrev => ((txPrev.vout[i.prevout.n.toNat]?).map fun o => o.nValue.toInt).getD 0

def txValueIn (W : World) (pos : Positions) (tx : CTransaction) : ℤ :=
  if tx.isCoinBase then 0 else (tx.vin.map (prevValue W pos)).sum

/-- The transactions of a block, each with the value it takes in; a transaction can
be spent from as soon as it is behind. -/
def flow (P : Params) (W : World) :
    Positions → List (CTransaction × CDiskTxPos) → List (CTransaction × ℤ)
  | _, [] => []
  | pos, (tx,p)::l =>
    (tx,txValueIn W pos tx)::flow P W (Function.update pos (tx.getHash P) (some p)) l

def blockFlow (P : Params) (W : World) (db : CTxDB) (pindex : CBlockIndex) (b : CBlock) :
    List (CTransaction × ℤ) :=
  flow P W (positions db.txView) (blockPositions pindex.data b false)

def mint (x : CTransaction × ℤ) : ℤ := valueSum x.1.vout-x.2

def fee (x : CTransaction × ℤ) : ℤ :=
  if x.1.isCoinBase || x.1.isCoinStake then 0 else x.2-valueSum x.1.vout

def increase (l : List (CTransaction × ℤ)) : ℤ := (l.map mint).sum

def fees (l : List (CTransaction × ℤ)) : ℤ := (l.map fee).sum

/-- What the transactions of the coinstake shape pay out beyond what they take in. -/
def stakeMint (l : List (CTransaction × ℤ)) : ℤ :=
  (l.map fun x => if x.1.isCoinStake then mint x else 0).sum

def coinbaseValue (l : List (CTransaction × ℤ)) : ℤ :=
  (l.map fun x => if x.1.isCoinBase then valueSum x.1.vout else 0).sum

def limit (tip : Tip) (b : CBlock) : ℤ :=
  if b.isProofOfStake then STATIC_POS_REWARD.toInt else (getProofOfWorkReward tip 0).toInt

/-- Every unit paid out is paid by the coinbase, by a fee or by a coinstake. -/
theorem increase_flow (P W) (pos : Positions) (l) : increase (flow P W pos l) =
      coinbaseValue (flow P W pos l)-fees (flow P W pos l)+stakeMint (flow P W pos l) := by
  induction l generalizing pos with
  | nil => rfl
  | cons x l ih =>
    have h := ih (update pos (x.1.getHash P) (some x.2))
    simp only [increase,coinbaseValue,fees,stakeMint,flow,map_cons,sum_cons] at h ⊢
    rw [h]
    by_cases hcb : x.1.isCoinBase
    · have hcs := isCoinStake_eq_false_of_isCoinBase hcb
      simp only [mint,fee,txValueIn,hcb,hcs,if_true,Bool.true_or,Bool.false_eq_true,if_false]
      ring
    · by_cases hcs : x.1.isCoinStake
      · simp only [mint,fee,hcb,hcs,if_true,Bool.or_true,Bool.false_eq_true,if_false]
        ring
      · simp only [mint,fee,hcb,hcs,Bool.or_self,Bool.false_eq_true,if_false]
        ring

theorem toInt_ofInt_le {n} (h : 0 ≤ n) : (Int64.ofInt n).toInt ≤ n := by
  by_cases hn : n < 2^63
  · rw [Int64.toInt_ofInt_of_le (by omega) hn]
  · have := Int64.toInt_lt (Int64.ofInt n)
    omega

variable {P : Params} {W : World} {tip : Tip} {pindex : CBlockIndex} {b : CBlock} {s : ChainState}

variable {db : CTxDB}

theorem inputValue_eq_prevValue {idx inputs i} (hf : Fetched W idx inputs)
    (hr : inRange inputs i.prevout) :
    inputValue inputs i = prevValue W (positions idx) i := by
  unfold inRange at hr
  split at hr
  · cases hr
  · rename_i r t hrt
    obtain ⟨h1,h2⟩ := hf _ _ _ hrt
    simp [inputValue,getOutputFor,hrt,prevValue,positions,h1,h2]

variable {tx : CTransaction} {p : CDiskTxPos} {t t' : Tally} {l : List (CTransaction × CDiskTxPos)}

theorem positions_connectTx (h : connectTx P W tip db pindex tx p t = .ok t') :
    positions (overlay t'.pool db.txView) =
      update (positions (overlay t.pool db.txView)) (tx.getHash P) (some p) := by
  have hc := connectTx_entry h
  rw [SpendIndex.connect,Option.map_eq_some_iff] at hc
  obtain ⟨i,hi,hi'⟩ := hc
  have hpos : positions i = positions (overlay t.pool db.txView) :=
    funext fun h' => SpendIndex.map_pos_spendAll _ hi h'
  rw [← hi']
  funext h'
  by_cases hh : h' = tx.getHash P
  · subst hh
    simp [positions,txEntry,SpendIndex.fresh]
  · have := congrFun hpos h'
    simpa [positions,txEntry,hh] using this

/-- The 64-bit values follow the exact ones; a payment never pays out more than it
takes in, and the reward of a coinstake is its exact surplus. -/
theorem connectTx_value (h : connectTx P W tip db pindex tx p t = .ok t') :
    let x := (tx,txValueIn W (positions (overlay t.pool db.txView)) tx)
    t'.nValueIn = t.nValueIn+Int64.ofInt x.2 ∧ t'.nValueOut = t.nValueOut+Int64.ofInt (valueSum tx.vout) ∧
      t'.nFees = t.nFees+Int64.ofInt (fee x) ∧ 0 ≤ fee x ∧
      (tx.isCoinStake → t'.nStakeReward.toInt = mint x) ∧
      (tx.isCoinStake = false → t'.nStakeReward = t.nStakeReward) := by
  intro x
  rcases connectTx_cases h with ⟨hcb,v,hv,-,h1,h2,h3,h4⟩ |
    ⟨hcb,inputs,pool,vin,vout,hin,hc,hvin,hvout,-,h1,h2,h3,h4⟩
  · have hcs := isCoinStake_eq_false_of_isCoinBase hcb
    have hx : x.2 = 0 := by simp [x,txValueIn,hcb]
    have hfee : fee x = 0 := by simp [fee,x,hcb]
    have hout := (getValueOut_toInt hv).1
    refine ⟨by simp [h2,hx],?_,by simp [h1,hfee],by simp [hfee],by simp [hcs],fun _ => h4⟩
    rw [h3,← hout,Int64.ofInt_toInt]
  · obtain ⟨hf,hr⟩ := fetchInputs_spec hcb hin
    obtain ⟨v,hv,hvr,hvs,hle⟩ := connectInputs_value hcb hc
    have hvv : v = vin := Option.some.inj (hv.symm.trans hvin)
    subst hvv
    obtain ⟨ho,hor,-⟩ := getValueOut_toInt hvout
    have hx : x.2 = v.toInt := by
      simp only [x,txValueIn,hcb,Bool.false_eq_true,if_false,hvs]
      congr 1
      exact map_congr_left fun i hi => (inputValue_eq_prevValue hf (hr i hi)).symm
    refine ⟨by simp [h2,hx],by simp [h3,← ho],?_,?_,?_,?_⟩
    · rw [h1]
      by_cases hcs : tx.isCoinStake
      · simp [hcs,fee,x]
      · have hfee : fee x = v.toInt-vout.toInt := by
          rw [ho]
          simp [fee,x,hcb,hcs,← hx]
        simp [hcs,hfee]
    · by_cases hcs : tx.isCoinStake
      · simp [hcs,fee,x]
      · obtain ⟨o,ho',hle'⟩ := hle (by simpa using hcs)
        have hoo : o = vout := Option.some.inj (ho'.symm.trans hvout)
        have hfee : fee x = v.toInt-vout.toInt := by
          rw [ho]
          simp [fee,x,hcb,hcs,← hx]
        rw [hfee,← hoo]
        omega
    · intro hcs
      rw [moneyRange_iff] at hvr hor
      rw [h4,if_pos hcs,Int64.toInt_sub,mint,hx,← ho]
      exact Int.bmod_eq_of_le (by omega) (by omega)
    · intro hcs
      rw [h4]
      simp [hcs]

theorem connectTxs_value (h : connectTxs P W tip db pindex l t = .ok t') :
    let f := flow P W (positions (overlay t.pool db.txView)) l
    t'.nValueOut-t'.nValueIn = t.nValueOut-t.nValueIn+Int64.ofInt (increase f) ∧
      t'.nFees = t.nFees+Int64.ofInt (fees f) ∧ 0 ≤ fees f := by
  induction l generalizing t with
  | nil =>
    rw [connectTxs,Except.ok.injEq] at h
    simp [flow,increase,fees,h]
  | cons x l ih =>
    obtain ⟨m,hm,h1⟩ := bind_eq_ok.mp h
    obtain ⟨hin,hout,hfee,hpos,-⟩ := connectTx_value hm
    obtain ⟨ih₁,ih₂,ih₃⟩ := ih h1
    rw [positions_connectTx hm] at ih₁ ih₂ ih₃
    simp only [flow,increase,fees,map_cons,sum_cons,Int64.ofInt_add] at ih₁ ih₂ ih₃ ⊢
    refine ⟨?_,?_,by omega⟩
    · rw [ih₁,hin,hout,mint,Int64.ofInt_sub]
      grind
    · rw [ih₂,hfee,Int64.add_assoc]

theorem connectTxs_stake (hl : ∀ x ∈ l, x.1.isCoinStake = false)
    (h : connectTxs P W tip db pindex l t = .ok t')
    (pos : Positions) : t'.nStakeReward = t.nStakeReward ∧ stakeMint (flow P W pos l) = 0 := by
  induction l generalizing t pos with
  | nil =>
    rw [connectTxs,Except.ok.injEq] at h
    simp [flow,stakeMint,h]
  | cons x l ih =>
    obtain ⟨m,hm,h1⟩ := bind_eq_ok.mp h
    obtain ⟨-,-,-,-,-,hkeep⟩ := connectTx_value hm
    have hx := hl x mem_cons_self
    obtain ⟨ih₁,ih₂⟩ := ih (fun y hy => hl y (mem_cons_of_mem _ hy)) h1
      (update pos (x.1.getHash P) (some x.2))
    refine ⟨ih₁.trans (hkeep hx),?_⟩
    simpa [flow,stakeMint,hx] using ih₂

/-- The reward counted for a single coinstake in second place is all that coinstakes mint:
nothing before it or after it sets the reward. -/
theorem connectTxs_coinstake {x y} (hx : x.1.isCoinStake = false) (hy : y.1.isCoinStake)
    (hl : ∀ z ∈ l, z.1.isCoinStake = false)
    (h : connectTxs P W tip db pindex (x::y::l) t = .ok t') :
    t'.nStakeReward.toInt = stakeMint
      (flow P W (positions (overlay t.pool db.txView)) (x::y::l)) := by
  obtain ⟨t₁,ht₁,h⟩ := bind_eq_ok.mp h
  obtain ⟨t₂,ht₂,h⟩ := bind_eq_ok.mp h
  obtain ⟨-,-,-,-,hset,-⟩ := connectTx_value ht₂
  have hrest := connectTxs_stake hl h
  rw [(hrest (positions (overlay t₂.pool db.txView))).1,hset hy]
  have hzero := (hrest (positions (overlay t₂.pool db.txView))).2
  rw [positions_connectTx ht₂,positions_connectTx ht₁] at hzero
  rw [positions_connectTx ht₁]
  simp only [stakeMint,flow,map_cons,sum_cons,hx,hy,if_true,Bool.false_eq_true,if_false, zero_add] at hzero ⊢
  rw [hzero,add_zero]

variable {s' : ChainState}

theorem getProofOfWorkReward_toInt_le (tip) {f} (hf : 0 ≤ f) :
    (getProofOfWorkReward tip (Int64.ofInt f)).toInt ≤ (getProofOfWorkReward tip 0).toInt+f := by
  have key : ∀ subsidy : CAmount, 0 ≤ subsidy.toInt → (subsidy+Int64.ofInt f).toInt ≤ subsidy.toInt+f := by
    intro subsidy hs
    have h := toInt_ofInt_le (n := subsidy.toInt+f) (by omega)
    rwa [Int64.ofInt_add,Int64.ofInt_toInt] at h
  unfold getProofOfWorkReward
  split_ifs
  · simpa using key (4000000*COIN) (by decide)
  · simpa using key STATIC_POW_REWARD (by decide)

theorem coinbaseValue_flow (P W) (pos : Positions) (l) : coinbaseValue (flow P W pos l) =
      ((l.map Prod.fst).map fun tx => if tx.isCoinBase then valueSum tx.vout else 0).sum := by
  induction l generalizing pos with
  | nil => rfl
  | cons x l ih =>
    have h := ih (update pos (x.1.getHash P) (some x.2))
    simp only [coinbaseValue,flow,map_cons,sum_cons] at h ⊢
    rw [h]

theorem coinbaseValue_blockFlow {cb txs} (hv : b.vtx = cb::txs) (hcb : cb.isCoinBase)
    (hrest : ∀ tx ∈ txs, tx.isCoinBase = false) (db : CTxDB) :
    coinbaseValue (blockFlow P W db pindex b) = valueSum cb.vout := by
  have hzero : (txs.map fun tx => if tx.isCoinBase then valueSum tx.vout else 0).sum = 0 := by
    apply sum_eq_zero
    intro y hy
    obtain ⟨tx,htx,rfl⟩ := mem_map.mp hy
    simp [hrest tx htx]
  rw [blockFlow,coinbaseValue_flow,blockPositions,map_fst_txPositions,hv,map_cons,sum_cons,hzero]
  simp [hcb]

theorem coinbaseValue_le (hw : b.isProofOfStake = false)
    (h : connectChecks P W tip s.txdb pindex b false = .ok t) :
    coinbaseValue (blockFlow P W s.txdb pindex b) ≤
      limit tip b+fees (blockFlow P W s.txdb pindex b) := by
  obtain ⟨hc,htxs,hrew⟩ := connectChecks_eq_ok.mp h
  obtain ⟨cb,txs,hv,hcb,hrest⟩ := (checked_of_checkBlock P W hc).layout
  obtain ⟨-,hfees,hpos⟩ := connectTxs_value htxs
  simp only [Tally.zero,overlay_empty] at hfees hpos
  simp only [checkReward,CBlock.isProofOfWork,hw,hv,andThen_eq_ok,Bool.not_false,if_true,
    head?_cons,Option.bind_some] at hrew
  obtain ⟨hrew,-⟩ := hrew
  split at hrew
  · cases hrew
  · rename_i v hval
    simp only [require_eq_ok,decide_eq_true_eq,Int64.le_iff_toInt_le] at hrew
    rw [hfees,Int64.zero_add] at hrew
    rw [coinbaseValue_blockFlow hv hcb hrest,← (getValueOut_toInt hval).1,limit,hw]
    exact hrew.trans (getProofOfWorkReward_toInt_le tip hpos)

/-- A proof-of-stake block: the coinbase is empty and the only coinstake is paid for
by the reward and the exact fees. -/
theorem stake_le (hs : b.isProofOfStake) (h : connectChecks P W tip s.txdb pindex b false = .ok t) :
    coinbaseValue (blockFlow P W s.txdb pindex b) = 0 ∧
      stakeMint (blockFlow P W s.txdb pindex b) ≤
        limit tip b+fees (blockFlow P W s.txdb pindex b) := by
  obtain ⟨hc,htxs,hrew⟩ := connectChecks_eq_ok.mp h
  have hchk := checked_of_checkBlock P W hc
  obtain ⟨cb,txs,hv,hcb,hrest⟩ := hchk.layout
  obtain ⟨⟨cb',txs',hv',hzero⟩,cb'',cs,txs'',hv'',hcs,hns⟩ := hchk.stake hs
  obtain ⟨rfl,rfl⟩ := cons.inj (hv.symm.trans hv')
  obtain ⟨rfl,rfl⟩ := cons.inj (hv.symm.trans hv'')
  refine ⟨(coinbaseValue_blockFlow hv hcb hrest s.txdb).trans hzero,?_⟩
  obtain ⟨-,hfees,hpos⟩ := connectTxs_value htxs
  simp only [Tally.zero,overlay_empty] at hfees hpos
  simp only [checkReward,CBlock.isProofOfWork,hs,andThen_eq_ok,Bool.not_true,Bool.false_eq_true,if_false,
    if_true,true_and,require_eq_ok,decide_eq_true_eq,Int64.le_iff_toInt_le,hfees] at hrew
  have hmint : t.nStakeReward.toInt = stakeMint (blockFlow P W s.txdb pindex b) := by
    have hfst := map_fst_txPositions pindex.data false (firstTxPos pindex.data b false) b.vtx
    rw [← blockPositions,hv,map_eq_cons_iff] at hfst
    obtain ⟨x,r,hpos₁,rfl,hr⟩ := hfst
    obtain ⟨y,l,rfl,rfl,hl⟩ := map_eq_cons_iff.mp hr
    rw [hpos₁] at htxs
    rw [blockFlow,hpos₁]
    have hmint := connectTxs_coinstake (isCoinStake_eq_false_of_isCoinBase hcb) hcs
      (fun z hz => hns _ (hl ▸ mem_map_of_mem hz)) htxs
    simpa [Tally.zero] using hmint
  rw [hmint] at hrew
  have hle := toInt_ofInt_le (n := STATIC_POS_REWARD.toInt+fees (blockFlow P W s.txdb pindex b))
    (by have : STATIC_POS_REWARD.toInt = 1000000 := by decide
        rw [this]; exact add_nonneg (by norm_num) hpos)
  rw [Int64.ofInt_add,Int64.ofInt_toInt] at hle
  rw [limit,if_pos hs]
  rw [Int64.zero_add] at hrew
  exact hrew.trans hle

theorem stakeMint_flow_eq_zero (hl : ∀ x ∈ l, x.1.isCoinStake = false) (pos : Positions) :
    stakeMint (flow P W pos l) = 0 := by
  induction l generalizing pos with
  | nil => rfl
  | cons x l ih =>
    have h := ih (fun y hy => hl y (mem_cons_of_mem _ hy)) (update pos (x.1.getHash P) (some x.2))
    simpa [flow,stakeMint,hl x mem_cons_self] using h

/-- A proof-of-stake block, for which CheckBlock looks at the place of every coinstake, or a
block without a transaction of that shape behind the first two. -/
def StakesInPlace (b : CBlock) : Prop :=
  b.isProofOfStake = true ∨ ∀ tx ∈ b.vtx.drop 2, tx.isCoinStake = false

theorem StakesInPlace.isCoinStake_eq_false (hb : StakesInPlace b) (hw : ¬b.isProofOfStake = true)
    {pow root sig} (hc : checkBlock P W b pow root sig = .ok ()) {tx} (htx : tx ∈ b.vtx) :
    tx.isCoinStake = false := by
  have hlate := hb.resolve_left hw
  obtain ⟨cb,txs,hv,hcb,-⟩ := (checked_of_checkBlock P W hc).layout
  rw [hv] at htx hlate
  cases txs with
  | nil =>
    rw [mem_singleton.mp htx]
    exact isCoinStake_eq_false_of_isCoinBase hcb
  | cons second txs =>
    rcases mem_cons.mp htx with rfl | htx
    · exact isCoinStake_eq_false_of_isCoinBase hcb
    · rcases mem_cons.mp htx with rfl | htx
      · simpa [CBlock.isProofOfStake,hv] using hw
      · exact hlate tx htx

/-- The reward bounds the increase where no transaction of the coinstake shape is out of place. -/
theorem increase_le_limit (h : connectChecks P W tip s.txdb pindex b false = .ok t)
    (hb : StakesInPlace b) :
    increase (blockFlow P W s.txdb pindex b) ≤ limit tip b := by
  have heq : increase (blockFlow P W s.txdb pindex b) = _ := increase_flow P W _ _
  by_cases hs : b.isProofOfStake = true
  · obtain ⟨h1,h2⟩ := stake_le hs h
    rw [heq,← blockFlow,h1]
    omega
  · have h1 := coinbaseValue_le (by simpa using hs) h
    have h2 : stakeMint (blockFlow P W s.txdb pindex b) = 0 := by
      apply stakeMint_flow_eq_zero
      intro x hx
      have hm := mem_map_of_mem (f := Prod.fst) hx
      rw [blockPositions,map_fst_txPositions] at hm
      exact hb.isCoinStake_eq_false hs (connectChecks_eq_ok.mp h).1 hm
    rw [heq,← blockFlow,h2]
    omega

/-- The supply grows by the increase of the block, and that is at most the reward if no
transaction of the coinstake shape is out of place. -/
theorem supply_bounded_of_stakesInPlace (h : connectBlock P W tip pindex b false s = (.ok (),s')) :
    s'.nMoneySupply pindex.getBlockHash =
        (pindex.pprev.map fun p => s.nMoneySupply p.getBlockHash).getD 0+
          Int64.ofInt (increase (blockFlow P W s.txdb pindex b)) ∧
      (StakesInPlace b → increase (blockFlow P W s.txdb pindex b) ≤ limit tip b) := by
  obtain ⟨t,ht,-,hsupply,-⟩ := connectBlock_ok h
  obtain ⟨hsum,-⟩ := connectTxs_value (connectChecks_eq_ok.mp ht).2.1
  refine ⟨?_,increase_le_limit ht⟩
  simp only [Tally.zero,overlay_empty] at hsum
  rw [← blockFlow] at hsum
  rw [hsupply,update_self]
  grind

theorem supply_bounded_next : StakesInPlace Sample.next.data.block ∧
    increase (blockFlow Sample.params (Sample.world 300 [Sample.fundBlock,Sample.next.data])
      Sample.state.txdb
      Sample.next Sample.next.data.block) ≤ limit Sample.tip Sample.next.data.block := by
  have hb : StakesInPlace Sample.next.data.block := .inr (by decide +kernel)
  exact ⟨hb,(supply_bounded_of_stakesInPlace Sample.connectBlock_next).2 hb⟩

/-- A transaction of the coinstake shape: an empty first output, and a second one that
pays eighty million coins for an input of ten. -/
def forgedStake : CTransaction :=
  Sample.payment 150 [⟨Sample.fund.getHash Sample.params,1⟩] [.setEmpty,⟨80000000*COIN,Sample.opTrue⟩]

def forgedBlock : CBlock :=
  Sample.block Sample.genesis.hashBlock 200 [Sample.coinbase 1 200 COIN,Sample.pay₁,forgedStake]

def forgedIndex : CBlockIndex := ⟨Sample.stored 1000 forgedBlock,[Sample.genesis]⟩

def forgedWorld : World := Sample.world 300 [Sample.fundBlock,forgedIndex.data]

theorem increase_gt_limit_forged :
    checkBlock Sample.params forgedWorld forgedBlock true true true = .ok () ∧
      (connectBlock Sample.params forgedWorld Sample.tip forgedIndex forgedBlock false
        Sample.state).1 = .ok () ∧
      forgedBlock.isProofOfStake = false ∧
      limit Sample.tip forgedBlock <
        increase (blockFlow Sample.params forgedWorld Sample.state.txdb forgedIndex
          forgedBlock) := by
  decide +kernel

/-- The transactions as a mere check goes through them: none has a position of its own. -/
def checkFlow (P : Params) (W : World) (db : CTxDB) (pindex : CBlockIndex) (b : CBlock) :
    List (CTransaction × ℤ) :=
  flow P W (positions db.txView) (blockPositions pindex.data b true)

structure Recorded (P : Params) (W : World) (pindex : CBlockIndex) (b : CBlock) (s : ChainState) :
    Prop where
  idle : s.txdb.activeBatch = none
  mint : s.nMint pindex.getBlockHash =
    Int64.ofInt (increase (checkFlow P W s.txdb pindex b)+fees (checkFlow P W s.txdb pindex b))
  supply : s.nMoneySupply pindex.getBlockHash =
    (pindex.pprev.map fun p => s.nMoneySupply p.getBlockHash).getD 0+
      Int64.ofInt (increase (checkFlow P W s.txdb pindex b))
  record : s.txdb.pdb (.blockindex pindex.getBlockHash) = some (s.diskIndex pindex)

theorem tally_checkFlow (h : connectChecks P W tip s.txdb pindex b true = .ok t) (supply) :
    t.nValueOut-t.nValueIn+t.nFees =
        Int64.ofInt (increase (checkFlow P W s.txdb pindex b)+fees
          (checkFlow P W s.txdb pindex b)) ∧
      supply+t.nValueOut-t.nValueIn =
        supply+Int64.ofInt (increase (checkFlow P W s.txdb pindex b)) := by
  obtain ⟨hsum,hfees,-⟩ := connectTxs_value (connectChecks_eq_ok.mp h).2.1
  simp only [Tally.zero,overlay_empty] at hsum hfees
  rw [← checkFlow] at hsum hfees
  rw [Int64.ofInt_add]
  grind

/-- ConnectBlock as a mere check leaves everything as it was if and only if a check refuses
the block or all that it writes is there already. -/
theorem justCheck_unchanged_iff : (connectBlock P W tip pindex b true s).2 = s ↔
      (∃ e, connectChecks P W tip s.txdb pindex b true = .error e) ∨ Recorded P W pindex b s := by
  unfold connectBlock
  cases hchecks : connectChecks P W tip s.txdb pindex b true with
  | error e => simp
  | ok t =>
    obtain ⟨hmint,hsupply⟩ := tally_checkFlow hchecks
      ((pindex.pprev.map fun p => s.nMoneySupply p.getBlockHash).getD 0)
    simp only [hmint,hsupply,if_true,reduceCtorEq,exists_false,false_or]
    constructor
    · intro h
      have hm := congrFun (congrArg ChainState.nMint h) pindex.getBlockHash
      have hs := congrFun (congrArg ChainState.nMoneySupply h) pindex.getBlockHash
      have hdb := congrArg ChainState.txdb h
      simp only [update_self] at hm hs
      rw [hm,hs,update_eq_self,update_eq_self] at hdb
      obtain ⟨hidle,hrecord⟩ := (TxDB.put_eq_self_iff _ _ _).mp hdb
      exact ⟨hidle,hm.symm,hs.symm,hrecord⟩
    · intro h
      rw [← h.mint,← h.supply,update_eq_self,update_eq_self]
      have hdb : s.txdb.writeBlockIndex (s.diskIndex pindex) = s.txdb :=
        (TxDB.put_eq_self_iff _ _ _).mpr ⟨h.idle,h.record⟩
      rw [hdb]

def checkedIndex : CBlockIndex :=
  ⟨Sample.stored 1000 (Sample.block Sample.genesis.hashBlock 200 [Sample.coinbase 1 200 COIN,Sample.pay₁]),
    [Sample.genesis]⟩

def idleState : ChainState := { Sample.state with txdb := Sample.state.txdb.txnAbort }

/-- A good block that is only checked leaves its amounts in the index entry and a record in the
database. -/
theorem justCheck_writes :
    let r :=
  connectBlock Sample.params (Sample.world 300 [Sample.fundBlock]) Sample.tip checkedIndex
      checkedIndex.data.block true idleState
    r.1 = .ok () ∧ idleState.nMint checkedIndex.getBlockHash = 0 ∧ r.2.nMint checkedIndex.getBlockHash = COIN ∧
      idleState.txdb.pdb (.blockindex checkedIndex.getBlockHash) = none ∧
      (r.2.txdb.pdb (.blockindex checkedIndex.getBlockHash)).isSome = true := by
  decide +kernel

end MoneySupply
end DarkSilk
