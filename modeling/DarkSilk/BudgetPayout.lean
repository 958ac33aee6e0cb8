import DarkSilk.BlockPayee
import DarkSilk.BudgetVotes

/-! What a budget pays in total: the payments of a finalized budget over its blocks, and the
proposals that the next budget is made of. -/
namespace DarkSilk

open List CBudgetManager CFinalizedBudget

variable {P : Params} {E : BudgetEnv} {b : CFinalizedBudgetBroadcast} {fCheckCollateral : Bool}

def CFinalizedBudgetBroadcast.exactPayout (b : CFinalizedBudgetBroadcast) : ℤ :=
  (b.vecBudgetPayments.map fun p => p.nAmount.toInt).sum

/-- The budget as the validator of blocks reads it, with some votes. -/
def CFinalizedBudgetBroadcast.toFinalizedBudget (b : CFinalizedBudgetBroadcast) (nVoteCount : ℕ) :
    CFinalizedBudget :=
  ⟨b.nBlockStart,b.vecBudgetPayments.map fun p => (p.payee,p.nAmount),nVoteCount⟩

def CFinalizedBudget.paid (b : CFinalizedBudget) (nBlockHeight : ℤ) : ℤ :=
  ((b.getPayeeAndAmount nBlockHeight).map fun x => x.2.toInt).getD 0

/-- All payments are positive, their sum is at most the total budget, and so is the sum of
what any blocks of different heights pay whose transactions are accepted. -/
structure WithinBudget (E : BudgetEnv) (b : CFinalizedBudgetBroadcast) : Prop where
  positive : ∀ p ∈ b.vecBudgetPayments, 0 < p.nAmount
  payout : b.exactPayout ≤ (getTotalBudget E b.nBlockStart).toInt
  blocks : ∀ (nVoteCount : ℕ) (heights : Finset ℤ) (txNew : ℤ → CTransaction),
    (∀ h ∈ heights, (b.toFinalizedBudget nVoteCount).isTransactionValid (txNew h) h = true) →
      ∑ h ∈ heights, (b.toFinalizedBudget nVoteCount).paid h ≤ (getTotalBudget E b.nBlockStart).toInt

theorem foldl_payout (l : List CTxBudgetPayment) (ret) :
    l.foldl (fun ret p => ret+p.nAmount) ret =
      ret+Int64.ofInt (l.map fun p => p.nAmount.toInt).sum := by
  induction l generalizing ret with
  | nil => simp
  | cons p l ih =>
    rw [foldl_cons,ih,map_cons,sum_cons,Int64.ofInt_add,Int64.ofInt_toInt,Int64.add_assoc]

theorem getTotalPayout_eq (b : CFinalizedBudgetBroadcast) :
    b.getTotalPayout = Int64.ofInt b.exactPayout := by
  rw [CFinalizedBudgetBroadcast.getTotalPayout,foldl_payout,Int64.zero_add]
  rfl

theorem exactPayout_nonneg (hpos : ∀ p ∈ b.vecBudgetPayments, 0 < p.nAmount) :
    0 ≤ b.exactPayout := by
  refine sum_nonneg fun n hn => ?_
  obtain ⟨p,hp,rfl⟩ := mem_map.mp hn
  exact (Int64.lt_iff_toInt_lt.mp (hpos p hp)).le

theorem getTotalPayout_le_of_isValid (h : b.isValid P E fCheckCollateral = .ok ()) :
    b.getTotalPayout ≤ getTotalBudget E b.nBlockStart := by
  unfold CFinalizedBudgetBroadcast.isValid at h
  simp only [andThen_eq_ok,require_eq_ok,decide_eq_true_eq] at h
  exact h.2.2.2.2.2.2.1

theorem paid_eq (b : CFinalizedBudgetBroadcast) (n i : ℕ) :
    (b.toFinalizedBudget n).paid (b.nBlockStart+i) =
    ((b.vecBudgetPayments.map fun p => p.nAmount.toInt)[i]?).getD 0 := by
  unfold paid getPayeeAndAmount CFinalizedBudgetBroadcast.toFinalizedBudget
  dsimp only
  have hindex : (b.nBlockStart+(i : ℤ)-b.nBlockStart).toNat = i := by omega
  rw [if_neg (by omega),hindex,getElem?_map,getElem?_map,Option.map_map]
  rfl

theorem sum_paid (b : CFinalizedBudgetBroadcast) (n) :
    ∑ i ∈ Finset.range b.vecBudgetPayments.length, (b.toFinalizedBudget n).paid (b.nBlockStart+i) =
      b.exactPayout := by
  have hlen : b.vecBudgetPayments.length = (b.vecBudgetPayments.map fun p => p.nAmount.toInt).length :=
    (length_map _).symm
  rw [hlen,Finset.sum_range,CFinalizedBudgetBroadcast.exactPayout,← Fin.sum_univ_getElem]
  refine Finset.sum_congr rfl fun i _ => ?_
  rw [paid_eq,getElem?_eq_getElem i.isLt]
  rfl

theorem exists_of_isTransactionValid {n txNew h}
    (hvalid : (b.toFinalizedBudget n).isTransactionValid txNew h) :
    ∃ i ∈ Finset.range b.vecBudgetPayments.length, b.nBlockStart+(i : ℤ) = h := by
  obtain ⟨payee,nAmount,hpay,-⟩ := isTransactionValid_iff.mp hvalid
  unfold getPayeeAndAmount at hpay
  split_ifs at hpay with hneg
  obtain ⟨hlt,-⟩ := List.getElem?_eq_some_iff.mp hpay
  simp only [CFinalizedBudgetBroadcast.toFinalizedBudget,length_map] at hlt hneg
  exact ⟨(h-b.nBlockStart).toNat,Finset.mem_range.mpr hlt,by omega⟩

theorem paid_nonneg (hpos : ∀ p ∈ b.vecBudgetPayments, 0 < p.nAmount) (n i : ℕ) :
    0 ≤ (b.toFinalizedBudget n).paid (b.nBlockStart+i) := by
  rw [paid_eq,getElem?_map]
  cases hp : b.vecBudgetPayments[i]? with
  | none => exact le_rfl
  | some p => exact (Int64.lt_iff_toInt_lt.mp (hpos p (mem_of_getElem? hp))).le

theorem sum_paid_le (hpos : ∀ p ∈ b.vecBudgetPayments, 0 < p.nAmount) {n : ℕ} {heights : Finset ℤ}
    {txNew : ℤ → CTransaction}
    (hvalid : ∀ h ∈ heights, (b.toFinalizedBudget n).isTransactionValid (txNew h) h) :
    ∑ h ∈ heights, (b.toFinalizedBudget n).paid h ≤ b.exactPayout := by
  have hinj : Function.Injective fun i : ℕ => b.nBlockStart+(i : ℤ) := fun i j hij => by
    simpa using hij
  have hsub : heights ⊆ (Finset.range b.vecBudgetPayments.length).image fun i : ℕ => b.nBlockStart+(i : ℤ) :=
    fun h hh => Finset.mem_image.mpr (exists_of_isTransactionValid (hvalid h hh))
  calc ∑ h ∈ heights, (b.toFinalizedBudget n).paid h
      ≤ ∑ h ∈ (Finset.range b.vecBudgetPayments.length).image fun i : ℕ => b.nBlockStart+(i : ℤ),
          (b.toFinalizedBudget n).paid h := by
        refine Finset.sum_le_sum_of_subset_of_nonneg hsub fun h hh _ => ?_
        obtain ⟨i,-,rfl⟩ := Finset.mem_image.mp hh
        exact paid_nonneg hpos n i
    _ = b.exactPayout := by
        rw [Finset.sum_image fun i _ j _ hij => hinj hij,sum_paid]

/-- A budget that is accepted, with or without the check of its collateral, stays within the total
if and only if its payments are positive and their sum is in the range of amounts. -/
theorem withinBudget_iff (h : b.isValid P E fCheckCollateral = .ok ()) :
    WithinBudget E b ↔ (∀ p ∈ b.vecBudgetPayments, 0 < p.nAmount) ∧ b.exactPayout < 2^63 := by
  have hle := Int64.le_iff_toInt_le.mp (getTotalPayout_le_of_isValid h)
  rw [getTotalPayout_eq] at hle
  constructor
  · intro hb
    exact ⟨hb.positive,hb.payout.trans_lt (Int64.toInt_lt _)⟩
  · rintro ⟨hpos,hlt⟩
    have hexact : (Int64.ofInt b.exactPayout).toInt = b.exactPayout :=
      Int64.toInt_ofInt_of_le (by have := exactPayout_nonneg hpos; omega) hlt
    rw [hexact] at hle
    exact ⟨hpos,hle,fun n heights txNew hvalid => (sum_paid_le hpos hvalid).trans hle⟩

namespace Sample

def payoutBase : BudgetEnv where
  fLiteMode := false
  isBlockchainSynced := true
  isSynced := true
  nTime := 1450000000
  find := fun _ => none
  verifyMessage := fun _ _ _ => false
  countEnabled := 0
  nBestHeight := none
  mainHeight := fun _ => none
  getTransaction := fun _ => none
  getIXConfirmations := fun _ => 0

def payoutEnv : BudgetEnv := payoutBase.on params blockFiles .empty onA₁ .empty 10

def payoutBudget (amounts : List CAmount) : CFinalizedBudgetBroadcast :=
  ⟨[0x62],41091,amounts.map fun nAmount => ⟨1,[0x51],nAmount⟩,7⟩

def payoutTx (nAmount : CAmount) : CTransaction :=
  ⟨1,1000,[⟨⟨0,0xFFFFFFFF⟩,[0],0xFFFFFFFF⟩],[⟨nAmount,[0x51]⟩],0⟩

end Sample

open Sample

theorem withinBudget_sample : (payoutBudget [4000,6000]).isValid params payoutEnv false = .ok () ∧
      WithinBudget payoutEnv (payoutBudget [4000,6000]) := by
  have hvalid : (payoutBudget [4000,6000]).isValid params payoutEnv false = .ok () := by decide +kernel
  exact ⟨hvalid,(withinBudget_iff hvalid).mpr (by decide +kernel)⟩

/-- Two budgets that are accepted without a look at their collateral and pay more than the total:
one takes it back with a negative payment that no block has to make, and in the other the sum of
positive payments wraps. -/
theorem budget_overpays : (getTotalBudget payoutEnv 41091 = 10000 ∧
      (payoutBudget [1000000*COIN,-1000000*COIN]).isValid params payoutEnv false = .ok () ∧
      ((payoutBudget [1000000*COIN,-1000000*COIN]).toFinalizedBudget 1).isTransactionValid
        (payoutTx (1000000*COIN)) 41091 = true) ∧
    (payoutBudget [2^62,2^62]).isValid params payoutEnv false = .ok () ∧
      (payoutBudget [2^62,2^62]).exactPayout = 2^63 := by
  decide +kernel

abbrev ProposalEntry := UInt256 × CBudgetProposal

variable (P) (E)

/-- IsValid of a vote without the check of the signature, as CleanAndRemove notes it in the
vote before the votes are counted. -/
def CBudgetVote.counts (v : CBudgetVote) : Bool :=
  !(v.nTime.toInt > E.nTime+60*60) && (E.find v.vin.prevout).isSome

def CBudgetProposal.countVotes (nVote : Int32) (p : CBudgetProposal) : ℤ :=
  (p.mapVotes.toList.filter fun e => e.2.nVote = nVote && e.2.counts E).length

def CBudgetProposal.netVotes (p : CBudgetProposal) : ℤ :=
  p.countVotes E VOTE_YES-p.countVotes E VOTE_NO

/-- A day old, or twenty minutes where it is for testing. -/
def CBudgetProposal.isEstablished (p : CBudgetProposal) : Bool :=
  if P.testNet then p.nTime < E.nTime-60*20 else p.nTime < E.nTime-60*60*24

def nextCycleStart (nHeight : ℤ) : ℤ :=
  nHeight-nHeight.tmod (getBudgetPaymentCycleBlocks P)+getBudgetPaymentCycleBlocks P

def CBudgetProposal.inRange (nBlockStart : ℤ) (p : CBudgetProposal) : Bool :=
  p.fValid && p.nBlockStart ≤ nBlockStart && p.nBlockEnd ≥ nBlockStart+100 &&
    p.netVotes E > E.countEnabled.tdiv 10 && p.isEstablished P E

/-- sortProposalsByVotes: more votes first, and then the higher hash of the fee transaction. -/
def sortProposalsByVotes (left right : ProposalEntry × ℤ) : Bool :=
  if left.2 ≠ right.2 then left.2 > right.2 else left.1.2.nFeeTXHash > right.1.2.nFeeTXHash

structure ProposalSort where
  sort : List (ProposalEntry × ℤ) → List (ProposalEntry × ℤ)
  perm : ∀ v, (sort v).Perm v
  sorted : ∀ v, (sort v).Pairwise fun x y => sortProposalsByVotes y x = false

def allot (nBlockStart : ℤ) (nTotalBudget : CAmount) :
    CAmount → List (ProposalEntry × ℤ) → List (ProposalEntry × CAmount)
  | _, [] => []
  | nBudgetAllocated, (e,_)::l =>
    if e.2.inRange P E nBlockStart && e.2.nAmount+nBudgetAllocated ≤ nTotalBudget
    then (e,e.2.nAmount)::allot nBlockStart nTotalBudget (nBudgetAllocated+e.2.nAmount) l
    else allot nBlockStart nTotalBudget nBudgetAllocated l

def CBudgetManager.getBudget (S : ProposalSort) (mapProposals : HashMap CBudgetProposal) :
    List (ProposalEntry × CAmount) :=
  match E.nBestHeight with
  | none => []
  | some nHeight => allot P E (nextCycleStart P nHeight) (getTotalBudget E (nextCycleStart P nHeight)) 0
      (S.sort (mapProposals.toList.map fun e => (e,e.2.netVotes E)))

variable {P} {E} {E' : BudgetEnv} {m m' : HashMap CBudgetProposal} {S S' : ProposalSort} {nBlockStart : ℤ}

def allotAll (nTotalBudget : CAmount) :
    CAmount → List ProposalEntry → List (ProposalEntry × CAmount)
  | _, [] => []
  | nBudgetAllocated, e::l =>
    if e.2.nAmount+nBudgetAllocated ≤ nTotalBudget
    then (e,e.2.nAmount)::allotAll nTotalBudget (nBudgetAllocated+e.2.nAmount) l
    else allotAll nTotalBudget nBudgetAllocated l

def ranked (P : Params) (E : BudgetEnv) (S : ProposalSort) (nBlockStart : ℤ)
    (m : HashMap CBudgetProposal) :
    List ProposalEntry :=
  ((S.sort (m.toList.map fun e => (e,e.2.netVotes E))).map Prod.fst).filter fun e => e.2.inRange P E nBlockStart

theorem allot_eq (nTotalBudget nBudgetAllocated l) :
    allot P E nBlockStart nTotalBudget nBudgetAllocated l =
      allotAll nTotalBudget nBudgetAllocated ((l.map Prod.fst).filter fun e =>
        e.2.inRange P E nBlockStart) := by
  induction l generalizing nBudgetAllocated with
  | nil => rfl
  | cons x l ih =>
    obtain ⟨e,votes⟩ := x
    rw [allot,map_cons,filter_cons]
    cases e.2.inRange P E nBlockStart
    case false => simp [ih]
    case true =>
      simp only [Bool.true_and,decide_eq_true_eq,if_true,allotAll]
      split_ifs <;> rw [ih]

def BudgetEnv.nextStart (P : Params) (E : BudgetEnv) : ℤ :=
  (E.nBestHeight.map (nextCycleStart P)).getD 0

theorem getBudget_eq (P E S m) : getBudget P E S m = if E.nBestHeight.isNone then [] else
      allotAll (getTotalBudget E (E.nextStart P)) 0 (ranked P E S (E.nextStart P) m) := by
  unfold getBudget BudgetEnv.nextStart
  cases E.nBestHeight with
  | none => rfl
  | some nHeight => exact allot_eq _ _ _

/-- A sum below the upper bound does not wrap, or it wraps upwards. -/
theorem toInt_add_ge {a b : CAmount} (h : a.toInt+b.toInt < 2^63) :
    a.toInt+b.toInt ≤ (a+b).toInt := by
  rw [Int64.toInt_add,Int.bmod_def]
  split_ifs <;> omega

/-- The exact sum stays below the running one, and that below the total. -/
theorem sum_allotAll_le (nTotalBudget l)
    (hfits : ∀ e ∈ l, e.2.nAmount.toInt+nTotalBudget.toInt < 2^63)
    (n nBudgetAllocated) (hn : n ≤ nBudgetAllocated.toInt)
    (hle : nBudgetAllocated.toInt ≤ nTotalBudget.toInt) :
    n+((allotAll nTotalBudget nBudgetAllocated l).map fun x => x.2.toInt).sum ≤
      nTotalBudget.toInt := by
  induction l generalizing n nBudgetAllocated with
  | nil => simpa [allotAll] using hn.trans hle
  | cons e l ih =>
    have hl : ∀ e' ∈ l, e'.2.nAmount.toInt+nTotalBudget.toInt < 2^63 :=
      fun e' he' => hfits e' (mem_cons_of_mem _ he')
    rw [allotAll]
    split_ifs with hfit
    · have hwrap := toInt_add_ge (a := nBudgetAllocated) (b := e.2.nAmount) (by
        have := hfits e mem_cons_self
        omega)
      rw [map_cons,sum_cons,← Int.add_assoc]
      refine ih hl _ _ ((Int.add_le_add_right hn _).trans hwrap) ?_
      rw [Int64.add_comm]
      exact Int64.le_iff_toInt_le.mp hfit
    · exact ih hl n nBudgetAllocated hn hle

/-- Two nodes have the same best chain, as many stormnodes, and the same valid proposals with
the same votes. -/
structure SameView (E E' : BudgetEnv) (m m' : HashMap CBudgetProposal) : Prop where
  nBestHeight : E.nBestHeight = E'.nBestHeight
  countEnabled : E.countEnabled = E'.countEnabled
  valid : ∀ (hash : UInt256) (p : CBudgetProposal), p.fValid = true → (m[hash]? = some p ↔ m'[hash]? = some p)

structure SameJudgement (P : Params) (E E' : BudgetEnv) (m : HashMap CBudgetProposal) : Prop where
  votes : ∀ (hash : UInt256) (p : CBudgetProposal), m[hash]? = some p → p.fValid = true →
    ∀ (h : UInt256) (v : CBudgetVote), p.mapVotes[h]? = some v → v.counts E = v.counts E'
  established : ∀ (hash : UInt256) (p : CBudgetProposal), m[hash]? = some p → p.fValid = true →
    p.isEstablished P E = p.isEstablished P E'

def NoTies (P : Params) (E : BudgetEnv) (m : HashMap CBudgetProposal) : Prop :=
  ∀ (hash hash' : UInt256) (p p' : CBudgetProposal), m[hash]? = some p → m[hash']? = some p' →
    p.inRange P E (E.nextStart P) = true → p'.inRange P E (E.nextStart P) = true → p.netVotes E = p'.netVotes E →
    p.nFeeTXHash = p'.nFeeTXHash → hash = hash'

def AmountsFit (P : Params) (E : BudgetEnv) (m : HashMap CBudgetProposal) : Prop :=
  ∀ (hash : UInt256) (p : CBudgetProposal), m[hash]? = some p → p.inRange P E (E.nextStart P) = true →
    p.nAmount.toInt+(getTotalBudget E (E.nextStart P)).toInt < 2^63

theorem ranked_perm :
    (ranked P E S nBlockStart m).Perm (m.toList.filter fun e => e.2.inRange P E nBlockStart) := by
  refine Perm.filter _ ?_
  have h := (S.perm (m.toList.map fun e => (e,e.2.netVotes E))).map Prod.fst
  rwa [map_map,show (Prod.fst ∘ fun e : ProposalEntry => (e,e.2.netVotes E)) = id from rfl,map_id] at h

variable {e : ProposalEntry} {hash : UInt256} {p : CBudgetProposal}

theorem mem_ranked :
    e ∈ ranked P E S nBlockStart m ↔ m[e.1]? = some e.2 ∧ e.2.inRange P E nBlockStart := by
  rw [ranked_perm.mem_iff,mem_filter,Std.ExtTreeMap.mem_toList_iff_getElem?_eq_some]

theorem ranked_nodup : (ranked P E S nBlockStart m).Nodup :=
  ranked_perm.nodup_iff.mpr ((m.distinct_keys_toList.imp fun hab he => hab (by simp [he])).filter _)

def notAfter (E : BudgetEnv) (e e' : ProposalEntry) : Prop :=
  sortProposalsByVotes (e',e'.2.netVotes E) (e,e.2.netVotes E) = false

theorem ranked_pairwise : (ranked P E S nBlockStart m).Pairwise (notAfter E) := by
  refine Pairwise.filter _ ?_
  rw [pairwise_map]
  refine (S.sorted _).imp_of_mem fun {x y} hx hy h => ?_
  obtain ⟨e,-,rfl⟩ := mem_map.mp ((S.perm _).mem_iff.mp hx)
  obtain ⟨e',-,rfl⟩ := mem_map.mp ((S.perm _).mem_iff.mp hy)
  exact h

theorem tie_of_notAfter {e' : ProposalEntry} (h : notAfter E e e') (h' : notAfter E e' e) :
    e.2.netVotes E = e'.2.netVotes E ∧ e.2.nFeeTXHash = e'.2.nFeeTXHash := by
  unfold notAfter sortProposalsByVotes at h h'
  by_cases hv : e.2.netVotes E = e'.2.netVotes E
  · simp only [hv,ne_eq,not_true,if_false,decide_eq_false_iff_not,gt_iff_lt] at h h'
    exact ⟨hv,BitVec.le_antisymm (BitVec.not_lt.mp h') (BitVec.not_lt.mp h)⟩
  · simp only [ne_eq,hv,Ne.symm hv,not_false_eq_true,if_true,decide_eq_false_iff_not,gt_iff_lt] at h h'
    exact absurd (le_antisymm (not_lt.mp h') (not_lt.mp h)) hv

theorem SameJudgement.netVotes_eq (h : SameJudgement P E E' m)
    (hp : m[hash]? = some p) (hvalid : p.fValid) : p.netVotes E = p.netVotes E' := by
  have hcount : ∀ nVote, p.countVotes E nVote = p.countVotes E' nVote := by
    intro nVote
    unfold CBudgetProposal.countVotes
    congr 2
    refine filter_congr fun e he => ?_
    rw [h.votes hash p hp hvalid e.1 e.2 (Std.ExtTreeMap.mem_toList_iff_getElem?_eq_some.mp he)]
  rw [CBudgetProposal.netVotes,CBudgetProposal.netVotes,hcount,hcount]

theorem SameJudgement.inRange_eq (h : SameJudgement P E E' m) (hview : SameView E E' m m')
    (hp : m[hash]? = some p) (hvalid : p.fValid) :
    p.inRange P E nBlockStart = p.inRange P E' nBlockStart := by
  unfold CBudgetProposal.inRange
  rw [h.netVotes_eq hp hvalid,h.established hash p hp hvalid,hview.countEnabled]

theorem fValid_of_inRange (h : p.inRange P E nBlockStart) : p.fValid := by
  simp only [CBudgetProposal.inRange,Bool.and_eq_true] at h
  exact h.1.1.1.1

theorem mem_ranked_iff (hview : SameView E E' m m') (h : SameJudgement P E E' m)
    (e : ProposalEntry) :
    e ∈ ranked P E S nBlockStart m ↔ e ∈ ranked P E' S' nBlockStart m' := by
  rw [mem_ranked,mem_ranked]
  constructor
  · rintro ⟨hp,hrange⟩
    have hvalid := fValid_of_inRange hrange
    exact ⟨(hview.valid _ _ hvalid).mp hp,(h.inRange_eq hview hp hvalid) ▸ hrange⟩
  · rintro ⟨hp,hrange⟩
    have hvalid := fValid_of_inRange hrange
    have hp := (hview.valid _ _ hvalid).mpr hp
    exact ⟨hp,(h.inRange_eq hview hp hvalid).symm ▸ hrange⟩

theorem ranked_eq (hview : SameView E E' m m') (h : SameJudgement P E E' m) (hties : NoTies P E m) :
    ranked P E S (E.nextStart P) m = ranked P E' S' (E.nextStart P) m' := by
  have hperm : (ranked P E S (E.nextStart P) m).Perm (ranked P E' S' (E.nextStart P) m') :=
    (perm_ext_iff_of_nodup ranked_nodup ranked_nodup).mpr (mem_ranked_iff hview h)
  have hpairwise : (ranked P E' S' (E.nextStart P) m').Pairwise (notAfter E) := by
    refine ranked_pairwise.imp_of_mem fun {e e'} he he' hafter => ?_
    obtain ⟨hp,hrange⟩ := mem_ranked.mp (hperm.mem_iff.mpr he)
    obtain ⟨hp',hrange'⟩ := mem_ranked.mp (hperm.mem_iff.mpr he')
    unfold notAfter at hafter ⊢
    rwa [h.netVotes_eq hp (fValid_of_inRange hrange),h.netVotes_eq hp' (fValid_of_inRange hrange')]
  refine Perm.eq_of_pairwise (fun e e' he he' hee hee' => ?_) ranked_pairwise hpairwise hperm
  obtain ⟨hp,hrange⟩ := mem_ranked.mp he
  obtain ⟨hp',hrange'⟩ := mem_ranked.mp (hperm.mem_iff.mpr he')
  obtain ⟨hvotes,hfee⟩ := tie_of_notAfter hee hee'
  have hkey := hties e.1 e'.1 e.2 e'.2 hp hp' hrange hrange' hvotes hfee
  rw [hkey,hp',Option.some_inj] at hp
  exact Prod.ext hkey hp.symm

theorem nextStart_eq (hview : SameView E E' m m') : E.nextStart P = E'.nextStart P := by
  rw [BudgetEnv.nextStart,BudgetEnv.nextStart,hview.nBestHeight]

theorem getTotalBudget_eq (hview : SameView E E' m m') (nHeight) :
    getTotalBudget E nHeight = getTotalBudget E' nHeight := by
  rw [getTotalBudget,getTotalBudget,hview.nBestHeight]

theorem getTotalBudget_nonneg (E nHeight) : 0 ≤ (getTotalBudget E nHeight).toInt := by
  unfold getTotalBudget
  split_ifs <;> decide

/-- Whatever flags the proposals have: two nodes with the same view, which judge the votes and the
ages of the proposals alike, make the same budget with any sorts if there are no ties, and it is
within the total if no amount wraps. -/
theorem getBudget_of_sameView (hview : SameView E E' m m') (hjudge : SameJudgement P E E' m)
    (hties : NoTies P E m) (hfit : AmountsFit P E m) (S S' : ProposalSort) :
    getBudget P E S m = getBudget P E' S' m' ∧ ((getBudget P E S m).map fun x => x.2.toInt).sum ≤
        (getTotalBudget E (E.nextStart P)).toInt := by
  constructor
  · rw [getBudget_eq,getBudget_eq,← nextStart_eq hview,← getTotalBudget_eq hview,← hview.nBestHeight,
      ranked_eq hview hjudge hties]
  · have htotal := getTotalBudget_nonneg E (E.nextStart P)
    rw [getBudget_eq]
    split_ifs with hnone
    · simpa using htotal
    · have hsum := sum_allotAll_le (getTotalBudget E (E.nextStart P)) (ranked P E S (E.nextStart P) m)
        (fun e he => hfit e.1 e.2 (mem_ranked.mp he).1 (mem_ranked.mp he).2) 0 0 le_rfl htotal
      rwa [Int.zero_add] at hsum

theorem getBudget_eq_nil
    (h : ∀ (hash : UInt256) (p : CBudgetProposal), m[hash]? = some p → p.fValid = false) :
    getBudget P E S m = [] := by
  have hranked : ranked P E S (E.nextStart P) m = [] := by
    refine eq_nil_iff_forall_not_mem.mpr fun e he => ?_
    obtain ⟨hp,hrange⟩ := mem_ranked.mp he
    exact absurd (fValid_of_inRange hrange) (by simp [h e.1 e.2 hp])
  rw [getBudget_eq,hranked]
  exact ite_self []

/-- With a best block a proposal has to ask for at least a coin, and for no more than the total
budget, which is less. -/
theorem isValid_ne_ok {p : CBudgetProposalBroadcast} {mapVotes} (htip : E.nBestHeight.isSome) :
    p.isValid P E mapVotes fCheckCollateral ≠ .ok () := by
  obtain ⟨nHeight,htip⟩ := Option.isSome_iff_exists.mp htip
  intro hvalid
  simp only [CBudgetProposalBroadcast.isValid,htip,andThen_eq_ok,require_eq_ok,decide_eq_true_eq] at hvalid
  have hcoin : COIN ≤ p.nAmount := by tauto
  have htotal : p.nAmount ≤ getTotalBudget E p.nBlockStart := by tauto
  have hmax : getTotalBudget E p.nBlockStart ≤ FIXED_STORMNODE_BUDGET_AMOUNT := by
    unfold getTotalBudget
    split_ifs <;> decide
  exact absurd (Int64.le_trans hcoin (Int64.le_trans htotal hmax)) (by decide)

/-! What changes the proposals of a manager. -/

def CBudgetManager.addProposal (P : Params) (E : BudgetEnv) (p : CBudgetProposal)
    (m : HashMap CBudgetProposal) :
    HashMap CBudgetProposal :=
  if !(p.isValid P E p.mapVotes true).isOk then m
  else if m.contains (p.getHash P) then m
  else m.insert (p.getHash P) p

def CBudgetManager.checkProposals (P : Params) (E : BudgetEnv) (m : HashMap CBudgetProposal) :
    HashMap CBudgetProposal :=
  if E.nBestHeight.isNone then m
  else m.map fun _ p => { p with fValid := (p.isValid P E p.mapVotes true).isOk }

def CBudgetManager.updateProposal (P : Params) (vote : CBudgetVote) (m : HashMap CBudgetProposal) :
    HashMap CBudgetProposal :=
  match m[vote.nProposalHash]? with
  | none => m
  | some p => m.insert vote.nProposalHash
      { p with mapVotes := (addOrUpdateVote P (budgetVotes P) vote p.mapVotes).2 }

def CBudgetProposal.cleanAndRemove (E : BudgetEnv) (p : CBudgetProposal) : CBudgetProposal :=
  { p with mapVotes := p.mapVotes.map fun _ v => { v with fValid := v.counts E } }

inductive ProposalEvent
  | read (E : BudgetEnv) (file : HashMap CBudgetProposal)
  | addProposal (E : BudgetEnv) (p : CBudgetProposal)
  | checkAndRemove (E : BudgetEnv)
  | updateProposal (vote : CBudgetVote)
  | getBudget (E : BudgetEnv)
  | clear

/-- The node has a best block; the start waits for one before the cache is read. -/
def ProposalEvent.hasTip : ProposalEvent → Bool
  | .read E _ | .addProposal E _ | .checkAndRemove E => E.nBestHeight.isSome
  | _ => true

def proposalStep (P : Params) (m : HashMap CBudgetProposal) :
    ProposalEvent → HashMap CBudgetProposal
  | .read E file => checkProposals P E file
  | .addProposal E p => addProposal P E p m
  | .checkAndRemove E => checkProposals P E m
  | .updateProposal vote => updateProposal P vote m
  | .getBudget E => m.map fun _ p => p.cleanAndRemove E
  | .clear => ∅

def proposalRun (P : Params) (l : List ProposalEvent) : HashMap CBudgetProposal :=
  l.foldl (proposalStep P) ∅

def NoneValid (m : HashMap CBudgetProposal) : Prop :=
  ∀ (hash : UInt256) (p : CBudgetProposal), m[hash]? = some p → p.fValid = false

theorem isOk_isValid (htip : E.nBestHeight.isSome) (p : CBudgetProposal) :
    (p.isValid P E p.mapVotes true).isOk = false := by
  cases hvalid : p.isValid P E p.mapVotes true with
  | ok u => exact absurd hvalid (isValid_ne_ok htip)
  | error e => rfl

theorem noneValid_checkProposals (htip : E.nBestHeight.isSome) (m) :
    NoneValid (checkProposals P E m) := by
  intro hash p hp
  have hsome : ¬ E.nBestHeight.isNone := by simp [Option.isSome_iff_ne_none.mp htip]
  rw [checkProposals,if_neg hsome,Std.ExtTreeMap.getElem?_map] at hp
  obtain ⟨q,-,rfl⟩ := Option.map_eq_some_iff.mp hp
  exact isOk_isValid htip q

theorem NoneValid.step (h : NoneValid m) {e : ProposalEvent} (htip : e.hasTip) :
    NoneValid (proposalStep P m e) := by
  cases e with
  | read E file => exact noneValid_checkProposals htip file
  | addProposal E p =>
    rw [proposalStep,addProposal,isOk_isValid htip]
    exact h
  | checkAndRemove E => exact noneValid_checkProposals htip m
  | updateProposal vote =>
    rw [proposalStep,updateProposal]
    cases hp : m[vote.nProposalHash]? with
    | none => exact h
    | some p =>
      intro hash q hq
      rw [getElem?_insert] at hq
      split_ifs at hq with hash_eq
      · rw [← Option.some.inj hq]
        exact h vote.nProposalHash p hp
      · exact h hash q hq
  | getBudget E =>
    intro hash p hp
    rw [proposalStep,Std.ExtTreeMap.getElem?_map] at hp
    obtain ⟨q,hq,rfl⟩ := Option.map_eq_some_iff.mp hp
    exact h hash q hq
  | clear =>
    intro hash p hp
    simp [proposalStep] at hp

theorem noneValid_run {l : List ProposalEvent} (htip : ∀ e ∈ l, e.hasTip) :
    NoneValid (proposalRun P l) := by
  induction l using List.reverseRecOn with
  | nil =>
    intro hash p hp
    simp [proposalRun] at hp
  | append_singleton l e ih =>
    rw [proposalRun,foldl_append,foldl_cons,foldl_nil]
    exact (ih fun e' he' => htip e' (by simp [he'])).step (htip e (by simp))

/-- Any two nodes make the same budget, within the total, whatever proposals and votes came to them
and whatever their sorts do: no proposal is valid. And the selection itself depends on the sort for
ties only, and keeps to the total if no amount wraps, whichever proposals are marked as valid. -/
theorem getBudget_determined (P : Params) :
    (∀ l l' : List ProposalEvent, (∀ e ∈ l, e.hasTip = true) → (∀ e ∈ l', e.hasTip = true) →
      ∀ E E' S S',
      getBudget P E S (proposalRun P l) = getBudget P E' S' (proposalRun P l') ∧
        ((getBudget P E S (proposalRun P l)).map fun x => x.2.toInt).sum ≤
          (getTotalBudget E (E.nextStart P)).toInt) ∧
    ∀ E E' m m', SameView E E' m m' → SameJudgement P E E' m → NoTies P E m → AmountsFit P E m →
      ∀ S S',
      getBudget P E S m = getBudget P E' S' m' ∧
        ((getBudget P E S m).map fun x => x.2.toInt).sum ≤
          (getTotalBudget E (E.nextStart P)).toInt := by
  refine ⟨fun l l' hl hl' E E' S S' => ?_,fun E E' m m' hview hjudge hties hfit S S' =>
    getBudget_of_sameView hview hjudge hties hfit S S'⟩
  rw [getBudget_eq_nil (noneValid_run hl),getBudget_eq_nil (noneValid_run hl')]
  exact ⟨rfl,getTotalBudget_nonneg E _⟩

theorem sortProposalsByVotes_eq_false {x y : ProposalEntry × ℤ} : sortProposalsByVotes x y = false ↔
    x.2 < y.2 ∨ x.2 = y.2 ∧ x.1.2.nFeeTXHash ≤ y.1.2.nFeeTXHash := by
  unfold sortProposalsByVotes
  split_ifs with h
  · rw [decide_eq_false_iff_not]
    omega
  · rw [decide_eq_false_iff_not,gt_iff_lt,BitVec.not_lt]
    simp [not_not.mp h]

def insertionProposalSort (shuffle : List (ProposalEntry × ℤ) → List (ProposalEntry × ℤ))
    (hshuffle : ∀ v, (shuffle v).Perm v) : ProposalSort where
  sort := fun v => (shuffle v).insertionSort fun x y => sortProposalsByVotes y x = false
  perm := fun v => (List.perm_insertionSort _ _).trans (hshuffle v)
  sorted := by
    have htrans : IsTrans (ProposalEntry × ℤ) fun x y => sortProposalsByVotes y x = false :=
      ⟨fun x y z h h' => by
      rw [sortProposalsByVotes_eq_false] at *
      bv_omega⟩
    have htotal : Std.Total fun (x y : ProposalEntry × ℤ) => sortProposalsByVotes y x = false := ⟨fun x y => by
      rw [sortProposalsByVotes_eq_false,sortProposalsByVotes_eq_false]
      bv_omega⟩
    exact fun v => List.pairwise_insertionSort _ _

namespace Sample

def sortForward : ProposalSort := insertionProposalSort id fun v => List.Perm.refl v

def sortBackward : ProposalSort := insertionProposalSort List.reverse List.reverse_perm

def selectionEnv (nTime : ℤ) : BudgetEnv :=
  { payoutEnv with nTime := nTime, find := fun _ => some [1] }

def proposal (nAmount : CAmount) (nFeeTXHash : UInt256) (votes : List ℕ) : CBudgetProposal where
  strProposalName := [0x70]
  strURL := [0x75]
  nBlockStart := 41091
  nBlockEnd := 102727
  nAmount := nAmount
  address := [0x51]
  nFeeTXHash := nFeeTXHash
  nTime := 1440000000
  fValid := true
  mapVotes := votes.foldl (fun l i => l.insert (.ofNat 256 i)
    ⟨true,false,⟨⟨.ofNat 256 i,0⟩,[],0⟩,1,VOTE_YES,1440000000,[]⟩) ∅

def proposals (p p' : CBudgetProposal) : HashMap CBudgetProposal :=
  (({} : HashMap CBudgetProposal).insert 1 p).insert 2 p'

end Sample

open Sample

theorem eq_of_proposals {p' q : CBudgetProposal} (h : (proposals p p')[hash]? = some q) :
    hash = 2 ∧ q = p' ∨ hash = 1 ∧ q = p := by
  rw [proposals,getElem?_insert,getElem?_insert] at h
  split_ifs at h with h2 h1
  · exact .inl ⟨h2.symm,(Option.some.inj h).symm⟩
  · exact .inr ⟨h1.symm,(Option.some.inj h).symm⟩
  · simp at h

/-- Two runs of different proposals, all of them marked as valid in the files; and two proposals
with different fee transactions, at two times. -/
theorem getBudget_determined_sample :
    getBudget params (selectionEnv 1450000000) sortForward (proposalRun params
        [.read (selectionEnv 1450000000) (proposals (proposal 6000 7 [3]) (proposal 7000 7 [4]))]) =
      getBudget params (selectionEnv 1450000007) sortBackward (proposalRun params
        [.read (selectionEnv 1450000000) (proposals (proposal 5000 7 [3]) (proposal 7000 8 [4])),
          .addProposal (selectionEnv 1450000000) (proposal COIN 9 [])]) ∧
    let m := proposals (proposal 4000 7 [3]) (proposal 5000 8 [4])
    getBudget params (selectionEnv 1450000000) sortForward m =
      getBudget params (selectionEnv 1450000007) sortBackward m := by
  refine ⟨((getBudget_determined params).1 _ _ (by decide +kernel) (by decide +kernel) _ _ _ _).1,?_⟩
  intro m
  have hview : SameView (selectionEnv 1450000000) (selectionEnv 1450000007) m m :=
    ⟨rfl,rfl,fun _ _ _ => Iff.rfl⟩
  have hjudge : SameJudgement params (selectionEnv 1450000000) (selectionEnv 1450000007) m := by
    constructor
    · intro hash p hp _ h v hv
      have hvote : v.nTime = 1440000000 := by
        rcases eq_of_proposals hp with ⟨-,rfl⟩ | ⟨-,rfl⟩
        all_goals
          simp only [proposal,foldl_cons,foldl_nil] at hv
          rw [getElem?_insert] at hv
          split_ifs at hv
          · rw [← Option.some.inj hv]
          · simp at hv
      simp only [CBudgetVote.counts,hvote]
      rfl
    · intro hash p hp _
      rcases eq_of_proposals hp with ⟨-,rfl⟩ | ⟨-,rfl⟩ <;> decide +kernel
  have hties : NoTies params (selectionEnv 1450000000) m := by
    intro hash hash' p p' hp hp' _ _ _ hfee
    rcases eq_of_proposals hp with ⟨rfl,rfl⟩ | ⟨rfl,rfl⟩ <;>
      rcases eq_of_proposals hp' with ⟨rfl,rfl⟩ | ⟨rfl,rfl⟩ <;> first | rfl | cases hfee
  have hfit : AmountsFit params (selectionEnv 1450000000) m := by
    intro hash p hp _
    rcases eq_of_proposals hp with ⟨-,rfl⟩ | ⟨-,rfl⟩ <;> decide +kernel
  exact ((getBudget_determined params).2 _ _ _ _ hview hjudge hties hfit sortForward sortBackward).1

def int32 (n : ℤ) : ℤ := n.bmod (2^32)

theorem int32_of_fits {n : ℤ} (hlow : -2^31 ≤ n) (hhigh : n < 2^31) : int32 n = n :=
  Int.bmod_eq_of_le (by omega) (by omega)

theorem int32_lt (n : ℤ) : int32 n < 2^31 := by
  have h := Int.bmod_lt (x := n) (m := 2^32) (by decide)
  unfold int32
  omega

theorem exists_int32_eq (n : ℤ) : ∃ j, int32 n = n+2^32*j := by
  unfold int32
  rw [Int.bmod_def]
  split_ifs
  · exact ⟨-(n/2^32),by omega⟩
  · exact ⟨-(n/2^32)-1,by omega⟩

namespace CBudgetProposalBroadcast

variable (P)

def construct (strProposalName strURL : List UInt8) (nPaymentCount : ℤ) (address : CScript)
    (nAmount : CAmount) (nBlockStart : ℤ) (nFeeTXHash : UInt256) : CBudgetProposalBroadcast :=
  let nPaymentsStart := nBlockStart-nBlockStart.tmod (getBudgetPaymentCycleBlocks P)
  { strProposalName, strURL, nBlockStart, nAmount, address, nFeeTXHash,
    nBlockEnd := int32 (nPaymentsStart+getBudgetPaymentCycleBlocks P*nPaymentCount) }

def getBlockStartCycle (p : CBudgetProposalBroadcast) : ℤ :=
  p.nBlockStart-p.nBlockStart.tmod (getBudgetPaymentCycleBlocks P)

def getBlockEndCycle (p : CBudgetProposalBroadcast) : ℤ :=
  int32 (p.nBlockEnd-(getBudgetPaymentCycleBlocks P).tdiv 2)

def getTotalPaymentCount (p : CBudgetProposalBroadcast) : ℤ :=
  (int32 (p.getBlockEndCycle P-p.getBlockStartCycle P)).tdiv (getBudgetPaymentCycleBlocks P)

end CBudgetProposalBroadcast

open CBudgetProposalBroadcast

theorem half_cycle_pos (P) :
    0 < (getBudgetPaymentCycleBlocks P).tdiv 2 ∧ (getBudgetPaymentCycleBlocks P).tdiv 2 <
      getBudgetPaymentCycleBlocks P := by
  unfold getBudgetPaymentCycleBlocks
  split_ifs <;> decide

theorem blockStartCycle_bounds (P) {nBlockStart : ℤ} (hstart : 0 < nBlockStart) :
    0 ≤ nBlockStart-nBlockStart.tmod (getBudgetPaymentCycleBlocks P) ∧
      nBlockStart-nBlockStart.tmod (getBudgetPaymentCycleBlocks P) ≤ nBlockStart := by
  have hpos : 0 ≤ getBudgetPaymentCycleBlocks P := by
    have := half_cycle_pos P
    omega
  have hmod := Int.tmod_add_mul_tdiv nBlockStart (getBudgetPaymentCycleBlocks P)
  have hcycles := Int.mul_nonneg hpos (Int.tdiv_nonneg hstart.le hpos)
  have hrest := Int.tmod_nonneg (getBudgetPaymentCycleBlocks P) hstart.le
  omega

/-- A proposal of one coin whose end is moved by some blocks is accepted with its number of
payments only where nothing is checked, and if it is moved by half a cycle at least; one with the
end that the constructor gives it never is. -/
theorem proposal_accepted_iff (P : Params) (E : BudgetEnv) (hcount : 0 ≤ E.countEnabled)
    (strProposalName strURL : List UInt8) (id : UInt160) (nFeeTXHash : UInt256) (c nBlockStart : ℤ)
    (hc : 1 ≤ c) (hstart : 0 < nBlockStart) (fCheckCollateral : Bool) :
    let p := construct P strProposalName strURL c (Script.getScriptForDestination id) COIN nBlockStart nFeeTXHash
    (∀ k, 0 ≤ k → nBlockStart+getBudgetPaymentCycleBlocks P*c+k < 2^31 →
      (({ p with nBlockEnd := p.nBlockEnd+k }.isValid P E ∅ fCheckCollateral = .ok () ∧
        { p with nBlockEnd := p.nBlockEnd+k }.getTotalPaymentCount P = c) ↔
      E.nBestHeight = none ∧ (getBudgetPaymentCycleBlocks P).tdiv 2 ≤ k ∧
        k < (getBudgetPaymentCycleBlocks P).tdiv 2+getBudgetPaymentCycleBlocks P)) ∧
    ¬ (p.isValid P E ∅ fCheckCollateral = .ok () ∧ p.getTotalPaymentCount P = c) := by
  intro p
  obtain ⟨hhalf,hlt⟩ := half_cycle_pos P
  obtain ⟨hlow,hhigh⟩ := blockStartCycle_bounds P hstart
  have hle : getBudgetPaymentCycleBlocks P*1 ≤ getBudgetPaymentCycleBlocks P*c :=
    Int.mul_le_mul_of_nonneg_left hc (by omega)
  constructor
  · intro k hk hfits
    have htotal : { p with nBlockEnd := p.nBlockEnd+k }.getTotalPaymentCount P =
        (getBudgetPaymentCycleBlocks P*c+(k-(getBudgetPaymentCycleBlocks P).tdiv 2)).tdiv
          (getBudgetPaymentCycleBlocks P) := by
      simp only [getTotalPaymentCount,getBlockEndCycle,getBlockStartCycle,p,construct]
      congr 1
      rw [int32_of_fits (n := _+getBudgetPaymentCycleBlocks P*c) (by omega) (by omega),
        int32_of_fits (n := _-(getBudgetPaymentCycleBlocks P).tdiv 2) (by omega) (by omega),
        int32_of_fits (by omega) (by omega)]
      ring
    cases htip : E.nBestHeight with
    | some nHeight => exact iff_of_false (fun h => isValid_ne_ok (by rw [htip]; rfl) h.1) (by simp)
    | none =>
      have hvalid : { p with nBlockEnd := p.nBlockEnd+k }.isValid P E ∅ fCheckCollateral = .ok () := by
        have hvotes : ∀ n, voteCount n ∅ = 0 := fun n => by simp [voteCount]
        simp [isValid,htip,hvotes,p,construct,Int.tdiv_nonneg hcount,hstart.le]
      rw [htotal,and_iff_right hvalid,and_iff_right rfl]
      generalize (getBudgetPaymentCycleBlocks P).tdiv 2 = half at *
      generalize getBudgetPaymentCycleBlocks P = cycle at *
      rw [Int.tdiv_eq_ediv_of_nonneg (by omega),add_comm,Int.add_mul_ediv_left _ _ (by omega),add_eq_right]
      constructor
      · intro hzero
        have hmod := Int.emod_add_mul_ediv (k-half) cycle
        have hnonneg := Int.emod_nonneg (k-half) (by omega : cycle ≠ 0)
        have hmodlt := Int.emod_lt_of_pos (k-half) (by omega : 0 < cycle)
        rw [hzero,mul_zero] at hmod
        omega
      · exact fun h => Int.ediv_eq_zero_of_lt (by omega) (by omega)
  · rintro ⟨-,htotal⟩
    simp only [getTotalPaymentCount,getBlockEndCycle,getBlockStartCycle,p,construct] at htotal
    generalize nBlockStart-nBlockStart.tmod (getBudgetPaymentCycleBlocks P) = nPaymentsStart at *
    obtain ⟨j₁,h₁⟩ := exists_int32_eq (nPaymentsStart+getBudgetPaymentCycleBlocks P*c)
    obtain ⟨j₂,h₂⟩ := exists_int32_eq (int32 (nPaymentsStart+getBudgetPaymentCycleBlocks P*c)-
      (getBudgetPaymentCycleBlocks P).tdiv 2)
    obtain ⟨j₃,h₃⟩ := exists_int32_eq (int32 (int32 (nPaymentsStart+getBudgetPaymentCycleBlocks P*c)-
      (getBudgetPaymentCycleBlocks P).tdiv 2)-nPaymentsStart)
    have hmax := int32_lt (int32 (int32 (nPaymentsStart+getBudgetPaymentCycleBlocks P*c)-
      (getBudgetPaymentCycleBlocks P).tdiv 2)-nPaymentsStart)
    generalize int32 (int32 (int32 (nPaymentsStart+getBudgetPaymentCycleBlocks P*c)-
      (getBudgetPaymentCycleBlocks P).tdiv 2)-nPaymentsStart) = nBlocks at *
    -- c payments take c cycles, and to wrap around adds more than an int holds
    have hmod := Int.tmod_add_mul_tdiv nBlocks (getBudgetPaymentCycleBlocks P)
    rw [htotal] at hmod
    have hrest := Int.lt_tmod_of_pos nBlocks (by omega : 0 < getBudgetPaymentCycleBlocks P)
    have hnonneg := Int.tmod_nonneg (a := nBlocks) (getBudgetPaymentCycleBlocks P) (by omega)
    omega

theorem proposal_accepted_iff_noTip :
    let p := construct params [0x70] [0x75] 3 (Script.getScriptForDestination 7) COIN 41091 5
    { p with nBlockEnd := p.nBlockEnd+20545 }.isValid params { payoutEnv with nBestHeight := none } ∅ false = .ok () ∧
      { p with nBlockEnd := p.nBlockEnd+20545 }.getTotalPaymentCount params = 3 :=
  ((proposal_accepted_iff params { payoutEnv with nBestHeight := none } (by decide) [0x70] [0x75] 7 5 3 41091
    (by decide) (by decide) false).1 20545 (by decide) (by decide)).mpr (by decide)

/-- A proposal for three payments ends with its last cycle, so that it counts for two, and is
refused; half a cycle later, one coin is still too much. -/
theorem proposal_refused :
    let p := construct params [0x70] [0x75] 3 (Script.getScriptForDestination 7) COIN 41091 5
    p.isValid params payoutEnv ∅ false = .error ⟨0,"Invalid block end"⟩ ∧ p.getTotalPaymentCount params = 2 ∧
      { p with nBlockEnd := p.nBlockEnd+20545 }.isValid params payoutEnv ∅ false =
        .error ⟨0,"Payment more than max"⟩ := by
  decide +kernel

end DarkSilk
