import DarkSilk.ConnectBlock
import DarkSilk.Runs

/-! Votes of the stormnodes for the payee of a block: the message that declares a winner,
the table of the last vote of each stormnode, and what is counted for a block. -/
namespace DarkSilk

open PrefixCode Runs List

def MIN_SNW_PEER_PROTO_VERSION : ℤ := 60700
def SNPAYMENTS_SIGNATURES_TOTAL : ℤ := 15

structure CStormnodePaymentWinner where
  vinStormnode : COutPoint
  nBlockHeight : ℤ
  payee : CScript
  vchSig : List UInt8
  deriving DecidableEq, Repr

/-- The signature is not part of it. -/
def CStormnodePaymentWinner.getHash (P : Params) (winner : CStormnodePaymentWinner) : UInt256 :=
  P.hash (writeScript winner.payee++leBytes 4 (winner.nBlockHeight%2^32).toNat++winner.vinStormnode.serialize)

/-- The reference nodes of the three networks. -/
def isReferenceNode (prevout : COutPoint) : Bool :=
  prevout = ⟨0x099c01bea63abd1692f60806bb646fa1d288e2d049281225f17e499024084e28,0⟩ ||
    prevout = ⟨0xfbc16ae5229d6d99181802fd76a4feee5e7640164dcebc7f8feb04a7bea026f8,0⟩ ||
    prevout = ⟨0xe466f5d8beb4c2d22a314310dc58e0ea89505c95409754d0d68fb874952608cc,1⟩

/-- What the handler of a message reads beside the votes: the chain, the peer, and the
list of stormnodes with their keys, ranks and signatures. -/
structure SnwEnv where
  isBlockchainSynced : Bool
  fLiteMode : Bool
  nVersion : ℤ
  nBestHeight : Option ℤ
  countEnabled : ℤ
  protocolVersion : COutPoint → Option ℤ
  getStormnodeRank : COutPoint → ℤ → ℤ
  verifyMessage : CStormnodePaymentWinner → Bool
  getBlockHash : ℤ → Option UInt256

abbrev CStormnodeBlockPayees := List (CScript × ℤ)

structure CStormnodePayments where
  mapStormnodePayeeVotes : HashMap CStormnodePaymentWinner
  mapStormnodeBlocks : ℤ → Option CStormnodeBlockPayees
  mapStormnodesLastVote : HashMap ℤ

def CStormnodePayments.empty : CStormnodePayments := ⟨∅,fun _ => none,∅⟩

variable (P : Params) (E : SnwEnv)

def CStormnodePaymentWinner.isValid (winner : CStormnodePaymentWinner) : Bool :=
  isReferenceNode winner.vinStormnode ||
    match E.protocolVersion winner.vinStormnode with
    | none => false
    | some protocolVersion => MIN_SNW_PEER_PROTO_VERSION ≤ protocolVersion &&
        E.getStormnodeRank winner.vinStormnode (winner.nBlockHeight-100) ≤ SNPAYMENTS_SIGNATURES_TOTAL

def CStormnodePaymentWinner.signatureValid (winner : CStormnodePaymentWinner) : Bool :=
  (E.protocolVersion winner.vinStormnode).isSome && E.verifyMessage winner

def CStormnodeBlockPayees.addPayee (payeeIn : CScript) (nIncrement : ℤ) :
    CStormnodeBlockPayees → CStormnodeBlockPayees
  | [] => [(payeeIn,nIncrement)]
  | payee::vecPayments =>
    if payee.1 = payeeIn then (payee.1,payee.2+nIncrement)::vecPayments else payee::addPayee payeeIn nIncrement vecPayments

def lastVoteKey (prevout : COutPoint) : UInt256 := prevout.hash+BitVec.ofNat 256 prevout.n.toNat

/-- A vote is refused for the height of the last one only; any other is recorded. -/
def CStormnodePayments.canVote (s : CStormnodePayments) (prevout : COutPoint) (nBlockHeight : ℤ) :
    Bool × CStormnodePayments :=
  if s.mapStormnodesLastVote[lastVoteKey prevout]? = some nBlockHeight then (false,s)
  else (true,{ s with mapStormnodesLastVote := s.mapStormnodesLastVote.insert (lastVoteKey prevout) nBlockHeight })

def voteWeight (winner : CStormnodePaymentWinner) : ℤ :=
  if isReferenceNode winner.vinStormnode then 100 else 1

def CStormnodePayments.addWinningStormnode (s : CStormnodePayments)
    (winnerIn : CStormnodePaymentWinner) :
    Bool × CStormnodePayments :=
  if (E.getBlockHash (winnerIn.nBlockHeight-100)).isNone then (false,s)
  else if s.mapStormnodePayeeVotes.contains (winnerIn.getHash P) then (false,s)
  else (true,{ s with
    mapStormnodePayeeVotes := s.mapStormnodePayeeVotes.insert (winnerIn.getHash P) winnerIn
    mapStormnodeBlocks := Function.update s.mapStormnodeBlocks winnerIn.nBlockHeight
      (some (CStormnodeBlockPayees.addPayee winnerIn.payee (voteWeight winnerIn)
        ((s.mapStormnodeBlocks winnerIn.nBlockHeight).getD []))) })

/-- The checks before the vote is recorded. -/
def reachesVote (s : CStormnodePayments) (winner : CStormnodePaymentWinner) : Bool :=
  E.isBlockchainSynced && !E.fLiteMode && MIN_SNW_PEER_PROTO_VERSION ≤ E.nVersion &&
    match E.nBestHeight with
    | none => false
    | some nHeight => !s.mapStormnodePayeeVotes.contains (winner.getHash P) &&
        -- the first block is rounded from the product with 1.25
        (4*nHeight-5*E.countEnabled).tdiv 4 ≤ winner.nBlockHeight && winner.nBlockHeight ≤ nHeight+20 &&
        winner.isValid E

/-- The message that declares a winner, and whether its vote was counted. -/
def processSnw (s : CStormnodePayments) (winner : CStormnodePaymentWinner) :
    Bool × CStormnodePayments :=
  if reachesVote P E s winner then
    let (can,t) := s.canVote winner.vinStormnode winner.nBlockHeight
    if can && winner.signatureValid E then t.addWinningStormnode P E winner else (false,t)
  else (false,s)

variable {P} {E} {s : CStormnodePayments} {winner : CStormnodePaymentWinner}

def CStormnodePayments.record (s : CStormnodePayments) (winner : CStormnodePaymentWinner) :
    CStormnodePayments :=
  { s with mapStormnodesLastVote :=
      s.mapStormnodesLastVote.insert (lastVoteKey winner.vinStormnode) winner.nBlockHeight }

def CStormnodePayments.count (P : Params) (s : CStormnodePayments)
    (winner : CStormnodePaymentWinner) :
    CStormnodePayments :=
  { s with
    mapStormnodePayeeVotes := s.mapStormnodePayeeVotes.insert (winner.getHash P) winner
    mapStormnodeBlocks := Function.update s.mapStormnodeBlocks winner.nBlockHeight
      (some (CStormnodeBlockPayees.addPayee winner.payee (voteWeight winner)
        ((s.mapStormnodeBlocks winner.nBlockHeight).getD []))) }

open CStormnodePayments

/-- A message is without effect, or its vote is recorded for a height that was not the last
one, and counted only with a valid signature. -/
theorem processSnw_cases (P E s winner) : processSnw P E s winner = (false,s) ∨
      (reachesVote P E s winner ∧ s.mapStormnodesLastVote[lastVoteKey winner.vinStormnode]? ≠
        some winner.nBlockHeight ∧
        (processSnw P E s winner = (false,s.record winner) ∨
          winner.signatureValid E ∧
          processSnw P E s winner = (true,(s.record winner).count P winner))) := by
  unfold processSnw
  by_cases hr : reachesVote P E s winner
  · rw [if_pos hr]
    unfold canVote
    by_cases hlast : s.mapStormnodesLastVote[lastVoteKey winner.vinStormnode]? = some winner.nBlockHeight
    · exact .inl (by simp [hlast])
    · refine .inr ⟨hr,hlast,?_⟩
      rw [if_neg hlast]
      cases hsig : winner.signatureValid E with
      | false => exact .inl (by simp [record])
      | true =>
        simp only [Bool.and_self,if_true,addWinningStormnode]
        split_ifs
        · exact .inl rfl
        · exact .inl rfl
        · exact .inr ⟨trivial,rfl⟩
  · exact .inl (if_neg hr)

variable {l : List (SnwEnv × CStormnodePaymentWinner)}

def CStormnodePayments.step (P : Params) (s : CStormnodePayments)
    (m : SnwEnv × CStormnodePaymentWinner) :
    CStormnodePayments :=
  (processSnw P m.1 s m.2).2

/-- The votes that a run counts, in the order of their messages. -/
def counted (P : Params) :
    CStormnodePayments → List (SnwEnv × CStormnodePaymentWinner) → List CStormnodePaymentWinner
  | _, [] => []
  | s, m::l => if (processSnw P m.1 s m.2).1 then m.2::counted P (s.step P m) l else counted P (s.step P m) l

/-- A message that would be recorded is signed, and not for a height below the last one
recorded for its stormnode. -/
def InOrder (P : Params) (s : CStormnodePayments) (m : SnwEnv × CStormnodePaymentWinner) : Prop :=
  reachesVote P m.1 s m.2 = true →
    (s.mapStormnodesLastVote[lastVoteKey m.2.vinStormnode]? ≠ some m.2.nBlockHeight → m.2.signatureValid m.1 = true) ∧
    ∀ n ∈ s.mapStormnodesLastVote[lastVoteKey m.2.vinStormnode]?, n ≤ m.2.nBlockHeight

instance (P : Params) (s : CStormnodePayments) (m : SnwEnv × CStormnodePaymentWinner) :
    Decidable (InOrder P s m) :=
  inferInstanceAs (Decidable (_ → _ ∧ _))

theorem CStormnodePayments.record_lastVote (s : CStormnodePayments) (w : CStormnodePaymentWinner)
    (k) :
    (s.record w).mapStormnodesLastVote[k]? =
      if lastVoteKey w.vinStormnode = k then some w.nBlockHeight else s.mapStormnodesLastVote[k]? :=
  getElem?_insert _ _ _ _

variable {m : SnwEnv × CStormnodePaymentWinner} {n : ℤ} {w : CStormnodePaymentWinner}

theorem lastVote_step (hm : InOrder P s m) {k : UInt256}
    (hn : s.mapStormnodesLastVote[k]? = some n) :
    ∃ n', (s.step P m).mapStormnodesLastVote[k]? = some n' ∧ n ≤ n' := by
  have hrec : reachesVote P m.1 s m.2 → ∃ n', (s.record m.2).mapStormnodesLastVote[k]? = some n' ∧ n ≤ n' := by
    intro hr
    rw [record_lastVote]
    by_cases hk : lastVoteKey m.2.vinStormnode = k
    · subst hk
      exact ⟨_,if_pos rfl,(hm hr).2 n hn⟩
    · exact ⟨n,by rw [if_neg hk,hn],le_rfl⟩
  rw [step]
  rcases processSnw_cases P m.1 s m.2 with h | ⟨hr,-,h | ⟨-,h⟩⟩
  · exact ⟨n,by rw [h,hn],le_rfl⟩
  · rw [h]
    exact hrec hr
  · rw [h]
    exact hrec hr

theorem mem_counted_cons (hw : w ∈ counted P s (m::l)) :
    (w = m.2 ∧ (processSnw P m.1 s m.2).1) ∨ w ∈ counted P (s.step P m) l := by
  rw [counted] at hw
  split_ifs at hw with hc
  · cases hw with
    | head => exact .inl ⟨rfl,hc⟩
    | tail _ hw => exact .inr hw
  · exact .inr hw

/-- In order, a vote that is counted is above the last vote of its stormnode. -/
theorem lastVote_lt_of_mem_counted (h : Always (step P) (InOrder P) s l)
    (hw : w ∈ counted P s l) (hn : s.mapStormnodesLastVote[lastVoteKey w.vinStormnode]? = some n) :
    n < w.nBlockHeight := by
  induction l generalizing s n with
  | nil => simp [counted] at hw
  | cons m l ih =>
    rcases mem_counted_cons hw with ⟨rfl,hc⟩ | hw
    · rcases processSnw_cases P m.1 s m.2 with he | ⟨hr,hne,-⟩
      · rw [he] at hc
        cases hc
      · refine lt_of_le_of_ne ((h.1 hr).2 n hn) fun heq => hne ?_
        rw [hn,heq]
    · obtain ⟨n',hn',hle⟩ := lastVote_step h.1 hn
      exact hle.trans_lt (ih h.2 hw hn')

theorem counted_pairwise (h : Always (step P) (InOrder P) s l) :
    (counted P s l).Pairwise fun w w' =>
      lastVoteKey w.vinStormnode = lastVoteKey w'.vinStormnode →
      w.nBlockHeight < w'.nBlockHeight := by
  induction l generalizing s with
  | nil => simp [counted]
  | cons m l ih =>
    rw [counted]
    split_ifs with hc
    · refine pairwise_cons.mpr ⟨fun w hw hk => ?_,ih h.2⟩
      have hlast : (s.step P m).mapStormnodesLastVote[lastVoteKey m.2.vinStormnode]? =
          some m.2.nBlockHeight := by
        rw [step]
        rcases processSnw_cases P m.1 s m.2 with he | ⟨-,-,he | ⟨-,he⟩⟩
        · rw [he] at hc
          cases hc
        · rw [he] at hc
          cases hc
        · rw [he]
          exact (record_lastVote s m.2 _).trans (if_pos rfl)
      rw [hk] at hlast
      exact lastVote_lt_of_mem_counted h.2 hw hlast
    · exact ih h.2

theorem length_le_one_of_pairwise {v : List CStormnodePaymentWinner} {nBlockHeight prevout}
    (hpair : v.Pairwise fun w w' =>
      lastVoteKey w.vinStormnode = lastVoteKey w'.vinStormnode → w.nBlockHeight < w'.nBlockHeight)
    (hv : ∀ w ∈ v, w.nBlockHeight = nBlockHeight ∧ w.vinStormnode = prevout) : v.length ≤ 1 := by
  match v with
  | [] => simp
  | [_] => simp
  | w::w'::v =>
    have h1 := hv w (by simp)
    have h2 := hv w' (by simp)
    have hlt := (pairwise_cons.mp hpair).1 w' (by simp) (by rw [h1.2,h2.2])
    omega

theorem processSnw_of_not_signed (hm : InOrder P s m)
    (hsig : m.2.signatureValid m.1 = false) : processSnw P m.1 s m.2 = (false,s) := by
  rcases processSnw_cases P m.1 s m.2 with he | ⟨hr,hne,-⟩
  · exact he
  · rw [(hm hr).1 hne] at hsig
    cases hsig

theorem counted_filter_signed (h : Always (step P) (InOrder P) s l) :
    counted P s (l.filter fun m => m.2.signatureValid m.1) = counted P s l ∧
      (l.filter fun m => m.2.signatureValid m.1).foldl (step P) s = l.foldl (step P) s := by
  induction l generalizing s with
  | nil => exact ⟨rfl,rfl⟩
  | cons m l ih =>
    cases hsig : m.2.signatureValid m.1 with
    | true =>
      rw [filter_cons_of_pos (by simpa using hsig),counted,counted,(ih h.2).1]
      exact ⟨rfl,(ih h.2).2⟩
    | false =>
      have hproc := processSnw_of_not_signed h.1 hsig
      have hstep : s.step P m = s := congrArg Prod.snd hproc
      have htail := h.2
      rw [hstep] at htail
      rw [filter_cons_of_neg (by simp [hsig]),counted,foldl_cons,hstep,hproc]
      exact ih htail

def votesOf (vecPayments : CStormnodeBlockPayees) (payee : CScript) : ℤ :=
  ((vecPayments.filter fun p => p.1 = payee).map Prod.snd).sum

theorem votesOf_addPayee (vecPayments : CStormnodeBlockPayees) (payeeIn payee n) :
    votesOf (CStormnodeBlockPayees.addPayee payeeIn n vecPayments) payee =
      votesOf vecPayments payee+if payeeIn = payee then n else 0 := by
  induction vecPayments with
  | nil =>
    by_cases hp : payeeIn = payee <;> simp [CStormnodeBlockPayees.addPayee,votesOf,hp]
  | cons p vecPayments ih =>
    rw [CStormnodeBlockPayees.addPayee]
    split_ifs with hin hp hp
    · simp [votesOf,hin,hp]
      ring
    · simp [votesOf,hin,hp]
    all_goals by_cases hq : p.1 = payee <;> simp [votesOf,hq,hp] at ih ⊢ <;> omega

def CStormnodePayments.votes (s : CStormnodePayments) (nBlockHeight : ℤ) (payee : CScript) : ℤ :=
  votesOf ((s.mapStormnodeBlocks nBlockHeight).getD []) payee

theorem CStormnodePayments.votes_count (s : CStormnodePayments) (w : CStormnodePaymentWinner)
    (h payee) :
    (s.count P w).votes h payee =
      s.votes h payee+if w.nBlockHeight = h ∧ w.payee = payee then voteWeight w else 0 := by
  unfold votes count
  by_cases hh : w.nBlockHeight = h
  · subst hh
    simp [votesOf_addPayee]
  · simp [Function.update_of_ne (Ne.symm hh),hh]

theorem votes_run (h : ℤ) (payee) : (l.foldl (step P) s).votes h payee = s.votes h payee+
      (((counted P s l).filter fun w => w.nBlockHeight = h ∧
        w.payee = payee).map voteWeight).sum := by
  induction l generalizing s with
  | nil => simp [counted]
  | cons m l ih =>
    rw [foldl_cons,ih,counted,step]
    rcases processSnw_cases P m.1 s m.2 with he | ⟨-,-,he | ⟨-,he⟩⟩
    · simp [he]
    · simp only [he]
      rfl
    · simp only [he,if_true,votes_count]
      by_cases hc : m.2.nBlockHeight = h ∧ m.2.payee = payee
      · rw [if_pos hc,filter_cons_of_pos (by simpa using hc),map_cons,sum_cons]
        exact add_assoc _ _ _
      · rw [if_neg hc,filter_cons_of_neg (by simpa using hc),add_zero]
        rfl

/-- In order, what is counted for a block is at most one vote of each stormnode, and the
messages with an invalid signature might as well not have come. -/
theorem payment_votes_once (h : Always (step P) (InOrder P) .empty l) :
    (∀ nBlockHeight prevout, isReferenceNode prevout = false →
      ((counted P .empty l).filter fun w => w.nBlockHeight = nBlockHeight ∧
        w.vinStormnode = prevout).length ≤ 1) ∧
    (∀ nBlockHeight payee, (l.foldl (step P) .empty).votes nBlockHeight payee =
      (((counted P .empty l).filter fun w => w.nBlockHeight = nBlockHeight ∧
        w.payee = payee).map voteWeight).sum) ∧
    counted P .empty (l.filter fun m => m.2.signatureValid m.1) = counted P .empty l := by
  refine ⟨fun nBlockHeight prevout _ => ?_,fun nBlockHeight payee => ?_,(counted_filter_signed h).1⟩
  · exact length_le_one_of_pairwise ((counted_pairwise h).filter _) fun w hw => by
      simpa using (mem_filter.mp hw).2
  · rw [votes_run,votes,empty]
    simp [votesOf]

/-! A node that knows every stormnode, with signatures of one byte. -/
namespace Sample

def snwEnv : SnwEnv where
  isBlockchainSynced := true
  fLiteMode := false
  nVersion := 60700
  nBestHeight := some 200
  countEnabled := 20
  protocolVersion := fun _ => some 60700
  getStormnodeRank := fun _ _ => 1
  verifyMessage := fun winner => winner.vchSig = [1]
  getBlockHash := fun _ => some 1

def payeeVote (nBlockHeight : ℤ) (payee : CScript) (vchSig : List UInt8) :
    SnwEnv × CStormnodePaymentWinner :=
  (snwEnv,⟨⟨5,0⟩,nBlockHeight,payee,vchSig⟩)

end Sample

open Sample

theorem payment_votes_once_two :
    ((counted params .empty [payeeVote 200 [1] [1],payeeVote 200 [2] [0],
        payeeVote 201 [1] [1]]).filter fun w => w.nBlockHeight = 200 ∧
        w.vinStormnode = ⟨5,0⟩).length ≤ 1 ∧
      counted params .empty [payeeVote 200 [1] [1],payeeVote 200 [2] [0],
        payeeVote 201 [1] [1]] = [⟨⟨5,0⟩,200,[1],[1]⟩,⟨⟨5,0⟩,201,[1],[1]⟩] :=
  ⟨(payment_votes_once (by decide +kernel)).1 200 ⟨5,0⟩ (by decide +kernel),by decide +kernel⟩

/-- A stormnode that votes for another block in between votes twice for one block, and a
vote that somebody else made up takes the place of its own. -/
theorem payment_votes_twice : counted params .empty [payeeVote 200 [1] [1],payeeVote 201 [1] [1],
        payeeVote 200 [2] [1]] =
      [⟨⟨5,0⟩,200,[1],[1]⟩,⟨⟨5,0⟩,201,[1],[1]⟩,⟨⟨5,0⟩,200,[2],[1]⟩] ∧
    isReferenceNode ⟨5,0⟩ = false ∧
    counted params .empty [payeeVote 200 [2] [0],payeeVote 200 [1] [1]] = [] ∧
    counted params .empty [payeeVote 200 [1] [1]] = [⟨⟨5,0⟩,200,[1],[1]⟩] := by
  decide +kernel

end DarkSilk
