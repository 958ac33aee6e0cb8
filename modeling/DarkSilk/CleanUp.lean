import DarkSilk.Iteration
import DarkSilk.StormnodePings
import DarkSilk.BudgetVotes
import DarkSilk.SmsgBuckets

/-! The loops that remove what is old: from the lists of stormnodes, from the finalized budgets
and from the buckets of secure messages. Each erases elements while an iterator goes through the
container, and each has a place where it refers to something that is not there any more. -/
namespace DarkSilk

open PrefixCode Iteration List

namespace Stormnode

/-- The list and the maps that are cleaned. The last one belongs to the synchronisation. -/
structure CleanedMan where
  vStormnodes : List CStormnode
  mAskedUsForStormnodeList : IterMap (BitVec 128) Int64
  mWeAskedForStormnodeList : IterMap (BitVec 128) Int64
  mWeAskedForStormnodeListEntry : IterMap COutPoint Int64
  mapSeenStormnodeBroadcast : IterMap UInt256 CStormnodeBroadcast
  mapSeenStormnodePing : IterMap UInt256 CStormnodePing
  mapSeenSyncSNB : HashMap ℤ

variable (K : Crypto) (E : Env) (forceExpiredRemoval : Bool)

def CStormnode.isRemoved (sn : CStormnode) : Bool :=
  sn.activeState = .STORMNODE_REMOVE || sn.activeState = .STORMNODE_VIN_SPENT ||
    (forceExpiredRemoval && sn.activeState = .STORMNODE_EXPIRED) || sn.protocolVersion < E.minStormnodePaymentsProto

def CStormnodeBroadcast.isExpired (snb : CStormnodeBroadcast) : Bool :=
  snb.lastPing.sigTime < E.nTime-STORMNODE_REMOVAL_SECONDS*2

def CStormnodePing.isExpired (snp : CStormnodePing) : Bool :=
  snp.sigTime < E.nTime-STORMNODE_REMOVAL_SECONDS*2

def removeStormnodes : ℕ → ℕ → CleanedMan → Except Fault CleanedMan
  | 0, i, man => if i = man.vStormnodes.length then .ok man else .error .outOfFuel
  | fuel+1, i, man =>
    if i = man.vStormnodes.length then .ok man
    else match man.vStormnodes[i]? with
      | none => .error .dangling
      | some sn =>
        if sn.isRemoved E forceExpiredRemoval then do
          let (seen,_,sync) ← man.mapSeenStormnodeBroadcast.walkAll (IterMap.sweep (fun e => e.2.vin = sn.vin)
            fun (sync : HashMap ℤ) e => sync.erase e.1) man.mapSeenSyncSNB
          let (asked,_,_) ← man.mWeAskedForStormnodeListEntry.walkAll
            (IterMap.sweep (fun e => e.1 = sn.vin.prevout) fun s _ => s) ()
          removeStormnodes fuel i { man with
            vStormnodes := man.vStormnodes.eraseIdx i
            mapSeenStormnodeBroadcast := seen
            mapSeenSyncSNB := sync
            mWeAskedForStormnodeListEntry := asked }
        else removeStormnodes fuel (i+1) man

/-- Remove the old pings. What the log names is the broadcast at the iterator of the loop before,
and the log's arguments are evaluated whether it is switched on or not. -/
def removePings (seen : IterMap UInt256 CStormnodeBroadcast) (it3 : Option UInt256)
    (pings : IterMap UInt256 CStormnodePing)
    (e : UInt256 × CStormnodePing) (s : Unit) :
    Except Fault (IterMap UInt256 CStormnodePing × Option UInt256 × Unit) :=
  if e.2.isExpired E then do
    let _ ← seen.get it3
    let next ← pings.next (some e.1)
    let pings ← pings.erase (some e.1)
    .ok (pings,next,s)
  else do
    let next ← pings.next (some e.1)
    .ok (pings,next,s)

def CleanedMan.checkAndRemove (man : CleanedMan) : Except Fault CleanedMan := do
  let man := { man with vStormnodes := man.vStormnodes.map (CStormnode.check E false) }
  let man ← removeStormnodes E forceExpiredRemoval man.vStormnodes.length 0 man
  let (askedUs,_,_) ← man.mAskedUsForStormnodeList.walkAll (IterMap.sweep (fun e => e.2 < E.nTime) fun s _ => s) ()
  let (weAsked,_,_) ← man.mWeAskedForStormnodeList.walkAll (IterMap.sweep (fun e => e.2 < E.nTime) fun s _ => s) ()
  let (entry,_,_) ← man.mWeAskedForStormnodeListEntry.walkAll (IterMap.sweep (fun e => e.2 < E.nTime) fun s _ => s) ()
  let (seen,it3,sync) ← man.mapSeenStormnodeBroadcast.walkAll (IterMap.sweep (fun e => e.2.isExpired E)
    fun (sync : HashMap ℤ) e => sync.erase (e.2.getHash K)) man.mapSeenSyncSNB
  let (pings,_,_) ← man.mapSeenStormnodePing.walkAll (removePings E seen it3) ()
  return { man with
    mAskedUsForStormnodeList := askedUs
    mWeAskedForStormnodeList := weAsked
    mWeAskedForStormnodeListEntry := entry
    mapSeenStormnodeBroadcast := seen
    mapSeenSyncSNB := sync
    mapSeenStormnodePing := pings }

structure Removed (l : List CStormnode) (man man' : CleanedMan) : Prop where
  seen : man'.mapSeenStormnodeBroadcast = man.mapSeenStormnodeBroadcast.filter fun e =>
    !l.any fun sn => sn.isRemoved E forceExpiredRemoval && e.2.vin = sn.vin
  asked : man'.mWeAskedForStormnodeListEntry = man.mWeAskedForStormnodeListEntry.filter fun e =>
    !l.any fun sn => sn.isRemoved E forceExpiredRemoval && e.1 = sn.vin.prevout
  askedUs : man'.mAskedUsForStormnodeList = man.mAskedUsForStormnodeList
  weAsked : man'.mWeAskedForStormnodeList = man.mWeAskedForStormnodeList
  pings : man'.mapSeenStormnodePing = man.mapSeenStormnodePing

theorem filter_any_cons {K V : Type} {m m₁ m' : IterMap K V} {sn : CStormnode} {l : List CStormnode}
    {p : K × V → CStormnode → Bool} (h1 : m₁ = m.filter fun e => !p e sn)
    (h : m' = m₁.filter fun e => !l.any (p e)) :
    m' = m.filter fun e => !(sn::l).any (p e) := by
  subst h1 h
  apply IterMap.ext
  show (m.entries.filter _).filter _ = m.entries.filter _
  rw [filter_filter]
  refine filter_congr fun e _ => ?_
  rw [any_cons,Bool.not_or,Bool.and_comm]

theorem getElem?_split {α : Type} (l₁ l₂) (a : α) : (l₁++a::l₂)[l₁.length]? = some a := by
  simp

theorem Removed.nil (man) : Removed E forceExpiredRemoval [] man man :=
  ⟨IterMap.ext (filter_true _).symm,IterMap.ext (filter_true _).symm,rfl,rfl,rfl⟩

theorem Removed.cons_kept {sn} (hsn : sn.isRemoved E forceExpiredRemoval = false) {l man man'}
    (h : Removed E forceExpiredRemoval l man man') :
    Removed E forceExpiredRemoval (sn::l) man man' := by
  refine ⟨?_,?_,h.askedUs,h.weAsked,h.pings⟩
  · rw [h.seen]
    simp only [any_cons,hsn,Bool.false_and,Bool.false_or]
  · rw [h.asked]
    simp only [any_cons,hsn,Bool.false_and,Bool.false_or]

theorem removeStormnodes_eq {fuel : ℕ} {man : CleanedMan} {l₁ l₂ : List CStormnode}
    (h : man.vStormnodes = l₁++l₂) (hfuel : l₂.length ≤ fuel) :
    ∃ man', removeStormnodes E forceExpiredRemoval fuel l₁.length man = .ok man' ∧
      man'.vStormnodes = l₁++l₂.filter (fun sn => !sn.isRemoved E forceExpiredRemoval) ∧
      Removed E forceExpiredRemoval l₂ man man' := by
  induction l₂ generalizing fuel man l₁ with
  | nil =>
    refine ⟨man,?_,h,.nil E forceExpiredRemoval man⟩
    rw [append_nil] at h
    cases fuel <;> rw [removeStormnodes,if_pos (by rw [h])]
  | cons sn l₂ ih =>
    rw [length_cons] at hfuel
    obtain ⟨fuel,rfl⟩ : ∃ n, fuel = n+1 := ⟨fuel-1,by omega⟩
    have hfuel' : l₂.length ≤ fuel := Nat.le_of_succ_le_succ hfuel
    have hlength : l₁.length ≠ man.vStormnodes.length := by
      rw [h,length_append,length_cons]
      omega
    have hat : man.vStormnodes[l₁.length]? = some sn := by rw [h,getElem?_split]
    rw [removeStormnodes,if_neg hlength,hat]
    dsimp only
    cases hremoved : sn.isRemoved E forceExpiredRemoval with
    | true =>
      obtain ⟨sync,hseen⟩ :=
        IterMap.walkAll_sweep (fun e : UInt256 × CStormnodeBroadcast => decide (e.2.vin = sn.vin))
        (fun (sync : HashMap ℤ) e => sync.erase e.1) man.mapSeenStormnodeBroadcast man.mapSeenSyncSNB
      obtain ⟨_,hasked⟩ := IterMap.walkAll_sweep (fun e : COutPoint × Int64 => decide (e.1 = sn.vin.prevout))
        (fun s _ => s) man.mWeAskedForStormnodeListEntry ()
      rw [if_pos rfl,hseen,hasked]
      have herase : man.vStormnodes.eraseIdx l₁.length = l₁++l₂ := by
        rw [h,eraseIdx_append_of_length_le le_rfl,Nat.sub_self]
        rfl
      obtain ⟨man',hrun,hlist,hrest⟩ := @ih fuel { man with
        vStormnodes := man.vStormnodes.eraseIdx l₁.length
        mapSeenStormnodeBroadcast := man.mapSeenStormnodeBroadcast.filter fun e => !decide (e.2.vin = sn.vin)
        mapSeenSyncSNB := sync
        mWeAskedForStormnodeListEntry := man.mWeAskedForStormnodeListEntry.filter fun e => !decide (e.1 = sn.vin.prevout) }
        l₁ herase hfuel'
      refine ⟨man',hrun,?_,?_,?_,hrest.askedUs,hrest.weAsked,hrest.pings⟩
      · rw [hlist,filter_cons_of_neg (by simp [hremoved])]
      · refine filter_any_cons ?_ hrest.seen
        simp only [hremoved,Bool.true_and]
      · refine filter_any_cons ?_ hrest.asked
        simp only [hremoved,Bool.true_and]
    | false =>
      have h' : man.vStormnodes = (l₁++[sn])++l₂ := by rw [h,append_assoc]; rfl
      obtain ⟨man',hrun,hlist,hrest⟩ := ih h' hfuel'
      rw [length_append,length_singleton] at hrun
      refine ⟨man',hrun,?_,hrest.cons_kept E forceExpiredRemoval hremoved⟩
      rw [hlist,filter_cons_of_pos (by simp [hremoved]),append_assoc]
      rfl

theorem turns_removePings (seen) :
    IterMap.Turns id (fun e => e.2.isExpired E) (fun e =>
      e.2.isExpired E) (removePings E seen none) := by
  intro m L₁ L₂ k ping s h _
  cases hexpired : ping.isExpired E with
  | true =>
    refine .inl ⟨hexpired,?_⟩
    rw [removePings,if_pos hexpired]
    rfl
  | false =>
    have hturn : removePings E seen none m (k,ping) s = .ok (m,L₂.head?.map Prod.fst,s) := by
      rw [removePings,if_neg (by rw [hexpired]; exact Bool.false_ne_true),IterMap.next_of_view h]
      rfl
    refine .inr ⟨hexpired,m,s,hturn,?_⟩
    rw [h,if_neg]
    show ¬ ping.isExpired E
    rw [hexpired]
    exact Bool.false_ne_true

structure Cleaned (man man' : CleanedMan) : Prop where
  list : man'.vStormnodes = (man.vStormnodes.map (CStormnode.check E false)).filter fun sn =>
    !sn.isRemoved E forceExpiredRemoval
  askedUs : man'.mAskedUsForStormnodeList = man.mAskedUsForStormnodeList.filter fun e => !decide (e.2 < E.nTime)
  weAsked : man'.mWeAskedForStormnodeList = man.mWeAskedForStormnodeList.filter fun e => !decide (e.2 < E.nTime)
  entry : man'.mWeAskedForStormnodeListEntry = man.mWeAskedForStormnodeListEntry.filter fun e =>
    !(man.vStormnodes.map (CStormnode.check E false)).any (fun sn =>
      sn.isRemoved E forceExpiredRemoval && e.1 = sn.vin.prevout) && !decide (e.2 < E.nTime)
  seen : man'.mapSeenStormnodeBroadcast = man.mapSeenStormnodeBroadcast.filter fun e =>
    !(man.vStormnodes.map (CStormnode.check E false)).any (fun sn =>
      sn.isRemoved E forceExpiredRemoval && e.2.vin = sn.vin) && !e.2.isExpired E
  pings : man'.mapSeenStormnodePing = man.mapSeenStormnodePing.filter fun e => !e.2.isExpired E

/-- The loops before the last one have no fault. At the last, the iterator over the broadcasts
stands at the end. -/
theorem checkAndRemove_cases (man) :
    (man.mapSeenStormnodePing.entries.any fun e => e.2.isExpired E) ∧
        man.checkAndRemove K E forceExpiredRemoval = .error .dangling ∨
      (man.mapSeenStormnodePing.entries.any fun e => e.2.isExpired E) = false ∧
        ∃ man', man.checkAndRemove K E forceExpiredRemoval = .ok man' ∧
        Cleaned E forceExpiredRemoval man man' := by
  obtain ⟨man₁,hrun,hlist,hremoved⟩ := removeStormnodes_eq E forceExpiredRemoval
    (show ({ man with vStormnodes := man.vStormnodes.map (CStormnode.check E false) } : CleanedMan).vStormnodes =
      []++man.vStormnodes.map (CStormnode.check E false) from rfl) le_rfl
  obtain ⟨_,haskedUs⟩ :=
    IterMap.walkAll_sweep (fun e : BitVec 128 × Int64 => decide (e.2 < E.nTime)) (fun s _ => s)
    man₁.mAskedUsForStormnodeList ()
  obtain ⟨_,hweAsked⟩ :=
    IterMap.walkAll_sweep (fun e : BitVec 128 × Int64 => decide (e.2 < E.nTime)) (fun s _ => s)
    man₁.mWeAskedForStormnodeList ()
  obtain ⟨_,hentry⟩ := IterMap.walkAll_sweep (fun e : COutPoint × Int64 => decide (e.2 < E.nTime)) (fun s _ => s)
    man₁.mWeAskedForStormnodeListEntry ()
  obtain ⟨sync,hseen⟩ := IterMap.walkAll_sweep (fun e : UInt256 × CStormnodeBroadcast => e.2.isExpired E)
    (fun (sync : HashMap ℤ) e => sync.erase (e.2.getHash K)) man₁.mapSeenStormnodeBroadcast man₁.mapSeenSyncSNB
  have hpings := IterMap.walkAll_cases
    (turns_removePings E (man₁.mapSeenStormnodeBroadcast.filter fun e => !e.2.isExpired E)) man₁.mapSeenStormnodePing ()
  rw [hremoved.pings,IterMap.view_id] at hpings
  unfold CleanedMan.checkAndRemove
  dsimp only
  rw [show removeStormnodes E forceExpiredRemoval
    (man.vStormnodes.map (CStormnode.check E false)).length 0 _ = _ from hrun]
  simp only [bind,Except.bind,haskedUs,hweAsked,hentry,hseen,hremoved.pings]
  obtain ⟨hany,hwalk⟩ | ⟨hany,pings,_,hwalk,hentries⟩ := hpings
  · exact .inl ⟨hany,by rw [hwalk]⟩
  · rw [hwalk]
    refine .inr ⟨hany,_,rfl,hlist,?_,?_,?_,?_,?_⟩
    · rw [hremoved.askedUs]
    · rw [hremoved.weAsked]
    · rw [hremoved.asked,IterMap.filter_filter]
    · rw [hremoved.seen,IterMap.filter_filter]
    · rw [IterMap.view_id] at hentries
      exact IterMap.ext hentries

/-- The clean-up of the stormnodes does what it should exactly when no ping is due to be removed. -/
theorem cleaned_iff (man) :
    (∃ man', man.checkAndRemove K E forceExpiredRemoval = .ok man' ∧
      Cleaned E forceExpiredRemoval man man') ↔
      ∀ e ∈ man.mapSeenStormnodePing.entries, ¬ e.2.isExpired E := by
  rw [← any_eq_false]
  obtain ⟨hany,hrun⟩ | ⟨hany,hrun⟩ := checkAndRemove_cases K E forceExpiredRemoval man
  · rw [hany,hrun]
    exact ⟨nofun,nofun⟩
  · exact ⟨fun _ => hany,fun _ => hrun⟩

end Stormnode

structure FinalizedBudget extends CFinalizedBudgetBroadcast where
  fValid : Bool
  fAutoChecked : Bool
  mapVotes : HashMap CFinalizedBudgetVote

structure CleanedBudgets where
  mapFinalizedBudgets : IterMap UInt256 FinalizedBudget
  mapProposals : IterMap UInt256 CBudgetProposal

/-- What the automatic votes depend on: whether a stormnode runs here, the number drawn for each
budget, and the vote that is submitted for a budget, if it matches the proposals and is signed. -/
structure AutoEnv where
  fStormNode : Bool
  rand : UInt256 → ℕ
  submitVote : FinalizedBudget → Option CFinalizedBudgetVote

variable (P : Params) (E : BudgetEnv) (A : AutoEnv)

def autoCheck (k : UInt256) (b : FinalizedBudget) (m : IterMap UInt256 FinalizedBudget) :
    IterMap UInt256 FinalizedBudget :=
  if !A.fStormNode || b.fAutoChecked then m
  else if !P.testNet && A.rand k%4 ≠ 0 then m
  else
    let m := m.modify k fun b => { b with fAutoChecked := true }
    match A.submitVote b with
    | none => m
    | some vote => m.modify vote.nBudgetHash fun b =>
        { b with mapVotes := (addOrUpdateVote P (finalizedBudgetVotes P) vote b.mapVotes).2 }

def CFinalizedBudgetBroadcast.tooOld (nHeight : ℤ) (b : CFinalizedBudgetBroadcast) : Bool :=
  b.nBlockStart ≠ 0 && b.nBlockStart < nHeight-getBudgetPaymentCycleBlocks P

/-- Go through the finalized budgets. A budget that is removed is named in the log through the
pointer to it, after the erasure. -/
def checkBudgets (nHeight : ℤ) (m : IterMap UInt256 FinalizedBudget) (e : UInt256 × FinalizedBudget)
    (s : Unit) :
    Except Fault (IterMap UInt256 FinalizedBudget × Option UInt256 × Unit) :=
  let fValid := (e.2.isValid P E true).isOk
  let m := m.modify e.1 fun b => { b with fValid := fValid }
  if fValid then do
    let m := autoCheck P A e.1 { e.2 with fValid := fValid } m
    let next ← m.next (some e.1)
    .ok (m,next,s)
  else if e.2.tooOld P nHeight then do
    let next ← m.next (some e.1)
    let m ← m.erase (some e.1)
    let _ ← m.get (some e.1)
    .ok (m,next,s)
  else do
    let next ← m.next (some e.1)
    .ok (m,next,s)

def checkProposals (m : IterMap UInt256 CBudgetProposal) (e : UInt256 × CBudgetProposal)
    (s : Unit) :
    Except Fault (IterMap UInt256 CBudgetProposal × Option UInt256 × Unit) := do
  let m := m.modify e.1 fun p => { p with fValid := (e.2.isValid P E e.2.mapVotes true).isOk }
  let next ← m.next (some e.1)
  .ok (m,next,s)

def CleanedBudgets.checkAndRemove (s : CleanedBudgets) : Except Fault CleanedBudgets :=
  match E.nBestHeight with
  | none => .ok s
  | some nHeight => do
    let (budgets,_,_) ← s.mapFinalizedBudgets.walkAll (checkBudgets P E A nHeight) ()
    let (proposals,_,_) ← s.mapProposals.walkAll (checkProposals P E) ()
    return ⟨budgets,proposals⟩

/-- A budget that is not valid any more and too old is due to be removed. -/
def CFinalizedBudgetBroadcast.isExpired (nHeight : ℤ) (b : CFinalizedBudgetBroadcast) : Bool :=
  !(b.isValid P E true).isOk && b.tooOld P nHeight

def budgetsOf (m : IterMap UInt256 FinalizedBudget) : List (UInt256 × CFinalizedBudgetBroadcast) :=
  m.view FinalizedBudget.toCFinalizedBudgetBroadcast

theorem budgetsOf_autoCheck (k b m) : budgetsOf (autoCheck P A k b m) = budgetsOf m := by
  have hchecked : budgetsOf (m.modify k fun b => { b with fAutoChecked := true }) = budgetsOf m :=
    IterMap.view_modify k fun _ => rfl
  unfold autoCheck
  split_ifs
  · rfl
  · rfl
  · dsimp only
    cases A.submitVote b with
    | none => exact hchecked
    | some vote =>
      refine Eq.trans ?_ hchecked
      exact IterMap.view_modify vote.nBudgetHash fun _ => rfl

theorem turns_checkBudgets (nHeight) : IterMap.Turns FinalizedBudget.toCFinalizedBudgetBroadcast
    (fun e => e.2.isExpired P E nHeight) (fun e =>
      e.2.isExpired P E nHeight) (checkBudgets P E A nHeight) := by
  intro m L₁ L₂ k b s h _
  have hmarked : ∀ fValid, budgetsOf (m.modify k fun b => { b with fValid := fValid }) =
      L₁++(k,b.toCFinalizedBudgetBroadcast)::L₂ := by
    intro fValid
    rw [← h]
    exact IterMap.view_modify k fun _ => rfl
  -- a budget that stays leaves the iterator at the next one
  have hstays : ∀ {m' : IterMap UInt256 FinalizedBudget},
      budgetsOf m' = L₁++(k,b.toCFinalizedBudgetBroadcast)::L₂ →
      b.isExpired P E nHeight = false → (checkBudgets P E A nHeight m (k,b) s =
        m'.next (some k) >>= fun next => .ok (m',next,s)) →
      ∃ m' s', checkBudgets P E A nHeight m (k,b) s = .ok (m',L₂.head?.map Prod.fst,s') ∧ budgetsOf m' =
        L₁++if b.isExpired P E nHeight then L₂ else (k,b.toCFinalizedBudgetBroadcast)::L₂ := by
    intro m' hm' hexpired hturn
    rw [IterMap.next_of_view hm'] at hturn
    refine ⟨m',s,hturn,?_⟩
    rw [hm',hexpired,if_neg Bool.false_ne_true]
  cases hvalid : (b.isValid P E true).isOk with
  | true =>
    have hexpired : b.isExpired P E nHeight = false := by rw [CFinalizedBudgetBroadcast.isExpired,hvalid]; rfl
    refine .inr ⟨hexpired,hstays ((budgetsOf_autoCheck P A k { b with fValid := true } _).trans
      (hmarked true)) hexpired ?_⟩
    simp only [checkBudgets,hvalid,if_true]
  | false =>
    cases hold : b.tooOld P nHeight with
    | true =>
      have hexpired : b.isExpired P E nHeight := by rw [CFinalizedBudgetBroadcast.isExpired,hvalid,hold]; rfl
      obtain ⟨m₂,herase,-,hgone,-⟩ := IterMap.erase_of_view (hmarked false)
      refine .inl ⟨hexpired,?_⟩
      simp only [checkBudgets,hvalid,hold,if_true,bind,Except.bind,
        IterMap.next_of_view (hmarked false),herase,hgone]
      rfl
    | false =>
      have hexpired : b.isExpired P E nHeight =
          false := by rw [CFinalizedBudgetBroadcast.isExpired,hvalid,hold]; rfl
      refine .inr ⟨hexpired,hstays (hmarked false) hexpired ?_⟩
      simp only [checkBudgets,hvalid,hold]
      rfl

theorem turns_checkProposals :
    IterMap.Turns CBudgetProposal.toCBudgetProposalBroadcast (fun _ => false) (fun _ => false)
    (checkProposals P E) := by
  intro m L₁ L₂ k p s h _
  have hmarked : (m.modify k fun p' => { p' with fValid := (p.isValid P E p.mapVotes true).isOk }).view
      CBudgetProposal.toCBudgetProposalBroadcast = L₁++(k,p.toCBudgetProposalBroadcast)::L₂ := by
    rw [← h]
    exact IterMap.view_modify k fun _ => rfl
  refine .inr ⟨rfl,_,s,?_,hmarked⟩
  simp only [checkProposals,bind,Except.bind,IterMap.next_of_view hmarked]

def CFinalizedBudgetBroadcast.isDue (b : CFinalizedBudgetBroadcast) : Bool :=
  E.nBestHeight.any fun nHeight => b.isExpired P E nHeight

structure CleanedBudgets.Cleaned (s s' : CleanedBudgets) : Prop where
  budgets : budgetsOf s'.mapFinalizedBudgets = (budgetsOf s.mapFinalizedBudgets).filter fun e => !e.2.isDue P E
  proposals : s'.mapProposals.view CBudgetProposal.toCBudgetProposalBroadcast =
    s.mapProposals.view CBudgetProposal.toCBudgetProposalBroadcast

theorem CleanedBudgets.checkAndRemove_cases (s : CleanedBudgets) :
    ((budgetsOf s.mapFinalizedBudgets).any fun e => e.2.isDue P E) ∧
      s.checkAndRemove P E A = .error .dangling ∨
      ((budgetsOf s.mapFinalizedBudgets).any fun e => e.2.isDue P E) = false ∧
        ∃ s', s.checkAndRemove P E A = .ok s' ∧ s.Cleaned P E s' := by
  unfold CleanedBudgets.checkAndRemove
  cases hheight : E.nBestHeight with
  | none =>
    have hdue : ∀ b : CFinalizedBudgetBroadcast, b.isDue P E = false := by
      intro b
      rw [CFinalizedBudgetBroadcast.isDue,hheight]
      rfl
    refine .inr ⟨any_eq_false.mpr fun e _ => ?_,s,rfl,?_,rfl⟩
    · rw [hdue]
      exact Bool.false_ne_true
    · simp only [hdue]
      exact (filter_true _).symm
  | some nHeight =>
    have hdue : ∀ b : CFinalizedBudgetBroadcast, b.isDue P E = b.isExpired P E nHeight := by
      intro b
      rw [CFinalizedBudgetBroadcast.isDue,hheight]
      rfl
    simp only [hdue]
    obtain ⟨hany,hrun⟩ | ⟨hany,budgets,_,hrun,hbudgets⟩ :=
      IterMap.walkAll_cases (turns_checkBudgets P E A nHeight) s.mapFinalizedBudgets ()
    · rw [hrun]
      exact .inl ⟨hany,rfl⟩
    · obtain ⟨hfalse,-⟩ | ⟨-,proposals,_,hrun',hproposals⟩ :=
        IterMap.walkAll_cases (turns_checkProposals P E) s.mapProposals ()
      · simp at hfalse
      · rw [hrun,hrun']
        refine .inr ⟨hany,_,rfl,?_,?_⟩
        · simp only [hdue]
          exact hbudgets
        · exact hproposals.trans (filter_true _)

theorem CleanedBudgets.cleaned_iff (s : CleanedBudgets) :
    (∃ s', s.checkAndRemove P E A = .ok s' ∧ s.Cleaned P E s') ↔
      ∀ e ∈ budgetsOf s.mapFinalizedBudgets, ¬ e.2.isDue P E := by
  rw [← any_eq_false]
  obtain ⟨hany,hrun⟩ | ⟨hany,hrun⟩ := s.checkAndRemove_cases P E A
  · rw [hany,hrun]
    exact ⟨nofun,nofun⟩
  · exact ⟨fun _ => hany,fun _ => hrun⟩

namespace Smsg

/-- Go through the buckets. The old ones are erased, and the iterator is advanced at the end of
the turn in any case. The list is that of the locks that ran out, with their peers. -/
def expireBuckets (cutoffTime : ℤ) (m : IterMap ℤ SecMsgBucket) (e : ℤ × SecMsgBucket)
    (vTimedOutLocks : List (ℤ × ℤ)) :
    Except Fault (IterMap ℤ SecMsgBucket × Option ℤ × List (ℤ × ℤ)) :=
  if e.1 < cutoffTime then do
    let m ← m.erase (some e.1)
    let next ← m.next (some e.1)
    .ok (m,next,vTimedOutLocks)
  else do
    let m := m.modify e.1 SecMsgBucket.tick
    let next ← m.next (some e.1)
    .ok (m,next,if 0 < e.2.nLockCount ∧ e.2.nLockCount-1 = 0 then vTimedOutLocks++[(e.1,e.2.nLockPeerId)] else vTimedOutLocks)

def expireAll (now : ℤ) (m : IterMap ℤ SecMsgBucket) :
    Except Fault (IterMap ℤ SecMsgBucket × Option ℤ × List (ℤ × ℤ)) :=
  m.walkAll (expireBuckets (now-SMSG_RETENTION)) []

def tokensOf (m : IterMap ℤ SecMsgBucket) : List (ℤ × SortedSet SecMsgToken SecMsgToken.key) :=
  m.view SecMsgBucket.setTokens

theorem turns_expireBuckets (cutoffTime) :
    IterMap.Turns SecMsgBucket.setTokens (fun e => e.1 < cutoffTime)
    (fun e => e.1 < cutoffTime) (expireBuckets cutoffTime) := by
  intro m L₁ L₂ k b s h _
  by_cases hold : k < cutoffTime
  · obtain ⟨m',herase,-,-,hgone⟩ := IterMap.erase_of_view h
    refine .inl ⟨decide_eq_true hold,?_⟩
    simp only [expireBuckets,hold,if_true,bind,Except.bind,herase,hgone]
  · have hticked : (m.modify k SecMsgBucket.tick).view SecMsgBucket.setTokens = L₁++(k,b.setTokens)::L₂ := by
      rw [← h]
      exact IterMap.view_modify k SecMsgBucket.tick_setTokens
    refine .inr ⟨decide_eq_false hold,?_⟩
    simp only [expireBuckets,hold,if_false,decide_false,Bool.false_eq_true]
    rw [IterMap.next_of_view hticked]
    exact ⟨_,_,rfl,hticked⟩

/-- The buckets in the retention time are kept and the others are gone, exactly when there are
no others. -/
theorem expireAll_iff (now m) :
    (∃ x, expireAll now m = .ok x ∧ tokensOf x.1 = (tokensOf m).filter fun e =>
      !decide (e.1 < now-SMSG_RETENTION)) ↔
      ∀ e ∈ m.entries, ¬ e.1 < now-SMSG_RETENTION := by
  have hall : (∀ e ∈ m.entries, ¬ e.1 < now-SMSG_RETENTION) ↔
      ((tokensOf m).any fun e => e.1 < now-SMSG_RETENTION) = false := by
    rw [any_eq_false,tokensOf,IterMap.view,forall_mem_map]
    simp
  rw [hall]
  obtain ⟨hany,hrun⟩ | ⟨hany,m',s',hrun,hm'⟩ :=
    IterMap.walkAll_cases (turns_expireBuckets (now-SMSG_RETENTION)) m []
  · rw [tokensOf,hany,expireAll,hrun]
    simp
  · exact ⟨fun _ => hany,fun _ => ⟨_,hrun,hm'⟩⟩

end Smsg

/-- Each of the three loops has no fault and removes exactly what is due just when it does not
come to the place that refers to what is gone: no ping, no budget and no bucket is due. -/
theorem cleanUp_safe_iff (K : Stormnode.Crypto) (E : Stormnode.Env) (forceExpiredRemoval : Bool)
    (man : Stormnode.CleanedMan)
    (P : Params) (B : BudgetEnv) (A : AutoEnv) (s : CleanedBudgets) (now : ℤ)
    (m : IterMap ℤ Smsg.SecMsgBucket) :
    ((∃ man', man.checkAndRemove K E forceExpiredRemoval = .ok man' ∧
        Stormnode.Cleaned E forceExpiredRemoval man man') ↔
      ∀ e ∈ man.mapSeenStormnodePing.entries,
        ¬ e.2.sigTime < E.nTime-Stormnode.STORMNODE_REMOVAL_SECONDS*2) ∧
    ((∃ s', s.checkAndRemove P B A = .ok s' ∧ s.Cleaned P B s') ↔
      ∀ e ∈ s.mapFinalizedBudgets.entries, ∀ nHeight ∈ B.nBestHeight,
        (e.2.isValid P B true).isOk = true ∨ e.2.nBlockStart = 0 ∨
          nHeight-getBudgetPaymentCycleBlocks P ≤ e.2.nBlockStart) ∧
    ((∃ x, Smsg.expireAll now m = .ok x ∧
        Smsg.tokensOf x.1 = (Smsg.tokensOf m).filter fun e =>
          !decide (e.1 < now-Smsg.SMSG_RETENTION)) ↔
      ∀ e ∈ m.entries, ¬ e.1 < now-Smsg.SMSG_RETENTION) := by
  refine ⟨?_,?_,Smsg.expireAll_iff now m⟩
  · rw [Stormnode.cleaned_iff]
    simp only [Stormnode.CStormnodePing.isExpired,decide_eq_true_eq]
  · rw [CleanedBudgets.cleaned_iff,budgetsOf,IterMap.view,forall_mem_map]
    refine forall₂_congr fun e _ => ?_
    simp only [CFinalizedBudgetBroadcast.isDue,Prod.map]
    cases B.nBestHeight with
    | none => simp
    | some nHeight =>
      simp only [Option.any_some,CFinalizedBudgetBroadcast.isExpired,CFinalizedBudgetBroadcast.tooOld,
        Option.mem_def,Option.some.injEq,forall_eq',Bool.and_eq_true,Bool.not_eq_true',decide_eq_true_eq]
      cases (e.2.isValid P B true).isOk with
      | true => simp
      | false =>
        simp only [true_and,Bool.false_eq_true,false_or]
        omega

namespace Sample

def stalePing : Stormnode.CleanedMan :=
  ⟨[],.empty,.empty,.empty,.empty,⟨[(1,Stormnode.Sample.pingAt 0)],List.nodup_singleton _⟩,∅⟩

def staleBudget : CleanedBudgets :=
  ⟨⟨[(1,⟨⟨[0x6d],50,[⟨3,[0x51],100⟩],9⟩,true,false,∅⟩)],List.nodup_singleton _⟩,.empty⟩

def staleBucket : IterMap ℤ Smsg.SecMsgBucket := ⟨[(0,.empty)],List.nodup_singleton _⟩

def staleEnv : BudgetEnv where
  fLiteMode := false
  isBlockchainSynced := true
  isSynced := true
  nTime := 10000
  find := fun _ => none
  verifyMessage := fun _ _ _ => false
  countEnabled := 20
  nBestHeight := some 90000
  mainHeight := fun _ => none
  getTransaction := fun _ => none
  getIXConfirmations := fun _ => 0

end Sample

open Sample

/-- In each loop the first old element leads to the fault. -/
theorem cleanUp_dangling :
    stalePing.checkAndRemove Stormnode.Sample.crypto (Stormnode.Sample.envAt 20000) false =
      .error .dangling ∧
    staleBudget.checkAndRemove params staleEnv ⟨false,fun _ => 0,fun _ => none⟩ = .error .dangling ∧
    Smsg.expireAll 1000000 staleBucket = .error .dangling :=
  ⟨rfl,rfl,rfl⟩

end DarkSilk
