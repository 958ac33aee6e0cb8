import DarkSilk.ListIndex
import DarkSilk.MapSum
import DarkSilk.OrphanPool

/-! Which blocks are asked from which peer. Every peer has a list of blocks to ask for and
a list of blocks in flight, and two maps lead from the hash of a block to its place in
these lists. -/
namespace DarkSilk

open Std ListIndex MapSum List Function
open Option hiding map_map

def MAX_BLOCKS_IN_TRANSIT_PER_PEER : ℤ := 128

structure QueuedBlock where
  hash : UInt256
  pindex : Option UInt256
  nTime : ℤ
  nValidatedQueuedBefore : ℤ
  fValidatedHeaders : Bool
deriving DecidableEq

/-- The part of the state of a peer that counts for the downloads. The elements of the
two lists stand with their addresses, which an iterator holds. -/
structure CNodeState where
  fSyncStarted : Bool := false
  nStallingSince : ℤ := 0
  vBlocksInFlight : List (ℕ × QueuedBlock) := []
  nBlocksInFlight : ℤ := 0
  fPreferredDownload : Bool := false
  vBlocksToDownload : List (ℕ × UInt256) := []
  nBlocksToDownload : ℤ := 0

structure Downloads where
  mapNodeState : ExtTreeMap ℤ CNodeState := ∅
  mapBlocksInFlight : HashMap (ℤ × ℕ) := ∅
  mapBlocksToDownload : HashMap (ℤ × ℕ) := ∅
  nQueuedValidatedHeaders : ℤ := 0
  nSyncStarted : ℤ := 0
  nPreferredDownload : ℤ := 0
  orphans : OrphanMaps := .empty
  /-- The address of the next list element. -/
  nextAddress : ℕ := 0

namespace Downloads

def initializeNode (s : Downloads) (nodeid : ℤ) : Downloads :=
  { s with mapNodeState := s.mapNodeState.insertIfNew nodeid {} }

def finalizeInFlight (s : Downloads) (entry : ℕ × QueuedBlock) : Downloads :=
  { s with
    nQueuedValidatedHeaders := s.nQueuedValidatedHeaders-entry.2.fValidatedHeaders.toNat
    mapBlocksInFlight := s.mapBlocksInFlight.erase entry.2.hash }

def finalizeToDownload (s : Downloads) (entry : ℕ × UInt256) : Downloads :=
  { s with mapBlocksToDownload := s.mapBlocksToDownload.erase entry.2 }

/-- A peer that is not known has no state to point to, and the source does not test it. -/
def finalizeNode (P : Params) (s : Downloads) (nodeid : ℤ) : Option Downloads :=
  match s.mapNodeState[nodeid]? with
  | none => none
  | some state =>
    let s := { s with nSyncStarted := if state.fSyncStarted then s.nSyncStarted-1 else s.nSyncStarted }
    let s := state.vBlocksInFlight.foldl finalizeInFlight s
    let s := state.vBlocksToDownload.foldl finalizeToDownload s
    some { s with
      orphans := s.orphans.eraseOrphansFor P nodeid
      nPreferredDownload := s.nPreferredDownload-state.fPreferredDownload.toNat
      mapNodeState := s.mapNodeState.erase nodeid }

/-- Take a block out of the flight. The iterator must still point to an element. -/
def receiveInFlight (s : Downloads) (hash : UInt256) : Option Downloads :=
  match s.mapBlocksInFlight[hash]? with
  | none => some s
  | some (n,it) =>
    (s.mapNodeState[n]?).bind fun state => (deref state.vBlocksInFlight it).map fun entry =>
      { s with
        nQueuedValidatedHeaders := s.nQueuedValidatedHeaders-entry.fValidatedHeaders.toNat
        mapNodeState := s.mapNodeState.insert n { state with
          vBlocksInFlight := eraseAt state.vBlocksInFlight it
          nBlocksInFlight := state.nBlocksInFlight-1
          nStallingSince := 0 }
        mapBlocksInFlight := s.mapBlocksInFlight.erase hash }

def receiveToDownload (s : Downloads) (hash : UInt256) : Option Downloads :=
  match s.mapBlocksToDownload[hash]? with
  | none => some s
  | some (n,it) =>
    (s.mapNodeState[n]?).bind fun state => (deref state.vBlocksToDownload it).map fun _ =>
      { s with
        mapNodeState := s.mapNodeState.insert n { state with
          vBlocksToDownload := eraseAt state.vBlocksToDownload it
          nBlocksToDownload := state.nBlocksToDownload-1 }
        mapBlocksToDownload := s.mapBlocksToDownload.erase hash }

def markBlockAsReceived (s : Downloads) (hash : UInt256) : Option Downloads :=
  (s.receiveInFlight hash).bind fun s => s.receiveToDownload hash

def addBlockToQueue (s : Downloads) (nodeid : ℤ) (hash : UInt256) : Bool × Downloads :=
  if s.mapBlocksToDownload.contains hash || s.mapBlocksInFlight.contains hash then (false,s)
  else
    match s.mapNodeState[nodeid]? with
    | none => (false,s)
    | some state =>
      (true,{ s with
        mapNodeState := s.mapNodeState.insert nodeid { state with
          vBlocksToDownload := state.vBlocksToDownload++[(s.nextAddress,hash)]
          nBlocksToDownload := state.nBlocksToDownload+1 }
        mapBlocksToDownload := s.mapBlocksToDownload.insert hash (nodeid,s.nextAddress)
        nextAddress := s.nextAddress+1 })

/-- The source asserts that the peer is known. -/
def markBlockAsInFlight (s : Downloads) (nodeid : ℤ) (hash : UInt256) (pindex : Option UInt256)
    (nTime : ℤ) :
    Option Downloads :=
  if s.mapNodeState.contains nodeid then
    (s.markBlockAsReceived hash).bind fun s => (s.mapNodeState[nodeid]?).map fun state =>
      let newentry : QueuedBlock := ⟨hash,pindex,nTime,s.nQueuedValidatedHeaders,pindex.isSome⟩
      { s with
        nQueuedValidatedHeaders := s.nQueuedValidatedHeaders+newentry.fValidatedHeaders.toNat
        mapNodeState := s.mapNodeState.insert nodeid { state with
          vBlocksInFlight := state.vBlocksInFlight++[(s.nextAddress,newentry)]
          nBlocksInFlight := state.nBlocksInFlight+1 }
        mapBlocksInFlight := s.mapBlocksInFlight.insert hash (nodeid,s.nextAddress)
        nextAddress := s.nextAddress+1 }
  else none

/-- The loop of `SendMessages` that asks a connected peer for the blocks of its list, with
the hashes that it asks for. -/
def requestBlocks (nodeid : ℤ) (nTime : ℕ → ℤ) : ℕ → Downloads → Option (List UInt256 × Downloads)
  | 0, _ => none
  | k+1, s =>
    match s.mapNodeState[nodeid]? with
    | none => none
    | some state =>
      if state.nBlocksToDownload ≠ 0 ∧ state.nBlocksInFlight < MAX_BLOCKS_IN_TRANSIT_PER_PEER then
        match state.vBlocksToDownload with
        | [] => none
        | (_,hash)::_ =>
          (s.markBlockAsInFlight nodeid hash none (nTime k)).bind fun s =>
            (requestBlocks nodeid nTime k s).map fun r => (hash::r.1,r.2)
      else some ([],s)

end Downloads

inductive DownloadCall where
  | initializeNode (nodeid : ℤ)
  | addBlockToQueue (nodeid : ℤ) (hash : UInt256)
  | markBlockAsInFlight (nodeid : ℤ) (hash : UInt256) (pindex : Option UInt256) (nTime : ℤ)
  | markBlockAsReceived (hash : UInt256)
  | finalizeNode (nodeid : ℤ)
  | requestBlocks (nodeid : ℤ) (nTime : ℕ → ℤ)

/-- One call. It has no result where the program is stopped: by the assertion, or by a
pointer that leads nowhere. -/
def Downloads.call (P : Params) (s : Downloads) : DownloadCall → Option Downloads
  | .initializeNode nodeid => some (s.initializeNode nodeid)
  | .addBlockToQueue nodeid hash => some (s.addBlockToQueue nodeid hash).2
  | .markBlockAsInFlight nodeid hash pindex nTime => s.markBlockAsInFlight nodeid hash pindex nTime
  | .markBlockAsReceived hash => s.markBlockAsReceived hash
  | .finalizeNode nodeid => s.finalizeNode P nodeid
  | .requestBlocks nodeid nTime =>
    (s.requestBlocks nodeid nTime (MAX_BLOCKS_IN_TRANSIT_PER_PEER.toNat+1)).map Prod.snd

variable {β : Type} {n : ℤ} {st : CNodeState} {s t : Downloads}

variable {m : ExtTreeMap ℤ CNodeState}

def listOf (f : CNodeState → List β) (m : ExtTreeMap ℤ CNodeState) (n : ℤ) : List β :=
  (m[n]?).elim [] f

theorem listOf_of_getElem? (f : CNodeState → List β) (h : m[n]? = some st) :
    listOf f m n = f st := by
  simp [listOf,h]

theorem listOf_insert (f : CNodeState → List β) (m : ExtTreeMap ℤ CNodeState) (n : ℤ)
    (st : CNodeState) :
    listOf f (m.insert n st) = Function.update (listOf f m) n (f st) := by
  funext n'
  by_cases hn : n' = n
  · subst hn
    simp [listOf]
  · rw [update_of_ne hn]
    simp [listOf,ExtTreeMap.getElem?_insert,Ne.symm hn]

theorem listOf_erase (f : CNodeState → List β) (m : ExtTreeMap ℤ CNodeState) (n : ℤ) :
    listOf f (m.erase n) = Function.update (listOf f m) n [] := by
  funext n'
  by_cases hn : n' = n
  · subst hn
    simp [listOf]
  · rw [update_of_ne hn]
    simp [listOf,ExtTreeMap.getElem?_erase,Ne.symm hn]

theorem listOf_insert_same (f : CNodeState → List β) (h : listOf f m n = f st) :
    listOf f (m.insert n st) = listOf f m := by
  rw [listOf_insert,← h,update_eq_self]

theorem mem_listOf {f : CNodeState → List β} {b : β} :
    b ∈ listOf f m n ↔ ∃ st, m[n]? = some st ∧ b ∈ f st := by
  cases h : m[n]? with
  | none => simp [listOf,h]
  | some st => simp [listOf,h]

def CNodeState.validated (st : CNodeState) : ℕ :=
  st.vBlocksInFlight.countP fun e => e.2.fValidatedHeaders

structure CNodeState.Counted (nextAddress : ℕ) (st : CNodeState) : Prop where
  inFlight : st.nBlocksInFlight = st.vBlocksInFlight.length
  toDownload : st.nBlocksToDownload = st.vBlocksToDownload.length
  inFlight_lt : ∀ e ∈ st.vBlocksInFlight, e.1 < nextAddress
  toDownload_lt : ∀ e ∈ st.vBlocksToDownload, e.1 < nextAddress

theorem CNodeState.Counted.mono {a b} (h : st.Counted a) (hab : a ≤ b) : st.Counted b :=
  ⟨h.inFlight,h.toDownload,fun e he => (h.inFlight_lt e he).trans_le hab,
    fun e he => (h.toDownload_lt e he).trans_le hab⟩

namespace Downloads

/-- The maps lead to the elements of the lists, no block stands in lists of both kinds and
everything is counted. -/
structure Bookkeeping (s : Downloads) : Prop where
  toDownload : ListIndex.Indexed (listOf CNodeState.vBlocksToDownload s.mapNodeState) id s.mapBlocksToDownload
  inFlight : ListIndex.Indexed (listOf CNodeState.vBlocksInFlight s.mapNodeState) QueuedBlock.hash s.mapBlocksInFlight
  disjoint : ∀ hash : UInt256, s.mapBlocksToDownload[hash]? = none ∨ s.mapBlocksInFlight[hash]? = none
  counted : ∀ (n : ℤ) (st : CNodeState), s.mapNodeState[n]? = some st → st.Counted s.nextAddress
  validated : s.nQueuedValidatedHeaders = entrySum (fun _ st => (st.validated : ℤ)) s.mapNodeState

variable {hash : UInt256}

theorem bookkeeping_empty : Bookkeeping {} where
  toDownload := ⟨fun n => by simp [listOf],by simp [listOf]⟩
  inFlight := ⟨fun n => by simp [listOf],by simp [listOf]⟩
  disjoint := by simp
  counted := by simp
  validated := by simp

variable {st' : CNodeState}

theorem counted_insert {a b : ℕ}
    (h : ∀ (n : ℤ) (st : CNodeState), m[n]? = some st → st.Counted a) (hab : a ≤ b)
    (hst : st.Counted b)
    (n' : ℤ) (st' : CNodeState) (hn' : (m.insert n st)[n']? = some st') : st'.Counted b := by
  rw [ExtTreeMap.getElem?_insert] at hn'
  split_ifs at hn'
  · exact some.inj hn' ▸ hst
  · exact (h n' st' hn').mono hab

theorem Bookkeeping.initializeNode (h : s.Bookkeeping) (n : ℤ) :
    (s.initializeNode n).Bookkeeping := by
  unfold Downloads.initializeNode
  cases hn : s.mapNodeState[n]? with
  | some st =>
    have hsame : s.mapNodeState.insertIfNew n {} = s.mapNodeState := by
      apply ExtTreeMap.ext_getElem?
      intro n'
      rw [ExtTreeMap.getElem?_insertIfNew,if_neg]
      rintro ⟨-,hnot⟩
      rw [ExtTreeMap.mem_iff_isSome_getElem?,hn] at hnot
      exact hnot rfl
    rw [hsame]
    exact h
  | none =>
    have hnew : s.mapNodeState.insertIfNew n {} = s.mapNodeState.insert n {} := by
      apply ExtTreeMap.ext_getElem?
      intro n'
      rw [ExtTreeMap.getElem?_insertIfNew,ExtTreeMap.getElem?_insert]
      refine if_congr (and_iff_left_of_imp fun _ => ?_) rfl rfl
      rw [ExtTreeMap.mem_iff_isSome_getElem?,hn]
      exact Bool.false_ne_true
    have hlist : ∀ {β : Type} (f : CNodeState → List β), listOf f s.mapNodeState n = [] := fun f => by
      simp [listOf,hn]
    rw [hnew]
    refine ⟨?_,?_,h.disjoint,counted_insert h.counted le_rfl ⟨rfl,rfl,by simp,by simp⟩,?_⟩
    · rw [listOf_insert_same _ (hlist _)]
      exact h.toDownload
    · rw [listOf_insert_same _ (hlist _)]
      exact h.inFlight
    · rw [entrySum_insert_new hn,h.validated]
      simp [CNodeState.validated]

theorem Bookkeeping.replace (h : s.Bookkeeping) (hn : s.mapNodeState[n]? = some st)
    (ht : t.mapNodeState = s.mapNodeState.insert n st')
    (hD : ListIndex.Indexed (Function.update (listOf CNodeState.vBlocksToDownload s.mapNodeState) n
      st'.vBlocksToDownload) id
      t.mapBlocksToDownload)
    (hF : ListIndex.Indexed (Function.update (listOf CNodeState.vBlocksInFlight s.mapNodeState) n
      st'.vBlocksInFlight)
      QueuedBlock.hash t.mapBlocksInFlight)
    (hdisj : ∀ hash : UInt256, t.mapBlocksToDownload[hash]? = none ∨ t.mapBlocksInFlight[hash]? =
      none)
    (hle : s.nextAddress ≤ t.nextAddress) (hst : st'.Counted t.nextAddress)
    (hval : t.nQueuedValidatedHeaders+st.validated = s.nQueuedValidatedHeaders+st'.validated) :
    t.Bookkeeping := by
  refine ⟨?_,?_,hdisj,?_,?_⟩
  · rw [ht,listOf_insert]
    exact hD
  · rw [ht,listOf_insert]
    exact hF
  · rw [ht]
    exact counted_insert h.counted hle hst
  · have hsum := entrySum_replace (f := fun _ st => (st.validated : ℤ)) st' hn
    rw [ht]
    have hs := h.validated
    omega

theorem Bookkeeping.addBlockToQueue (h : s.Bookkeeping) (n : ℤ) (hash : UInt256) :
    (s.addBlockToQueue n hash).2.Bookkeeping := by
  unfold Downloads.addBlockToQueue
  split_ifs with hc
  · exact h
  · rw [Bool.or_eq_true,not_or,ExtTreeMap.contains_eq_isSome_getElem?,
      ExtTreeMap.contains_eq_isSome_getElem?,not_isSome_iff_eq_none,not_isSome_iff_eq_none] at hc
    cases hn : s.mapNodeState[n]? with
    | none => exact h
    | some st =>
      have hst := h.counted n st hn
      have hL := listOf_of_getElem? CNodeState.vBlocksToDownload hn
      refine h.replace hn rfl ?_ ?_ ?_ (Nat.le_succ _) ?_ rfl
      · have hpush := h.toDownload.push n s.nextAddress hash hc.1 ?_
        · rwa [hL] at hpush
        · rw [hL]
          exact fun e he => (hst.toDownload_lt e he).ne
      · rw [← listOf_of_getElem? CNodeState.vBlocksInFlight hn,update_eq_self]
        exact h.inFlight
      · intro hash'
        rw [getElem?_insert]
        by_cases hh : hash = hash'
        · exact .inr (hh ▸ hc.2)
        · simpa [hh] using h.disjoint hash'
      · refine ⟨hst.inFlight,?_,fun e he => (hst.inFlight_lt e he).trans (Nat.lt_succ_self _),?_⟩
        · simp [hst.toDownload]
        · intro e he
          rcases mem_append.mp he with he | he
          · exact (hst.toDownload_lt e he).trans (Nat.lt_succ_self _)
          · rw [mem_singleton.mp he]
            exact Nat.lt_succ_self _

theorem map_insert_known (f : CNodeState → β)
    (hn : m[n]? = some st) (hf : f st' = f st) (n' : ℤ) :
    ((m.insert n st')[n']?).map f = (m[n']?).map f := by
  rw [ExtTreeMap.getElem?_insert]
  by_cases hh : n = n'
  · subst hh
    simp [hn,hf]
  · simp [hh]

theorem Bookkeeping.receiveInFlight (h : s.Bookkeeping) (hash : UInt256) :
    ∃ t, s.receiveInFlight hash = some t ∧ t.Bookkeeping ∧ t.mapBlocksInFlight[hash]? = none ∧
      t.mapBlocksToDownload = s.mapBlocksToDownload ∧
      (∀ n : ℤ, (t.mapNodeState[n]?).isSome = (s.mapNodeState[n]?).isSome) ∧
      (s.mapBlocksInFlight[hash]? = none → t = s) := by
  unfold Downloads.receiveInFlight
  cases hm : s.mapBlocksInFlight[hash]? with
  | none => exact ⟨s,rfl,h,hm,rfl,fun _ => rfl,fun _ => rfl⟩
  | some p =>
    obtain ⟨n,it⟩ := p
    obtain ⟨entry,hmem,hkey⟩ := (h.inFlight.points hash n it).mp hm
    obtain ⟨st,hn,hst⟩ := mem_listOf.mp hmem
    have hL := listOf_of_getElem? CNodeState.vBlocksInFlight hn
    have hnodup : (st.vBlocksInFlight.map Prod.fst).Nodup := hL ▸ h.inFlight.nodup n
    have hperm := perm_eraseAt hnodup hst
    have hc := h.counted n st hn
    simp only [hn,bind_some,(deref_eq_some hnodup).mpr hst,map_some]
    refine ⟨_,rfl,h.replace hn rfl ?_ ?_ ?_ le_rfl ?_ ?_,?_,rfl,fun n' => ?_,nofun⟩
    · rw [← listOf_of_getElem? CNodeState.vBlocksToDownload hn,update_eq_self]
      exact h.toDownload
    · have hdrop := h.inFlight.drop hm
      rwa [hL] at hdrop
    · intro hash'
      rcases h.disjoint hash' with hd | hd
      · exact .inl hd
      · refine .inr ?_
        rw [getElem?_erase,hd,ite_self]
    · refine ⟨?_,hc.toDownload,fun e he => hc.inFlight_lt e (mem_eraseAt.mp he).1,hc.toDownload_lt⟩
      have hlen := hperm.length_eq
      rw [length_cons] at hlen
      rw [hc.inFlight,hlen]
      push_cast
      ring
    · have hcount := hperm.countP_eq fun e => e.2.fValidatedHeaders
      rw [countP_cons] at hcount
      simp only [CNodeState.validated,hcount]
      cases entry.fValidatedHeaders <;> simp
    · simp
    · rw [← isSome_map (f := fun _ => ()),map_insert_known (fun _ => ()) hn rfl,isSome_map]

theorem Bookkeeping.receiveToDownload (h : s.Bookkeeping) (hash : UInt256) :
    ∃ t, s.receiveToDownload hash = some t ∧ t.Bookkeeping ∧ t.mapBlocksToDownload[hash]? = none ∧
      t.mapBlocksInFlight = s.mapBlocksInFlight ∧
      ∀ n : ℤ, (t.mapNodeState[n]?).map CNodeState.nBlocksInFlight =
        (s.mapNodeState[n]?).map CNodeState.nBlocksInFlight := by
  unfold Downloads.receiveToDownload
  cases hm : s.mapBlocksToDownload[hash]? with
  | none => exact ⟨s,rfl,h,hm,rfl,fun _ => rfl⟩
  | some p =>
    obtain ⟨n,it⟩ := p
    obtain ⟨entry,hmem,hkey⟩ := (h.toDownload.points hash n it).mp hm
    obtain ⟨st,hn,hst⟩ := mem_listOf.mp hmem
    have hL := listOf_of_getElem? CNodeState.vBlocksToDownload hn
    have hnodup : (st.vBlocksToDownload.map Prod.fst).Nodup := hL ▸ h.toDownload.nodup n
    have hperm := perm_eraseAt hnodup hst
    have hc := h.counted n st hn
    simp only [hn,bind_some,(deref_eq_some hnodup).mpr hst,map_some]
    refine ⟨_,rfl,h.replace hn rfl ?_ ?_ ?_ le_rfl ?_ rfl,?_,rfl,map_insert_known _ hn rfl⟩
    · have hdrop := h.toDownload.drop hm
      rwa [hL] at hdrop
    · rw [← listOf_of_getElem? CNodeState.vBlocksInFlight hn,update_eq_self]
      exact h.inFlight
    · intro hash'
      rcases h.disjoint hash' with hd | hd
      · refine .inl ?_
        rw [getElem?_erase,hd,ite_self]
      · exact .inr hd
    · refine ⟨hc.inFlight,?_,hc.inFlight_lt,fun e he => hc.toDownload_lt e (mem_eraseAt.mp he).1⟩
      have hlen := hperm.length_eq
      rw [length_cons] at hlen
      rw [hc.toDownload,hlen]
      push_cast
      ring
    · simp

/-- No iterator is ever dangling: a received block leaves the lists, wherever it was. -/
theorem Bookkeeping.markBlockAsReceived (h : s.Bookkeeping) (hash) :
    ∃ t, s.markBlockAsReceived hash = some t ∧ t.Bookkeeping ∧ t.mapBlocksInFlight[hash]? = none ∧
      t.mapBlocksToDownload[hash]? = none ∧
      (∀ n : ℤ, (t.mapNodeState[n]?).isSome = (s.mapNodeState[n]?).isSome) ∧
      (s.mapBlocksInFlight[hash]? = none → ∀ n : ℤ,
        (t.mapNodeState[n]?).map CNodeState.nBlocksInFlight =
          (s.mapNodeState[n]?).map CNodeState.nBlocksInFlight) := by
  obtain ⟨u,hu,hub,huF,huD,hun,hsame⟩ := h.receiveInFlight hash
  obtain ⟨t,ht,htb,htD,htF,htn⟩ := hub.receiveToDownload hash
  refine ⟨t,?_,htb,htF ▸ huF,htD,fun n => ?_,fun hF n => ?_⟩
  · rw [Downloads.markBlockAsReceived,hu,bind_some,ht]
  · rw [← hun n]
    simpa using congrArg Option.isSome (htn n)
  · rw [← hsame hF]
    exact htn n

theorem Bookkeeping.markBlockAsInFlight (h : s.Bookkeeping) (hn : s.mapNodeState[n]? = some st)
    (hash : UInt256) (pindex) (nTime : ℤ) :
    ∃ t, s.markBlockAsInFlight n hash pindex nTime = some t ∧ t.Bookkeeping ∧
      (s.mapBlocksInFlight[hash]? = none →
        ∃ st', t.mapNodeState[n]? = some st' ∧ st'.nBlocksInFlight = st.nBlocksInFlight+1) := by
  obtain ⟨u,hu,hub,huF,huD,hun,hsame⟩ := h.markBlockAsReceived hash
  obtain ⟨st₁,hst₁⟩ : ∃ st₁, u.mapNodeState[n]? = some st₁ := by
    rw [← isSome_iff_exists,hun n,hn]
    rfl
  have hc := hub.counted n st₁ hst₁
  have hL := listOf_of_getElem? CNodeState.vBlocksInFlight hst₁
  have hcontains : s.mapNodeState.contains n := by
    rw [ExtTreeMap.contains_eq_isSome_getElem?,hn]
    rfl
  unfold Downloads.markBlockAsInFlight
  simp only [hcontains,if_true,hu,bind_some,hst₁,map_some]
  refine ⟨_,rfl,hub.replace hst₁ rfl ?_ ?_ ?_ (Nat.le_succ _) ?_ ?_,
    fun hF => ⟨_,ExtTreeMap.getElem?_insert_self,?_⟩⟩
  · rw [← listOf_of_getElem? CNodeState.vBlocksToDownload hst₁,update_eq_self]
    exact hub.toDownload
  · have hpush := hub.inFlight.push n u.nextAddress
      ⟨hash,pindex,nTime,u.nQueuedValidatedHeaders,pindex.isSome⟩ huF ?_
    · rwa [hL] at hpush
    · rw [hL]
      exact fun e he => (hc.inFlight_lt e he).ne
  · intro hash'
    rw [getElem?_insert]
    by_cases hh : hash = hash'
    · exact .inl (hh ▸ huD)
    · simpa [hh] using hub.disjoint hash'
  · refine ⟨?_,hc.toDownload,?_,fun e he => (hc.toDownload_lt e he).trans (Nat.lt_succ_self _)⟩
    · simp [hc.inFlight]
    · intro e he
      rcases mem_append.mp he with he | he
      · exact (hc.inFlight_lt e he).trans (Nat.lt_succ_self _)
      · rw [mem_singleton.mp he]
        exact Nat.lt_succ_self _
  · simp only [CNodeState.validated,countP_append,countP_singleton]
    cases pindex.isSome with
    | false => simp
    | true => simp [add_assoc,add_comm (1 : ℤ)]
  · have hsame := hsame hF n
    rw [hst₁,hn,map_some,map_some,some.injEq] at hsame
    exact congrArg (·+1) hsame

theorem foldl_finalizeInFlight (l : List (ℕ × QueuedBlock)) (s) :
    l.foldl finalizeInFlight s = { s with
      nQueuedValidatedHeaders := s.nQueuedValidatedHeaders-(l.countP fun e => e.2.fValidatedHeaders)
      mapBlocksInFlight := l.foldl (fun m e => m.erase e.2.hash) s.mapBlocksInFlight } := by
  induction l generalizing s with
  | nil => simp
  | cons e l ih =>
    rw [foldl_cons,ih,countP_cons]
    simp only [finalizeInFlight,foldl_cons]
    cases e.2.fValidatedHeaders <;> simp [sub_sub,add_comm]

theorem foldl_finalizeToDownload (l : List (ℕ × UInt256)) (s) :
    l.foldl finalizeToDownload s = { s with
      mapBlocksToDownload := l.foldl (fun m e => m.erase (id e.2)) s.mapBlocksToDownload } := by
  induction l generalizing s with
  | nil => rfl
  | cons e l ih => exact ih _

theorem Bookkeeping.finalizeNode {P} (h : s.Bookkeeping) (hn : s.mapNodeState[n]? = some st) :
    ∃ t, s.finalizeNode P n = some t ∧ t.Bookkeeping := by
  have hF := listOf_of_getElem? CNodeState.vBlocksInFlight hn
  have hD := listOf_of_getElem? CNodeState.vBlocksToDownload hn
  have hclearF := h.inFlight.clear n
  have hclearD := h.toDownload.clear n
  rw [hF,← listOf_erase] at hclearF
  rw [hD,← listOf_erase] at hclearD
  unfold Downloads.finalizeNode
  simp only [hn,foldl_finalizeInFlight,foldl_finalizeToDownload]
  refine ⟨_,rfl,hclearD,hclearF,fun hash => ?_,fun n' st' hn' => ?_,?_⟩
  · rcases h.disjoint hash with hd | hd
    · refine .inl (eq_none_iff_forall_ne_some.mpr fun x hx => ?_)
      rw [getElem?_foldl_erase,hd] at hx
      exact nomatch hx.1
    · refine .inr (eq_none_iff_forall_ne_some.mpr fun x hx => ?_)
      rw [getElem?_foldl_erase,hd] at hx
      exact nomatch hx.1
  · rw [ExtTreeMap.getElem?_erase] at hn'
    split_ifs at hn'
    exact h.counted n' st' hn'
  · have hsum := entrySum_of_getElem? (f := fun _ st => (st.validated : ℤ)) hn
    have hs := h.validated
    have hst : (st.validated : ℤ) = (st.vBlocksInFlight.countP fun e => e.2.fValidatedHeaders : ℕ) := rfl
    dsimp only
    omega

/-- The loop of `SendMessages` ends: every round puts one more block in flight, and the
list it takes the next one from is not empty while its counter says so. -/
theorem Bookkeeping.requestBlocks (nTime) (fuel : ℕ) (h : s.Bookkeeping)
    (hn : s.mapNodeState[n]? = some st)
    (hfuel : (MAX_BLOCKS_IN_TRANSIT_PER_PEER-st.nBlocksInFlight).toNat < fuel) :
    ∃ r, s.requestBlocks n nTime fuel = some r ∧ r.2.Bookkeeping := by
  induction fuel generalizing s st with
  | zero => omega
  | succ k ih =>
    have hc := h.counted n st hn
    unfold Downloads.requestBlocks
    simp only [hn]
    split_ifs with htest
    · cases hl : st.vBlocksToDownload with
      | nil =>
        rw [hc.toDownload,hl] at htest
        exact absurd rfl htest.1
      | cons e l =>
        have hmem : e ∈ listOf CNodeState.vBlocksToDownload s.mapNodeState n := by
          rw [listOf_of_getElem? CNodeState.vBlocksToDownload hn,hl]
          exact mem_cons_self
        have hD := (h.toDownload.points e.2 n e.1).mpr ⟨e.2,hmem,rfl⟩
        have hF : s.mapBlocksInFlight[e.2]? = none :=
          (h.disjoint e.2).resolve_left (by rw [hD]; exact some_ne_none _)
        obtain ⟨t,ht,htb,hflight⟩ := h.markBlockAsInFlight hn e.2 none (nTime k)
        obtain ⟨st',hn',hst'⟩ := hflight hF
        obtain ⟨r,hr,hrb⟩ := ih htb hn' (by omega)
        refine ⟨(e.2::r.1,r.2),?_,hrb⟩
        simp only [ht,bind_some,hr,map_some]
    · exact ⟨([],s),rfl,h⟩

end Downloads

def DownloadCall.needs : DownloadCall → Option ℤ
  | .initializeNode _ => none
  | .addBlockToQueue _ _ => none
  | .markBlockAsInFlight nodeid _ _ _ => some nodeid
  | .markBlockAsReceived _ => none
  | .finalizeNode nodeid => some nodeid
  | .requestBlocks nodeid _ => some nodeid

namespace Downloads

variable {P : Params} {c : DownloadCall}

theorem call_of_unknown (hneed : c.needs = some n) (hn : s.mapNodeState[n]? = none) :
    s.call P c = none := by
  cases c with
  | initializeNode n' => simp [DownloadCall.needs] at hneed
  | addBlockToQueue n' hash => simp [DownloadCall.needs] at hneed
  | markBlockAsReceived hash => simp [DownloadCall.needs] at hneed
  | markBlockAsInFlight n' hash pindex nTime =>
    cases hneed
    simp [call,Downloads.markBlockAsInFlight,ExtTreeMap.contains_eq_isSome_getElem?,hn]
  | finalizeNode n' =>
    cases hneed
    simp [call,Downloads.finalizeNode,hn]
  | requestBlocks n' nTime =>
    cases hneed
    simp [call,Downloads.requestBlocks,hn]

theorem Bookkeeping.call (h : s.Bookkeeping)
    (hneed : ∀ n : ℤ, c.needs = some n → (s.mapNodeState[n]?).isSome) :
    ∃ t, s.call P c = some t ∧ t.Bookkeeping := by
  cases c with
  | initializeNode n => exact ⟨_,rfl,h.initializeNode n⟩
  | addBlockToQueue n hash => exact ⟨_,rfl,h.addBlockToQueue n hash⟩
  | markBlockAsReceived hash =>
    obtain ⟨t,ht,htb,-⟩ := h.markBlockAsReceived hash
    exact ⟨t,ht,htb⟩
  | markBlockAsInFlight n hash pindex nTime =>
    obtain ⟨st,hn⟩ := isSome_iff_exists.mp (hneed n rfl)
    obtain ⟨t,ht,htb,-⟩ := h.markBlockAsInFlight hn hash pindex nTime
    exact ⟨t,ht,htb⟩
  | finalizeNode n =>
    obtain ⟨st,hn⟩ := isSome_iff_exists.mp (hneed n rfl)
    exact h.finalizeNode hn
  | requestBlocks n nTime =>
    obtain ⟨st,hn⟩ := isSome_iff_exists.mp (hneed n rfl)
    have hc := (h.counted n st hn).inFlight
    obtain ⟨r,hr,hrb⟩ := h.requestBlocks nTime (MAX_BLOCKS_IN_TRANSIT_PER_PEER.toNat+1) hn (by rw [hc]; omega)
    exact ⟨r.2,by simp [Downloads.call,hr],hrb⟩

theorem Bookkeeping.call_eq_none_iff (h : s.Bookkeeping) :
    s.call P c = none ↔ ∃ n : ℤ, c.needs = some n ∧ s.mapNodeState[n]? = none := by
  constructor
  · intro hnone
    by_contra hno
    obtain ⟨t,ht,-⟩ := h.call (P := P) (c := c) fun n hneed =>
      isSome_iff_ne_none.mpr fun hn => hno ⟨n,hneed,hn⟩
    rw [ht] at hnone
    contradiction
  · rintro ⟨n,hneed,hn⟩
    exact call_of_unknown hneed hn

theorem Bookkeeping.calls (h : s.Bookkeeping) (cs : List DownloadCall)
    (ht : cs.foldlM (Downloads.call P) s = some t) :
    t.Bookkeeping := by
  induction cs generalizing s with
  | nil => exact some.inj ht ▸ h
  | cons c cs ih =>
    rw [foldlM_cons,bind_eq_bind,bind_eq_some_iff] at ht
    obtain ⟨u,hu,ht⟩ := ht
    have hub : u.Bookkeeping := by
      obtain ⟨v,hv,hvb⟩ := h.call (P := P) (c := c) fun n hneed => by
        by_contra hn
        rw [call_of_unknown hneed (not_isSome_iff_eq_none.mp hn)] at hu
        contradiction
      rw [hv] at hu
      exact some.inj hu ▸ hvb
    exact ih hub ht

def toDownloadHashes (s : Downloads) : List UInt256 :=
  s.mapNodeState.toList.flatMap fun e => e.2.vBlocksToDownload.map Prod.snd

def inFlightHashes (s : Downloads) : List UInt256 :=
  s.mapNodeState.toList.flatMap fun e => e.2.vBlocksInFlight.map fun x => x.2.hash

variable {nodes : ExtTreeMap ℤ CNodeState} {m : HashMap (ℤ × ℕ)}

theorem nodup_hashes {f : CNodeState → List (ℕ × β)} {key : β → UInt256}
    (h : ListIndex.Indexed (listOf f nodes) key m) :
    (nodes.toList.flatMap fun e => (f e.2).map fun x => key x.2).Nodup := by
  rw [nodup_flatMap]
  constructor
  · intro e he
    have hnodup := h.nodup_keys e.1
    rwa [listOf_of_getElem? f (ExtTreeMap.mem_toList_iff_getElem?_eq_some.mp he)] at hnodup
  · refine nodes.distinct_keys_toList.imp_of_mem fun {a b} ha hb hab => ?_
    intro hash hxa hxb
    obtain ⟨x,hx,rfl⟩ := mem_map.mp hxa
    obtain ⟨y,hy,hxy⟩ := mem_map.mp hxb
    have hax : x ∈ listOf f nodes a.1 := mem_listOf.mpr ⟨a.2,ExtTreeMap.mem_toList_iff_getElem?_eq_some.mp ha,hx⟩
    have hby : y ∈ listOf f nodes b.1 := mem_listOf.mpr ⟨b.2,ExtTreeMap.mem_toList_iff_getElem?_eq_some.mp hb,hy⟩
    exact hab (by simp [(h.unique hax hby hxy.symm).1])

theorem mem_hashes {f : CNodeState → List (ℕ × β)} {key : β → UInt256}
    (h : ListIndex.Indexed (listOf f nodes) key m) {hash : UInt256}
    (hh : hash ∈ nodes.toList.flatMap fun e => (f e.2).map fun x => key x.2) : m[hash]? ≠ none := by
  obtain ⟨e,he,hkeys⟩ := mem_flatMap.mp hh
  obtain ⟨x,hx,rfl⟩ := mem_map.mp hkeys
  have hmem : x ∈ listOf f nodes e.1 := mem_listOf.mpr ⟨e.2,ExtTreeMap.mem_toList_iff_getElem?_eq_some.mp he,hx⟩
  rw [(h.points (key x.2) e.1 x.1).mpr ⟨x.2,hmem,rfl⟩]
  exact some_ne_none _

theorem Bookkeeping.nodup (h : s.Bookkeeping) : (s.toDownloadHashes++s.inFlightHashes).Nodup := by
  rw [nodup_append]
  refine ⟨nodup_hashes h.toDownload,nodup_hashes h.inFlight,?_⟩
  rintro hash hD _ hF rfl
  rcases h.disjoint hash with hd | hd
  · exact mem_hashes h.toDownload hD hd
  · exact mem_hashes h.inFlight hF hd

theorem points_iff_deref {f : CNodeState → List (ℕ × β)} {key : β → UInt256}
    (h : ListIndex.Indexed (listOf f nodes) key m)
    (hash : UInt256) (n : ℤ) (it : ℕ) :
    m[hash]? = some (n,it) ↔ ∃ st, nodes[n]? = some st ∧ ∃ a, deref (f st) it = some a ∧
      key a = hash := by
  rw [h.points]
  constructor
  · rintro ⟨a,ha,hkey⟩
    obtain ⟨st,hn,hst⟩ := mem_listOf.mp ha
    have hnodup : ((f st).map Prod.fst).Nodup := listOf_of_getElem? f hn ▸ h.nodup n
    exact ⟨st,hn,a,(deref_eq_some hnodup).mpr hst,hkey⟩
  · rintro ⟨st,hn,a,ha,hkey⟩
    have hnodup : ((f st).map Prod.fst).Nodup := listOf_of_getElem? f hn ▸ h.nodup n
    exact ⟨a,mem_listOf.mpr ⟨st,hn,(deref_eq_some hnodup).mp ha⟩,hkey⟩

theorem entrySum_validated (nodes : ExtTreeMap ℤ CNodeState) :
    entrySum (fun _ st => (st.validated : ℤ)) nodes =
      ((nodes.toList.flatMap fun e => e.2.vBlocksInFlight).countP fun e =>
        e.2.fValidatedHeaders : ℕ) := by
  rw [entrySum,countP_flatMap,Nat.cast_list_sum,map_map]
  rfl

end Downloads

/-- After any calls that go through, the lists, the maps and the counters agree, and the
only thing that can stop a further call is a peer that is not known. -/
theorem downloads_of_calls {P : Params} {cs : List DownloadCall} {s : Downloads}
    (hs : cs.foldlM (Downloads.call P) {} = some s) :
    (s.toDownloadHashes++s.inFlightHashes).Nodup ∧
    (∀ (hash : UInt256) (n : ℤ) (it : ℕ), s.mapBlocksToDownload[hash]? = some (n,it) ↔
      ∃ st, s.mapNodeState[n]? = some st ∧ ∃ a, deref st.vBlocksToDownload it = some a ∧ a = hash) ∧
    (∀ (hash : UInt256) (n : ℤ) (it : ℕ), s.mapBlocksInFlight[hash]? = some (n,it) ↔
      ∃ st, s.mapNodeState[n]? = some st ∧ ∃ q, deref st.vBlocksInFlight it = some q ∧
      q.hash = hash) ∧
    (∀ (n : ℤ) (st : CNodeState), s.mapNodeState[n]? = some st →
      st.nBlocksInFlight = st.vBlocksInFlight.length ∧
      st.nBlocksToDownload = st.vBlocksToDownload.length) ∧
    s.nQueuedValidatedHeaders =
      ((s.mapNodeState.toList.flatMap fun e => e.2.vBlocksInFlight).countP fun e =>
        e.2.fValidatedHeaders : ℕ) ∧
    ∀ c : DownloadCall, s.call P c = none ↔
      ∃ n : ℤ, c.needs = some n ∧ s.mapNodeState[n]? = none := by
  have h : s.Bookkeeping := Downloads.bookkeeping_empty.calls cs hs
  exact ⟨h.nodup,Downloads.points_iff_deref h.toDownload,Downloads.points_iff_deref h.inFlight,
    fun n st hn => ⟨(h.counted n st hn).inFlight,(h.counted n st hn).toDownload⟩,
    h.validated.trans (Downloads.entrySum_validated _),fun _ => h.call_eq_none_iff⟩

namespace Sample

def downloadCalls : List DownloadCall :=
  [.initializeNode 1,.initializeNode 2,.addBlockToQueue 1 10,.addBlockToQueue 2 20,.addBlockToQueue 2 10,
    .markBlockAsInFlight 2 10 (some 10) 5,.requestBlocks 2 fun _ => 6,.addBlockToQueue 1 30,.markBlockAsReceived 20]

end Sample

open Sample

theorem downloads_of_downloadCalls : ∃ s, downloadCalls.foldlM (Downloads.call params) {} = some s ∧
      (s.toDownloadHashes,s.inFlightHashes,s.nQueuedValidatedHeaders) = ([30],[10],1) ∧
      (s.toDownloadHashes++s.inFlightHashes).Nodup := by
  have hrun : (downloadCalls.foldlM (Downloads.call params) {}).map (fun s =>
      (s.toDownloadHashes,s.inFlightHashes,s.nQueuedValidatedHeaders)) = some ([30],[10],1) := by
    decide +kernel
  obtain ⟨s,hs,hF⟩ := map_eq_some_iff.mp hrun
  exact ⟨s,hs,hF,(downloads_of_calls hs).1⟩

end DarkSilk
