import DarkSilk.MemPoolReads

/-! Transactions that wait for their parents, and the handler of the transaction
messages that is to offer them to the memory pool when a parent arrives. -/
namespace DarkSilk

open Std BatchStore List Option
open Std.DTreeMap.Internal (Impl)

abbrev HashSet := Std.ExtTreeSet UInt256

structure COrphanTx where
  tx : CTransaction
  fromPeer : ℤ

structure OrphanMaps where
  mapOrphanTransactions : HashMap COrphanTx
  mapOrphanTransactionsByPrev : HashMap HashSet

def CTransaction.parents (tx : CTransaction) : List UInt256 := tx.vin.map fun i => i.prevout.hash

namespace OrphanMaps

def empty : OrphanMaps := ⟨∅,∅⟩

def byPrev (m : HashMap HashSet) (hash : UInt256) : HashSet := (m[hash]?).getD ∅

def addByPrev (hash : UInt256) (m : HashMap HashSet) (prev : UInt256) : HashMap HashSet :=
  m.insert prev ((byPrev m prev).insert hash)

/-- Take an id out of one of the sets; a set that becomes empty is dropped. -/
def eraseByPrev (hash : UInt256) (m : HashMap HashSet) (prev : UInt256) : HashMap HashSet :=
  match m[prev]? with
  | none => m
  | some s => if (s.erase hash).isEmpty then m.erase prev else m.insert prev (s.erase hash)

def addOrphanTx (P : Params) (o : OrphanMaps) (tx : CTransaction) (peer : ℤ) : Bool × OrphanMaps :=
  let hash := tx.getHash P
  if o.mapOrphanTransactions.contains hash || 5000 < tx.serialize.length then (false,o)
  else (true,⟨o.mapOrphanTransactions.insert hash ⟨tx,peer⟩,
    tx.parents.foldl (addByPrev hash) o.mapOrphanTransactionsByPrev⟩)

def eraseOrphanTx (o : OrphanMaps) (hash : UInt256) : OrphanMaps :=
  match o.mapOrphanTransactions[hash]? with
  | none => o
  | some orphan => ⟨o.mapOrphanTransactions.erase hash,
      orphan.tx.parents.foldl (eraseByPrev hash) o.mapOrphanTransactionsByPrev⟩

/-- Evict the first orphan from a random id on while there are too many. Every round
takes one, so as many rounds as there are orphans are enough. -/
def limitOrphanTxSize (nMaxOrphans : ℕ) (rand : ℕ → UInt256) : ℕ → OrphanMaps → OrphanMaps
  | 0, o => o
  | k+1, o =>
    if nMaxOrphans < o.mapOrphanTransactions.size then
      match (o.mapOrphanTransactions.getKeyGE? (rand k)).or o.mapOrphanTransactions.minKey? with
      | none => o
      | some hash => limitOrphanTxSize nMaxOrphans rand k (o.eraseOrphanTx hash)
    else o

structure Consistent (P : Params) (o : OrphanMaps) : Prop where
  key : ∀ (h : UInt256) (x : COrphanTx), o.mapOrphanTransactions[h]? = some x → x.tx.getHash P = h
  prev : ∀ p h : UInt256, h ∈ byPrev o.mapOrphanTransactionsByPrev p ↔
    ∃ x, o.mapOrphanTransactions[h]? = some x ∧ p ∈ x.tx.parents

variable {hash prev p h : UInt256} {m : HashMap HashSet} {peer : ℤ} {x : COrphanTx}

theorem mem_addByPrev :
    h ∈ byPrev (addByPrev hash m prev) p ↔ (h = hash ∧ p = prev) ∨ h ∈ byPrev m p := by
  by_cases hp : prev = p
  · subst hp
    simp [byPrev,addByPrev,eq_comm (a := hash)]
  · simp [byPrev,addByPrev,getElem?_insert,hp,Ne.symm hp]

theorem mem_eraseByPrev :
    h ∈ byPrev (eraseByPrev hash m prev) p ↔ ¬ (h = hash ∧ p = prev) ∧ h ∈ byPrev m p := by
  unfold eraseByPrev
  cases hm : m[prev]? with
  | none =>
    by_cases hp : prev = p
    · subst hp
      simp [byPrev,hm]
    · simp [Ne.symm hp]
  | some s =>
    dsimp only
    by_cases hp : prev = p
    · subst hp
      split_ifs with hempty
      · have hs := Std.ExtTreeSet.mem_erase (t := s) (k := hash) (a := h)
        rw [Std.ExtTreeSet.isEmpty_iff.mp hempty] at hs
        simpa [byPrev,hm,eq_comm (a := hash)] using hs
      · simp [byPrev,hm,eq_comm (a := hash)]
    · split_ifs with hempty
      · simp [byPrev,getElem?_erase,hp,Ne.symm hp]
      · simp [byPrev,getElem?_insert,hp,Ne.symm hp]

theorem mem_foldl_addByPrev (l : List UInt256) (m) :
    h ∈ byPrev (l.foldl (addByPrev hash) m) p ↔ (h = hash ∧ p ∈ l) ∨ h ∈ byPrev m p := by
  induction l generalizing m with
  | nil => simp
  | cons a l ih =>
    rw [foldl_cons,ih,mem_addByPrev,mem_cons]
    tauto

theorem mem_foldl_eraseByPrev (l : List UInt256) (m) :
    h ∈ byPrev (l.foldl (eraseByPrev hash) m) p ↔ ¬ (h = hash ∧ p ∈ l) ∧ h ∈ byPrev m p := by
  induction l generalizing m with
  | nil => simp
  | cons a l ih =>
    rw [foldl_cons,ih,mem_eraseByPrev,mem_cons]
    tauto

variable {P : Params} {o : OrphanMaps}

theorem getElem?_eraseOrphanTx (hash h) : (o.eraseOrphanTx hash).mapOrphanTransactions[h]? =
      if h = hash then none else o.mapOrphanTransactions[h]? := by
  unfold eraseOrphanTx
  cases hx : o.mapOrphanTransactions[hash]? with
  | none =>
    split_ifs with hh
    · exact hh ▸ hx
    · rfl
  | some x => simp only [getElem?_erase,eq_comm (a := hash)]

theorem consistent_empty : empty.Consistent P := by
  constructor <;> simp [empty,byPrev]

open OrphanMaps

theorem Consistent.addOrphanTx (h : o.Consistent P) (tx) (peer : ℤ) :
    (o.addOrphanTx P tx peer).2.Consistent P := by
  unfold OrphanMaps.addOrphanTx
  dsimp only
  split_ifs with hc
  · exact h
  · rw [Bool.or_eq_true,not_or,ExtTreeMap.contains_eq_isSome_getElem?] at hc
    have hnone : o.mapOrphanTransactions[tx.getHash P]? = none := by simpa using hc.1
    refine ⟨fun hash x hx => ?_,fun p hash => ?_⟩
    · rw [getElem?_insert] at hx
      split_ifs at hx with hh
      · rw [← some.inj hx,← hh]
      · exact h.key hash x hx
    · rw [mem_foldl_addByPrev,h.prev,getElem?_insert]
      by_cases hh : tx.getHash P = hash
      · subst hh
        simp [hnone]
      · simp [hh,Ne.symm hh]

theorem Consistent.eraseOrphanTx (h : o.Consistent P) (hash : UInt256) :
    (o.eraseOrphanTx hash).Consistent P := by
  refine ⟨fun h' x hx => ?_,fun p h' => ?_⟩
  · rw [getElem?_eraseOrphanTx] at hx
    split_ifs at hx
    exact h.key h' x hx
  · rw [getElem?_eraseOrphanTx]
    unfold OrphanMaps.eraseOrphanTx
    cases hx : o.mapOrphanTransactions[hash]? with
    | none =>
      rw [h.prev]
      split_ifs with hh
      · simp [hh,hx]
      · rfl
    | some x =>
      rw [mem_foldl_eraseByPrev,h.prev]
      by_cases hh : h' = hash
      · subst hh
        simp [hx]
      · simp [hh]

/-- Erase the entry if the peer sent it. The source names the entry to erase by the hash
of the stored transaction, and it reads the map as the earlier erasures left it. -/
def eraseIfFrom (P : Params) (peer : ℤ) (o : OrphanMaps) (key : UInt256) : OrphanMaps :=
  match o.mapOrphanTransactions[key]? with
  | none => o
  | some x => if x.fromPeer = peer then o.eraseOrphanTx (x.tx.getHash P) else o

def eraseOrphansFor (P : Params) (o : OrphanMaps) (peer : ℤ) : OrphanMaps :=
  o.mapOrphanTransactions.keys.foldl (eraseIfFrom P peer) o

def NoneEmpty (m : HashMap HashSet) : Prop :=
  ∀ (p : UInt256) (s : HashSet), m[p]? = some s → s.isEmpty = false

/-- The two maps are inverse to each other and no set is kept empty. -/
structure Exact (P : Params) (o : OrphanMaps) : Prop extends Consistent P o where
  noneEmpty : NoneEmpty o.mapOrphanTransactionsByPrev

theorem exact_empty : empty.Exact P := ⟨consistent_empty,by simp [empty,NoneEmpty]⟩

theorem NoneEmpty.addByPrev (h : NoneEmpty m) (hash prev) : NoneEmpty (addByPrev hash m prev) := by
  intro p s hs
  rw [OrphanMaps.addByPrev,getElem?_insert] at hs
  split_ifs at hs
  · rw [← some.inj hs]
    simp
  · exact h p s hs

theorem NoneEmpty.eraseByPrev (h : NoneEmpty m) (hash prev) :
    NoneEmpty (eraseByPrev hash m prev) := by
  intro p s hs
  unfold OrphanMaps.eraseByPrev at hs
  cases hm : m[prev]? with
  | none => exact h p s (by simpa [hm] using hs)
  | some t =>
    simp only [hm] at hs
    split_ifs at hs with hempty
    · rw [getElem?_erase] at hs
      split_ifs at hs
      exact h p s hs
    · rw [getElem?_insert] at hs
      split_ifs at hs
      · rw [← some.inj hs]
        simpa using hempty
      · exact h p s hs

theorem NoneEmpty.foldl {f} (hf : ∀ m a, NoneEmpty m → NoneEmpty (f m a)) (l : List UInt256)
    (h : NoneEmpty m) :
    NoneEmpty (l.foldl f m) := by
  induction l generalizing m with
  | nil => exact h
  | cons a l ih => exact ih (hf m a h)

theorem Exact.addOrphanTx (h : o.Exact P) (tx) (peer : ℤ) :
    (o.addOrphanTx P tx peer).2.Exact P := by
  refine ⟨h.toConsistent.addOrphanTx tx peer,?_⟩
  unfold OrphanMaps.addOrphanTx
  dsimp only
  split_ifs with hc
  · exact h.noneEmpty
  · exact NoneEmpty.foldl (fun m a hm => hm.addByPrev _ a) _ h.noneEmpty

theorem Exact.eraseOrphanTx (h : o.Exact P) (hash : UInt256) : (o.eraseOrphanTx hash).Exact P := by
  refine ⟨h.toConsistent.eraseOrphanTx hash,?_⟩
  unfold OrphanMaps.eraseOrphanTx
  cases hx : o.mapOrphanTransactions[hash]? with
  | none => exact h.noneEmpty
  | some x => exact NoneEmpty.foldl (fun m a hm => hm.eraseByPrev _ a) _ h.noneEmpty

theorem Exact.eraseIfFrom (h : o.Exact P) (peer key) : (o.eraseIfFrom P peer key).Exact P := by
  unfold OrphanMaps.eraseIfFrom
  cases hx : o.mapOrphanTransactions[key]? with
  | none => exact h
  | some x =>
    dsimp only
    split_ifs
    · exact h.eraseOrphanTx _
    · exact h

theorem Exact.eraseIfFroms (peer) (l : List UInt256) (h : o.Exact P) :
    (l.foldl (OrphanMaps.eraseIfFrom P peer) o).Exact P := by
  induction l generalizing o with
  | nil => exact h
  | cons a l ih => exact ih (h.eraseIfFrom peer a)

theorem getElem?_eraseIfFrom (h : o.Consistent P) {key} :
    (o.eraseIfFrom P peer key).mapOrphanTransactions[hash]? = some x ↔
      o.mapOrphanTransactions[hash]? = some x ∧ ¬ (hash = key ∧ x.fromPeer = peer) := by
  unfold eraseIfFrom
  cases hk : o.mapOrphanTransactions[key]? with
  | none =>
    refine ⟨fun hx => ⟨hx,?_⟩,And.left⟩
    rintro ⟨rfl,-⟩
    rw [hk] at hx
    contradiction
  | some y =>
    dsimp only
    split_ifs with hp
    · rw [getElem?_eraseOrphanTx,h.key key y hk]
      by_cases hh : hash = key
      · subst hh
        simp only [hk,if_true]
        constructor
        · simp
        · rintro ⟨hxy,hne⟩
          exact absurd ⟨trivial,some.inj hxy ▸ hp⟩ hne
      · simp [hh]
    · refine ⟨fun hx => ⟨hx,?_⟩,And.left⟩
      rintro ⟨rfl,hx'⟩
      rw [hk] at hx
      exact hp (some.inj hx ▸ hx')

theorem getElem?_eraseIfFroms (h : o.Exact P) (l : List UInt256) :
    (l.foldl (eraseIfFrom P peer) o).mapOrphanTransactions[hash]? = some x ↔
      o.mapOrphanTransactions[hash]? = some x ∧ ¬ (hash ∈ l ∧ x.fromPeer = peer) := by
  induction l generalizing o with
  | nil => simp
  | cons a l ih =>
    rw [foldl_cons,ih (h.eraseIfFrom peer a),getElem?_eraseIfFrom h.toConsistent,mem_cons]
    tauto

theorem getElem?_eraseOrphansFor (h : o.Exact P) :
    (o.eraseOrphansFor P peer).mapOrphanTransactions[hash]? = some x ↔
      o.mapOrphanTransactions[hash]? = some x ∧ x.fromPeer ≠ peer := by
  rw [eraseOrphansFor,getElem?_eraseIfFroms h]
  refine and_congr_right fun hx => ?_
  have hmem : hash ∈ o.mapOrphanTransactions.keys := by
    rw [ExtTreeMap.mem_keys,ExtTreeMap.mem_iff_isSome_getElem?,hx]
    rfl
  simp [hmem]

theorem mem_of_getKeyGE? {V : Type} {m : HashMap V} {k} (hk : m.getKeyGE? k = some h) : h ∈ m := by
  obtain ⟨t⟩ := m
  induction t using Std.ExtDTreeMap.inductionOn with
  | mk t =>
    change Impl.getKeyGE? k t.inner = some h at hk
    rw [Impl.getKeyGE?_eq_getEntryGE?,map_eq_some_iff] at hk
    obtain ⟨e,he,rfl⟩ := hk
    rw [Impl.getEntryGE?_eq_find? t.wf.ordered] at he
    have hmem : e.fst ∈ t.inner.keys := by
      rw [Impl.keys_eq_keys,Std.Internal.List.keys_eq_map]
      exact mem_map_of_mem (mem_of_find?_eq_some he)
    exact Impl.mem_of_mem_keys t.wf hmem

theorem exists_evicted (o : OrphanMaps) (r) (hpos : 0 < o.mapOrphanTransactions.size) :
    ∃ hash, (o.mapOrphanTransactions.getKeyGE? r).or o.mapOrphanTransactions.minKey? = some hash ∧
      hash ∈ o.mapOrphanTransactions := by
  cases hge : o.mapOrphanTransactions.getKeyGE? r with
  | some hash => exact ⟨hash,rfl,mem_of_getKeyGE? hge⟩
  | none =>
    have hne : o.mapOrphanTransactions ≠ ∅ := by
      intro he
      rw [he,ExtTreeMap.size_empty] at hpos
      exact absurd hpos (lt_irrefl 0)
    obtain ⟨hash,hmin⟩ := isSome_iff_exists.mp (ExtTreeMap.isSome_minKey?_iff_ne_empty.mpr hne)
    exact ⟨hash,hmin,ExtTreeMap.minKey?_mem hmin⟩

theorem size_eraseOrphanTx (h : hash ∈ o.mapOrphanTransactions) :
    (o.eraseOrphanTx hash).mapOrphanTransactions.size+1 = o.mapOrphanTransactions.size := by
  have hpos : 0 < o.mapOrphanTransactions.size := by
    rw [← ExtTreeMap.length_keys]
    exact length_pos_of_mem (ExtTreeMap.mem_keys.mpr h)
  unfold eraseOrphanTx
  obtain ⟨x,hx⟩ := isSome_iff_exists.mp (ExtTreeMap.mem_iff_isSome_getElem?.mp h)
  simp only [hx,ExtTreeMap.size_erase,if_pos (ExtTreeMap.contains_iff_mem.mpr h)]
  omega

theorem Exact.limitOrphanTxSize (m rand fuel) (h : o.Exact P) :
    (o.limitOrphanTxSize m rand fuel).Exact P := by
  induction fuel generalizing o with
  | zero => exact h
  | succ k ih =>
    unfold limitOrphanTxSize
    split_ifs with hm
    · cases (o.mapOrphanTransactions.getKeyGE? (rand k)).or o.mapOrphanTransactions.minKey? with
      | none => exact h
      | some hash => exact ih (h.eraseOrphanTx hash)
    · exact h

theorem size_limitOrphanTxSize (m : ℕ) (rand) (fuel : ℕ)
    (hf : o.mapOrphanTransactions.size ≤ fuel) :
    (o.limitOrphanTxSize m rand fuel).mapOrphanTransactions.size ≤ m := by
  induction fuel generalizing o with
  | zero => exact hf.trans (Nat.zero_le m)
  | succ k ih =>
    unfold limitOrphanTxSize
    split_ifs with hm
    · obtain ⟨hash,hev,hmem⟩ := exists_evicted o (rand k) (by omega)
      rw [hev]
      have hsize := size_eraseOrphanTx hmem
      exact ih (by omega)
    · omega

end OrphanMaps

inductive OrphanCall where
  | addOrphanTx (tx : CTransaction) (peer : ℤ)
  | eraseOrphanTx (hash : UInt256)
  | eraseOrphansFor (peer : ℤ)
  | limitOrphanTxSize (nMaxOrphans : ℕ) (rand : ℕ → UInt256)

def OrphanMaps.call (P : Params) (o : OrphanMaps) : OrphanCall → OrphanMaps
  | .addOrphanTx tx peer => (o.addOrphanTx P tx peer).2
  | .eraseOrphanTx hash => o.eraseOrphanTx hash
  | .eraseOrphansFor peer => o.eraseOrphansFor P peer
  | .limitOrphanTxSize nMaxOrphans rand =>
    o.limitOrphanTxSize nMaxOrphans rand o.mapOrphanTransactions.size

theorem OrphanMaps.Exact.call {P} {o : OrphanMaps} (h : o.Exact P) (c : OrphanCall) :
    (o.call P c).Exact P := by
  cases c with
  | addOrphanTx tx peer => exact h.addOrphanTx tx peer
  | eraseOrphanTx hash => exact h.eraseOrphanTx hash
  | eraseOrphansFor peer => exact h.eraseIfFroms peer _
  | limitOrphanTxSize m rand => exact h.limitOrphanTxSize m rand _

theorem OrphanMaps.Exact.calls {P} {o : OrphanMaps} (h : o.Exact P) (cs : List OrphanCall) :
    (cs.foldl (OrphanMaps.call P) o).Exact P := by
  induction cs generalizing o with
  | nil => exact h
  | cons c cs ih => exact ih (h.call c)

/-- After any calls the two maps say the same of the waiting transactions. From there the
limit is reached, and a peer can be forgotten. -/
theorem orphanMaps_of_calls (P : Params) (cs : List OrphanCall) :
    let o := cs.foldl (OrphanMaps.call P) .empty
    (∀ p h : UInt256, h ∈ OrphanMaps.byPrev o.mapOrphanTransactionsByPrev p ↔
      ∃ (k : UInt256) (x : COrphanTx), o.mapOrphanTransactions[k]? = some x ∧ x.tx.getHash P = h ∧
        ∃ i ∈ x.tx.vin, i.prevout.hash = p) ∧
    (∀ (p : UInt256) (s : HashSet), o.mapOrphanTransactionsByPrev[p]? = some s → s.isEmpty = false) ∧
    (∀ (m : ℕ) (rand : ℕ → UInt256) (fuel : ℕ), o.mapOrphanTransactions.size ≤ fuel →
      (o.limitOrphanTxSize m rand fuel).mapOrphanTransactions.size ≤ m) ∧
    ∀ (n : ℤ) (k : UInt256) (x : COrphanTx),
      (o.eraseOrphansFor P n).mapOrphanTransactions[k]? = some x → x.fromPeer ≠ n := by
  intro o
  have h : o.Exact P := OrphanMaps.exact_empty.calls cs
  refine ⟨fun p hash => ?_,h.noneEmpty,fun m rand fuel hf => OrphanMaps.size_limitOrphanTxSize m rand fuel hf,
    fun n k x hx => ((OrphanMaps.getElem?_eraseOrphansFor h).mp hx).2⟩
  rw [h.prev p hash]
  constructor
  · rintro ⟨x,hx,hp⟩
    exact ⟨hash,x,hx,h.key hash x hx,mem_map.mp hp⟩
  · rintro ⟨k,x,hx,hk,hp⟩
    have hkey : k = hash := (h.key k x hx).symm.trans hk
    exact ⟨x,hkey ▸ hx,mem_map.mpr hp⟩

/-- What the handler finds outside of the two pools. The limiter of free transactions
may change its mind from one call to the next. -/
structure TxEnv where
  W : World
  tip : Tip
  pdb : Store DbKey.Val
  nAdjustedTime : UInt32
  rateLimited : ℕ → Bool
  rand : ℕ → UInt256

def TxEnv.call (E : TxEnv) (n : ℕ) : AcceptCall := ⟨E.W,E.tip,E.pdb,true,false,E.rateLimited n⟩

def TxEnv.nullTx (E : TxEnv) : CTransaction := ⟨1,E.nAdjustedTime,[],[],0⟩

inductive TxCommand
  | tx
  | sstx

def MAX_ORPHAN_TRANSACTIONS : ℕ := MAX_BLOCK_SIZE/100

variable (P : Params) (E : TxEnv)

/-- There is no case for the inventory type of `sstx`: what is of no known type counts as had. -/
def alreadyHave (pool : MemPoolMaps) (orphans : OrphanMaps) : TxCommand → UInt256 → Bool
  | .tx, hash =>
    pool.exists' hash || orphans.mapOrphanTransactions.contains hash || CTxDB.containsTx ⟨E.pdb,none⟩ hash
  | .sstx, _ => true

/-- State of the loop over the work queue, of which the part still to come is kept,
and the ids that were offered to the memory pool so far. -/
structure Resolve where
  pool : MemPoolMaps
  orphans : OrphanMaps
  vWorkQueue : List UInt256
  vEraseQueue : List UInt256
  offered : List UInt256

/-- An access to the map enters a null transaction where there is none. -/
def OrphanMaps.access (o : OrphanMaps) (hash : UInt256) : COrphanTx × OrphanMaps :=
  match o.mapOrphanTransactions[hash]? with
  | some orphanTx => (orphanTx,o)
  | none =>
    let orphanTx : COrphanTx := ⟨E.nullTx,0⟩
    (orphanTx,{ o with mapOrphanTransactions := o.mapOrphanTransactions.insert hash orphanTx })

def Resolve.offer (s : Resolve) (hash : UInt256) : Resolve :=
  let x := s.orphans.access E hash
  let s : Resolve := { s with orphans := x.2, offered := s.offered++[hash] }
  match s.pool.acceptToMemoryPool P (E.call s.offered.length) x.1.tx with
  | (_,.ok pool) =>
    { s with pool := pool, vWorkQueue := s.vWorkQueue++[hash], vEraseQueue := s.vEraseQueue++[hash] }
  | (true,.error _) => s
  | (false,.error _) => { s with vEraseQueue := s.vEraseQueue++[hash] }

/-- The loop over the work queue, which grows by every orphan that is accepted. -/
def Resolve.run : ℕ → Resolve → Option Resolve
  | 0, s => if s.vWorkQueue.isEmpty then some s else none
  | fuel+1, s =>
    match s.vWorkQueue with
    | [] => some s
    | hash::queue =>
      run fuel ((OrphanMaps.byPrev s.orphans.mapOrphanTransactionsByPrev hash).toList.foldl (Resolve.offer P E)
        { s with vWorkQueue := queue })

structure TxHandled where
  accepted : Bool
  pool : MemPoolMaps
  orphans : OrphanMaps
  offered : List UInt256

/-- The handler of `tx` and `sstx`. It asks whether it has the null transaction, before
the one of the message is read, and its work starts from the id in an inventory that
nothing was ever assigned to. -/
def processTx (cmd : TxCommand) (tx : CTransaction) (peer : ℤ) (pool : MemPoolMaps)
    (orphans : OrphanMaps) :
    Option TxHandled :=
  let inv : UInt256 := 0
  if alreadyHave E pool orphans cmd (E.nullTx.getHash P) then some ⟨false,pool,orphans,[]⟩
  else match pool.acceptToMemoryPool P (E.call 0) tx with
    | (_,.ok pool) =>
      (Resolve.run P E (orphans.mapOrphanTransactions.size+1) ⟨pool,orphans,[inv],[inv],[]⟩).map fun s =>
        ⟨true,s.pool,s.vEraseQueue.foldl OrphanMaps.eraseOrphanTx s.orphans,s.offered⟩
    | (true,.error _) =>
      let orphans := (orphans.addOrphanTx P tx peer).2
      some ⟨false,pool,orphans.limitOrphanTxSize MAX_ORPHAN_TRANSACTIONS E.rand
        orphans.mapOrphanTransactions.size,[]⟩
    | (false,.error _) => some ⟨false,pool,orphans,[]⟩

variable {P} {E} {s : Resolve} {hash : UInt256}

/-- Orphans that are not in the memory pool. -/
def Resolve.remaining (s : Resolve) : ℕ :=
  s.orphans.mapOrphanTransactions.keys.countP fun h => !s.pool.exists' h

theorem exists'_addUnchecked {pool : MemPoolMaps} {tx : CTransaction} {h} :
    (pool.addUnchecked P tx).exists' h = (decide (h = tx.getHash P) || pool.exists' h) := by
  simp only [MemPoolMaps.exists',MemPoolMaps.addUnchecked,CTxMemPool.addUnchecked,ExtTreeMap.contains_insert]
  congr 1
  rw [Bool.eq_iff_iff,beq_iff_eq,decide_eq_true_eq,Std.compare_eq_iff_eq,eq_comm]

theorem access_of_some {o : OrphanMaps} {x} (h : o.mapOrphanTransactions[hash]? = some x) :
    o.access E hash = (x,o) := by
  rw [OrphanMaps.access,h]

/-- What one offer does: it takes the orphan into the pool and the two queues, or puts
it into the erase queue, or leaves everything as it is. -/
theorem offer_cases {x : COrphanTx} (hx : s.orphans.mapOrphanTransactions[hash]? = some x) :
    (∃ pool', (s.pool.acceptToMemoryPool P (E.call (s.offered.length+1)) x.tx).2 = .ok pool' ∧
        s.offer P E hash = ⟨pool',s.orphans,s.vWorkQueue++[hash],s.vEraseQueue++[hash],
          s.offered++[hash]⟩) ∨
      ∃ erased, (erased = [] ∨ erased = [hash]) ∧
        s.offer P E hash = ⟨s.pool,s.orphans,s.vWorkQueue,s.vEraseQueue++erased,
          s.offered++[hash]⟩ := by
  have hacc := access_of_some (E := E) hx
  simp only [Resolve.offer,hacc,length_append,length_singleton]
  rcases hr : s.pool.acceptToMemoryPool P (E.call (s.offered.length+1)) x.tx with ⟨missing,e | pool'⟩
  · cases missing with
    | false => exact .inr ⟨[hash],.inr rfl,rfl⟩
    | true => exact .inr ⟨[],.inl rfl,by simp⟩
  · exact .inl ⟨pool',rfl,by cases missing <;> rfl⟩

theorem countP_lt {α : Type} {p q} {l : List α} {a} (hpq : ∀ x, p x → q x) (ha : a ∈ l) (hq : q a)
    (hp : p a = false) : l.countP p < l.countP q := by
  obtain ⟨l₁,l₂,rfl⟩ := append_of_mem ha
  simp only [countP_append,countP_cons,hq,hp,if_true,Bool.false_eq_true,if_false]
  have h1 := countP_mono_left (l := l₁) fun x _ => hpq x
  have h2 := countP_mono_left (l := l₂) fun x _ => hpq x
  omega

theorem offer_measure (ho : s.orphans.Consistent P) {x : COrphanTx}
    (hx : s.orphans.mapOrphanTransactions[hash]? = some x) :
    (s.offer P E hash).orphans = s.orphans ∧
      (s.offer P E hash).vWorkQueue.length+(s.offer P E hash).remaining ≤
        s.vWorkQueue.length+s.remaining := by
  rcases offer_cases (P := P) (E := E) hx with ⟨pool',hpool,heq⟩ | ⟨erased,-,heq⟩
  · obtain ⟨rfl,hnew,-⟩ := acceptToMemoryPool_ok hpool
    rw [ho.key hash x hx] at hnew
    have hmem : hash ∈ s.orphans.mapOrphanTransactions.keys := by
      rw [ExtTreeMap.mem_keys,ExtTreeMap.mem_iff_isSome_getElem?,hx]
      rfl
    have hlt : s.orphans.mapOrphanTransactions.keys.countP
        (fun h => !(s.pool.addUnchecked P x.tx).exists' h) < s.remaining := by
      refine countP_lt (fun h hh => ?_) hmem (by simp [hnew]) ?_
      · rw [exists'_addUnchecked] at hh
        simp only [Bool.not_or,Bool.and_eq_true] at hh
        exact hh.2
      · rw [exists'_addUnchecked,ho.key hash x hx]
        simp
    rw [heq]
    refine ⟨rfl,?_⟩
    simp only [Resolve.remaining,length_append,length_singleton] at hlt ⊢
    omega
  · rw [heq]
    exact ⟨rfl,le_rfl⟩

theorem offers_measure (ho : s.orphans.Consistent P) (l : List UInt256)
    (hl : ∀ h ∈ l, (s.orphans.mapOrphanTransactions[h]?).isSome) :
    (l.foldl (Resolve.offer P E) s).orphans = s.orphans ∧
      (l.foldl (Resolve.offer P E) s).vWorkQueue.length+(l.foldl (Resolve.offer P E) s).remaining ≤
        s.vWorkQueue.length+s.remaining := by
  induction l generalizing s with
  | nil => exact ⟨rfl,le_rfl⟩
  | cons h l ih =>
    obtain ⟨x,hx⟩ := isSome_iff_exists.mp (hl h mem_cons_self)
    obtain ⟨horph,hle⟩ := offer_measure (E := E) ho hx
    have hrest := ih (s := s.offer P E h) (by rwa [horph])
      (by rw [horph]; exact fun h' hh' => hl h' (mem_cons_of_mem _ hh'))
    rw [foldl_cons]
    exact ⟨hrest.1.trans horph,hrest.2.trans hle⟩

/-- Enough rounds for the queue and all orphans end the loop. -/
theorem run_eq_some (ho : s.orphans.Consistent P) {fuel}
    (hf : s.vWorkQueue.length+s.remaining ≤ fuel) :
    ∃ s', s.run P E fuel = some s' ∧ s'.orphans = s.orphans := by
  induction fuel generalizing s with
  | zero =>
    have hnil : s.vWorkQueue = [] := length_eq_zero_iff.mp (by omega)
    exact ⟨s,by simp [Resolve.run,hnil],rfl⟩
  | succ fuel ih =>
    cases hq : s.vWorkQueue with
    | nil => exact ⟨s,by simp [Resolve.run,hq],rfl⟩
    | cons h queue =>
      simp only [Resolve.run,hq]
      have hmem : ∀ h' ∈ (OrphanMaps.byPrev s.orphans.mapOrphanTransactionsByPrev h).toList,
          (s.orphans.mapOrphanTransactions[h']?).isSome := by
        intro h' hh'
        obtain ⟨x,hx,-⟩ := (ho.prev h h').mp (Std.ExtTreeSet.mem_toList.mp hh')
        rw [hx]
        rfl
      obtain ⟨horph,hle⟩ := offers_measure (s := { s with vWorkQueue := queue }) (E := E) ho _ hmem
      obtain ⟨s',hs',horph'⟩ := ih (by rw [horph]; exact ho) (hle.trans (by
        rw [hq] at hf
        simp only [length_cons,Resolve.remaining] at hf ⊢
        omega))
      exact ⟨s',hs',horph'.trans horph⟩

/-- What every message leaves of the orphans. -/
def OrphanMaps.Kept (P : Params) (o : OrphanMaps) : Prop :=
  o.Exact P ∧ o.mapOrphanTransactions.size ≤ MAX_ORPHAN_TRANSACTIONS

theorem OrphanMaps.Kept.eraseOrphanTx {o} (h : Kept P o) (hash) :
    (o.eraseOrphanTx hash).Kept P := by
  refine ⟨h.1.eraseOrphanTx hash,h.2.trans' ?_⟩
  unfold OrphanMaps.eraseOrphanTx
  split
  · exact le_rfl
  · exact ExtTreeMap.size_erase_le

theorem processTx_eq_some {orphans} (h : orphans.Kept P) (cmd tx peer pool) :
    ∃ r, processTx P E cmd tx peer pool orphans = some r ∧ r.orphans.Kept P := by
  unfold processTx
  split_ifs
  · exact ⟨_,rfl,h⟩
  · split
    · rename_i pool' _
      have hle := countP_le_length (l := orphans.mapOrphanTransactions.keys) (p := fun h => !pool'.exists' h)
      rw [ExtTreeMap.length_keys] at hle
      have hfuel : [(0 : UInt256)].length+Resolve.remaining ⟨pool',orphans,[0],[0],[]⟩ ≤
          orphans.mapOrphanTransactions.size+1 := by
        simp only [length_singleton,Resolve.remaining]
        omega
      obtain ⟨s,hs,horph⟩ := run_eq_some (E := E) (s := ⟨pool',orphans,[0],[0],[]⟩) h.1.toConsistent hfuel
      dsimp only
      rw [hs]
      exact ⟨_,rfl,foldlRecOn (motive := OrphanMaps.Kept P) _ _ (by rwa [horph]) fun _ ho hash _ =>
        ho.eraseOrphanTx hash⟩
    · exact ⟨_,rfl,(h.1.addOrphanTx tx peer).limitOrphanTxSize ..,OrphanMaps.size_limitOrphanTxSize _ _ _ le_rfl⟩
    · exact ⟨_,rfl,h⟩

/-- Every message is handled to its end, whatever came before it, and the orphans stay in order
and within their limit. -/
theorem txMessages_handled (P : Params) (pool : MemPoolMaps)
    (l : List (TxEnv × TxCommand × CTransaction × ℤ)) :
    ∃ r : TxHandled, r.orphans.Kept P ∧
      l.foldlM (fun r (E,cmd,tx,peer) => processTx P E cmd tx peer r.pool r.orphans)
      ⟨false,pool,.empty,[]⟩ = some r := by
  induction l using reverseRecOn with
  | nil => exact ⟨_,⟨OrphanMaps.exact_empty,Nat.zero_le _⟩,rfl⟩
  | append_singleton l m ih =>
    obtain ⟨r,hkept,hr⟩ := ih
    obtain ⟨r',hr',hkept'⟩ := processTx_eq_some hkept m.2.1 m.2.2.1 m.2.2.2 r.pool
    exact ⟨r',hkept',by rw [foldlM_append,hr]; simpa using hr'⟩

variable {tx : CTransaction} {pool : MemPoolMaps} {orphans : OrphanMaps}

def TxEnv.Available (E : TxEnv) (pool : MemPoolMaps) (hash : UInt256) : Prop :=
  (E.pdb (.tx hash)).isSome ∨ pool.exists' hash

/-- The accepted transaction has left the orphan pool, and every orphan all of whose
missing parents became available was offered, and is in the memory pool or erased. -/
structure Resolved (P : Params) (E : TxEnv) (tx : CTransaction) (pool : MemPoolMaps)
    (orphans : OrphanMaps)
    (r : TxHandled) : Prop where
  gone : r.orphans.mapOrphanTransactions[tx.getHash P]? = none
  offered : ∀ (h : UInt256) (x : COrphanTx), orphans.mapOrphanTransactions[h]? = some x →
    (∃ p ∈ x.tx.parents, ¬ E.Available pool p) →
    (∀ p ∈ x.tx.parents, ¬ E.Available pool p → r.pool.exists' p) →
    h ∈ r.offered ∧ (r.pool.exists' h ∨ r.orphans.mapOrphanTransactions[h]? = none)

/-- The transaction is the only parent that the orphan still waits for. -/
def TxEnv.Completes (E : TxEnv) (P : Params) (tx : CTransaction) (pool : MemPoolMaps)
    (x : COrphanTx) : Prop :=
  (∃ p ∈ x.tx.parents, ¬ E.Available pool p) ∧ ∀ p ∈ x.tx.parents, ¬ E.Available pool p → p = tx.getHash P

/-- No transaction has the null id, and the orphan under the id of the one of the
message is that transaction. -/
structure Genuine (P : Params) (E : TxEnv) (tx : CTransaction) (pool : MemPoolMaps)
    (orphans : OrphanMaps) : Prop where
  hash_ne : tx.getHash P ≠ 0
  null : ¬ E.Available pool 0
  same : ∀ x, orphans.mapOrphanTransactions[tx.getHash P]? = some x → x.tx = tx

theorem mem_parents {p} : p ∈ tx.parents ↔ ∃ i ∈ tx.vin, i.prevout.hash = p := mem_map

/-- Orphans with a parent outside of the index are not accepted, so that offering them
changes no more than the erase queue. -/
theorem offers_refused (l : List UInt256)
    (hl : ∀ h ∈ l, ∃ x, s.orphans.mapOrphanTransactions[h]? = some x ∧
      ∃ p ∈ x.tx.parents, E.pdb (.tx p) = none) :
    ∃ erased, erased ⊆ l ∧ l.foldl (Resolve.offer P E) s =
      ⟨s.pool,s.orphans,s.vWorkQueue,s.vEraseQueue++erased,s.offered++l⟩ := by
  induction l generalizing s with
  | nil => exact ⟨[],by simp,by simp⟩
  | cons h l ih =>
    obtain ⟨x,hx,p,hp,hnone⟩ := hl h mem_cons_self
    rcases offer_cases (P := P) (E := E) hx with ⟨pool',hpool,-⟩ | ⟨erased,herased,heq⟩
    · obtain ⟨i,hi,rfl⟩ := mem_parents.mp hp
      have hsome : (E.pdb (.tx i.prevout.hash)).isSome := (acceptToMemoryPool_ok hpool).2.2 i hi
      rw [hnone] at hsome
      cases hsome
    · obtain ⟨erased',hsub,hrest⟩ := ih (s := s.offer P E h)
        (by rw [heq]; exact fun h' hh' => hl h' (mem_cons_of_mem _ hh'))
      refine ⟨erased++erased',?_,?_⟩
      · rcases herased with rfl | rfl
        · exact subset_cons_of_subset h hsub
        · exact cons_subset_cons h hsub
      · rw [foldl_cons,hrest,heq]
        simp

theorem getElem?_foldl_eraseOrphanTx (l : List UInt256) (o : OrphanMaps) (h) :
    (l.foldl OrphanMaps.eraseOrphanTx o).mapOrphanTransactions[h]? =
      if h ∈ l then none else o.mapOrphanTransactions[h]? := by
  induction l generalizing o with
  | nil => simp
  | cons a l ih =>
    rw [foldl_cons,ih,OrphanMaps.getElem?_eraseOrphanTx]
    by_cases ha : h = a <;> by_cases hl : h ∈ l <;> simp [ha,hl]

theorem processTx_accepted {cmd peer r} (ho : orphans.Consistent P) (hnull : ¬ E.Available pool 0)
    (h : processTx P E cmd tx peer pool orphans = some r) (hr : r.accepted) :
    (∀ i ∈ tx.vin, (E.pdb (.tx i.prevout.hash)).isSome) ∧ r.pool = pool.addUnchecked P tx ∧
      r.offered = (OrphanMaps.byPrev orphans.mapOrphanTransactionsByPrev 0).toList ∧
      ∃ erased, erased ⊆ r.offered ∧
      r.orphans = (0::erased).foldl OrphanMaps.eraseOrphanTx orphans := by
  have hzero : E.pdb (.tx 0) = none := by
    simp only [TxEnv.Available,not_or] at hnull
    simpa using hnull.1
  unfold processTx at h
  split_ifs at h
  · cases h
    cases hr
  · split at h
    · rename_i missing pool' hacc
      obtain ⟨rfl,-,hin⟩ := acceptToMemoryPool_ok (congrArg Prod.snd hacc)
      have hl : ∀ h ∈ (OrphanMaps.byPrev orphans.mapOrphanTransactionsByPrev 0).toList,
          ∃ x, orphans.mapOrphanTransactions[h]? = some x ∧ ∃ p ∈ x.tx.parents, E.pdb (.tx p) = none := by
        intro h hh
        obtain ⟨x,hx,hp⟩ := (ho.prev 0 h).mp (Std.ExtTreeSet.mem_toList.mp hh)
        exact ⟨x,hx,0,hp,hzero⟩
      obtain ⟨erased,hsub,hoffers⟩ := offers_refused (P := P)
        (s := ⟨pool.addUnchecked P tx,orphans,[],[0],[]⟩) _ hl
      obtain ⟨s,hs,rfl⟩ := map_eq_some_iff.mp h
      -- the queue holds the null id alone, and is empty after the first round
      simp only [Resolve.run,hoffers] at hs
      obtain rfl : s = ⟨pool.addUnchecked P tx,orphans,[],[0]++erased,[]++
          (OrphanMaps.byPrev orphans.mapOrphanTransactionsByPrev 0).toList⟩ := by
        cases hsize : orphans.mapOrphanTransactions.size <;> simpa [Resolve.run,hsize,eq_comm] using hs
      exact ⟨hin,rfl,rfl,erased,hsub,rfl⟩
    · cases h
      cases hr
    · cases h
      cases hr

/-- An accepted transaction is handled as it should be exactly if there is nothing to
do: it was no orphan, and no orphan waits for it alone. -/
theorem resolved_iff_nothing_waits {cmd : TxCommand} {peer : ℤ} {r : TxHandled}
    (ho : orphans.Consistent P)
    (hg : Genuine P E tx pool orphans) (h : processTx P E cmd tx peer pool orphans = some r)
    (hr : r.accepted) :
    Resolved P E tx pool orphans r ↔ orphans.mapOrphanTransactions[tx.getHash P]? = none ∧
      ∀ (h : UInt256) (x : COrphanTx), orphans.mapOrphanTransactions[h]? = some x →
      ¬ E.Completes P tx pool x := by
  obtain ⟨hin,hpool,hoffered,erased,hsub,horph⟩ := processTx_accepted ho hg.null h hr
  have hmem : ∀ h ∈ r.offered, ∃ x, orphans.mapOrphanTransactions[h]? = some x ∧ 0 ∈ x.tx.parents := by
    intro h hh
    rw [hoffered] at hh
    exact (ho.prev 0 h).mp (Std.ExtTreeSet.mem_toList.mp hh)
  -- the transaction itself is not among the offered orphans, as all of its parents are indexed
  have hself : tx.getHash P ∉ 0::erased := by
    intro hself
    rcases mem_cons.mp hself with hz | hh
    · exact hg.hash_ne hz
    · obtain ⟨x,hx,hp⟩ := hmem _ (hsub hh)
      rw [hg.same x hx] at hp
      obtain ⟨i,hi,hzero⟩ := mem_parents.mp hp
      exact hg.null (.inl (hzero ▸ hin i hi))
  have hgone : r.orphans.mapOrphanTransactions[tx.getHash P]? =
      orphans.mapOrphanTransactions[tx.getHash P]? := by
    rw [horph,getElem?_foldl_eraseOrphanTx,if_neg hself]
  have hexists : ∀ p, r.pool.exists' p ↔ p = tx.getHash P ∨ pool.exists' p := by
    intro p
    rw [hpool,exists'_addUnchecked]
    simp
  constructor
  · intro hres
    refine ⟨hgone ▸ hres.gone,fun h x hx hc => ?_⟩
    have hnew : ∀ p ∈ x.tx.parents, ¬ E.Available pool p → r.pool.exists' p :=
      fun p hp hmiss => (hexists p).mpr (.inl (hc.2 p hp hmiss))
    obtain ⟨x',hx',hzero⟩ := hmem h (hres.offered h x hx hc.1 hnew).1
    obtain rfl : x' = x := some.inj (hx'.symm.trans hx)
    exact hg.hash_ne (hc.2 0 hzero hg.null).symm
  · rintro ⟨hnone,hwait⟩
    refine ⟨hgone.trans hnone,fun h x hx hmiss hnew => ?_⟩
    refine absurd ⟨hmiss,fun p hp hmissp => ?_⟩ (hwait h x hx)
    rcases (hexists p).mp (hnew p hp hmissp) with hp' | hp'
    · exact hp'
    · exact absurd (.inr hp') hmissp

namespace Sample

def txEnv : TxEnv := ⟨world 300 [fundBlock],tip,state.txdb.pdb,300,fun _ => false,fun _ => 0⟩

/-- The orphan pool after `pay₂` came without its first parent. -/
def waitingOrphans : OrphanMaps := (OrphanMaps.empty.addOrphanTx params pay₂ 1).2

theorem consistent_waitingOrphans : waitingOrphans.Consistent params :=
  OrphanMaps.consistent_empty.addOrphanTx pay₂ 1

theorem getElem?_waitingOrphans (h) :
    waitingOrphans.mapOrphanTransactions[h]? = if pay₂.getHash params =
      h then some ⟨pay₂,1⟩ else none := by
  have hadd : waitingOrphans.mapOrphanTransactions =
      (∅ : HashMap COrphanTx).insert (pay₂.getHash params) ⟨pay₂,1⟩ := by
    have hsmall : pay₂.serialize.length ≤ 5000 := by decide +kernel
    simp [waitingOrphans,OrphanMaps.addOrphanTx,OrphanMaps.empty,Nat.not_lt.mpr hsmall]
  rw [hadd,getElem?_insert,ExtTreeMap.getElem?_empty]

example :
    (processTx params txEnv .tx pay₂ 1 .empty .empty).map (fun r =>
      r.orphans.mapOrphanTransactions.toList.map
      fun x => (x.1,x.2.tx,x.2.fromPeer)) = some [(pay₂.getHash params,pay₂,1)] := by decide +kernel

theorem not_available {h} (hdb : (txEnv.pdb (.tx h)).isSome = false)
    (hpool : MemPoolMaps.empty.exists' h = false) : ¬ txEnv.Available .empty h := by
  rintro (hin | hin)
  · exact Bool.false_ne_true (hdb.symm.trans hin)
  · exact Bool.false_ne_true (hpool.symm.trans hin)

theorem not_available_pay₁ : ¬ txEnv.Available .empty (pay₁.getHash params) :=
  not_available (by decide +kernel) (by decide +kernel)

end Sample

open Sample

theorem resolved_iff_nothing_waits_pay₃ :
    ∃ r, processTx params txEnv .tx pay₃ 1 .empty waitingOrphans = some r ∧
      r.accepted ∧ Resolved params txEnv pay₃ .empty waitingOrphans r := by
  have hacc : (processTx params txEnv .tx pay₃ 1 .empty waitingOrphans).map
      TxHandled.accepted = some true := by decide +kernel
  obtain ⟨r,hr,htrue⟩ := map_eq_some_iff.mp hacc
  have hne : pay₂.getHash params ≠ pay₃.getHash params := by decide +kernel
  have hnone : waitingOrphans.mapOrphanTransactions[pay₃.getHash params]? = none := by
    rw [getElem?_waitingOrphans,if_neg hne]
  have hgenuine : Genuine params txEnv pay₃ .empty waitingOrphans := by
    refine ⟨by decide +kernel,not_available (by decide +kernel) (by decide +kernel),fun x hx => ?_⟩
    rw [hnone] at hx
    cases hx
  refine ⟨r,hr,htrue,(resolved_iff_nothing_waits consistent_waitingOrphans hgenuine hr htrue).mpr
    ⟨hnone,fun h x hx hc => ?_⟩⟩
  rw [getElem?_waitingOrphans] at hx
  split_ifs at hx
  cases hx
  have heq := hc.2 (pay₁.getHash params) (by decide +kernel) not_available_pay₁
  exact absurd heq (by decide +kernel)

/-- The parent arrives and is accepted. The orphan that waits for it alone is not even
offered, and stays in the orphan pool. -/
theorem orphan_not_resolved :
    ∃ r, processTx params txEnv .tx pay₁ 1 .empty waitingOrphans = some r ∧
      r.accepted ∧ r.offered = [] ∧
      txEnv.Completes params pay₁ .empty ⟨pay₂,1⟩ ∧
      r.orphans.mapOrphanTransactions.contains (pay₂.getHash params) = true ∧
      r.pool.exists' (pay₂.getHash params) = false ∧
      ¬ Resolved params txEnv pay₁ .empty waitingOrphans r := by
  have hrun : (processTx params txEnv .tx pay₁ 1 .empty waitingOrphans).map
      (fun r => (r.accepted,r.offered,r.orphans.mapOrphanTransactions.contains (pay₂.getHash params),
        r.pool.exists' (pay₂.getHash params),
        r.pool.exists' (pay₁.getHash params))) = some (true,[],true,false,true) := by decide +kernel
  obtain ⟨r,hr,hval⟩ := map_eq_some_iff.mp hrun
  simp only [Prod.mk.injEq] at hval
  obtain ⟨hacc,hoff,hstay,hpool,hnew⟩ := hval
  have hfund : (txEnv.pdb (.tx (fund.getHash params))).isSome = true := by decide +kernel
  have hparents : ∀ p ∈ pay₂.parents, p = pay₁.getHash params ∨ txEnv.Available .empty p := by
    intro p hp
    rcases mem_pair.mp (show p ∈ [_,_] from hp) with rfl | rfl
    · exact .inl rfl
    · exact .inr (.inl hfund)
  have hmiss : ∃ p ∈ pay₂.parents, ¬ txEnv.Available .empty p :=
    ⟨_,mem_cons_self,not_available_pay₁⟩
  refine ⟨r,hr,hacc,hoff,⟨hmiss,fun p hp hmissp => (hparents p hp).resolve_right hmissp⟩,hstay,
    hpool,fun hres => ?_⟩
  have hoffered := (hres.offered (pay₂.getHash params) ⟨pay₂,1⟩
    (by rw [getElem?_waitingOrphans,if_pos rfl]) hmiss
    fun p hp hmissp => (hparents p hp).resolve_right hmissp ▸ hnew).1
  rw [hoff] at hoffered
  cases hoffered

end DarkSilk
