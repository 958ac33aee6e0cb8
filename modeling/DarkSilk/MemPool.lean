import DarkSilk.ConnectBlock

/-! The memory pool: transactions by id and, for every outpoint they spend, the
spender. Transactions leave it alone or together with everything that depends on them. -/
namespace DarkSilk

open List Option

structure CTxMemPool where
  mapTx : HashMap CTransaction
  mapNextTx : COutPoint → Option CTransaction

namespace CTxMemPool

variable (P : Params)

def addUnchecked (pool : CTxMemPool) (tx : CTransaction) : CTxMemPool where
  mapTx := pool.mapTx.insert (tx.getHash P) tx
  mapNextTx := fun o => if o ∈ tx.prevouts then some tx else pool.mapNextTx o

def erase (pool : CTxMemPool) (tx : CTransaction) : CTxMemPool where
  mapTx := pool.mapTx.erase (tx.getHash P)
  mapNextTx := fun o => if o ∈ tx.prevouts then none else pool.mapNextTx o

def remove (pool : CTxMemPool) (tx : CTransaction) : CTxMemPool :=
  if pool.mapTx.contains (tx.getHash P) then pool.erase P tx else pool

def removeSpenders (rec : CTransaction → CTxMemPool → Option CTxMemPool) (hash : UInt256) :
    List ℕ → CTxMemPool → Option CTxMemPool
  | [], pool => some pool
  | i::l, pool =>
    match pool.mapNextTx ⟨hash,UInt32.ofNat i⟩ with
    | none => removeSpenders rec hash l pool
    | some spender => (rec spender pool).bind (removeSpenders rec hash l)

/-- Recursive removal, spenders first. A call is open for every transaction on the way
down, and all of these are still in the pool, so that a descent deeper than the pool
is large has come back to itself and never ends: there the result is none. -/
def removeRecursive : ℕ → CTransaction → CTxMemPool → Option CTxMemPool
  | 0, _, _ => none
  | fuel+1, tx, pool =>
    if pool.mapTx.contains (tx.getHash P) then
      (removeSpenders (removeRecursive fuel) (tx.getHash P) (List.range tx.vout.length) pool).map
        fun pool => pool.erase P tx
    else some pool

def removeConflictsLoop (tx : CTransaction) : List CTxIn → CTxMemPool → Option CTxMemPool
  | [], pool => some pool
  | i::vin, pool =>
    match pool.mapNextTx i.prevout with
    | none => removeConflictsLoop tx vin pool
    | some txConflict =>
      if txConflict ≠ tx then
        (removeRecursive P (pool.mapTx.size+1) txConflict pool).bind (removeConflictsLoop tx vin)
      else removeConflictsLoop tx vin pool

def removeConflicts (pool : CTxMemPool) (tx : CTransaction) : Option CTxMemPool :=
  removeConflictsLoop P tx tx.vin pool

end CTxMemPool

variable (P : Params)

def acceptable (W : World) (tx : CTransaction) (pool : CTxMemPool) : Except Reject Unit := do
  (match checkTransaction tx with
    | .ok _ => .ok ()
    | .error _ => .error ⟨0,"AcceptToMemoryPool : CheckTransaction failed"⟩)
  require (!tx.isCoinBase) 100 "AcceptToMemoryPool : coinbase as individual tx"
  require (!tx.isCoinStake) 100 "AcceptToMemoryPool : coinstake as individual tx"
  require (P.testNet || P.isStandardTx tx) 0 "AcceptToMemoryPool : nonstandard transaction"
  require (!pool.mapTx.contains (tx.getHash P)) 0 ""
  checkAll (fun i => match W.mapLockedInputs i.prevout with
    | none => .ok ()
    | some hash => require (hash = tx.getHash P) 0
        "AcceptToMemoryPool : conflicts with existing transaction lock") tx.vin
  checkAll (fun i => require (pool.mapNextTx i.prevout).isNone 0 "") tx.vin

/-- The checks from FetchInputs on, with a rule for the fee. -/
def acceptInputs (W : World) (tip : Tip) (db : CTxDB) (checkFee : CAmount → Except Reject Unit)
    (tx : CTransaction) : Except Reject Unit := do
  let inputs ← fetchInputs W db ∅ false false tx
  require (P.testNet || P.areInputsStandard tx (tx.prevouts.filterMap (getOutputFor inputs))) 0
    "AcceptToMemoryPool : nonstandard transaction input"
  require (Script.getLegacySigOpCount tx+getP2SHSigOpCount inputs tx ≤ MAX_TX_SIGOPS) 0
    "AcceptToMemoryPool : too many sigops"
  require ((getValueIn inputs tx).isSome && tx.getValueOut.isSome) 0
    "CTransaction::GetValueOut() : value out of range"
  checkFee ((getValueIn inputs tx).getD 0-tx.getValueOut.getD 0)
  let _ ← connectInputs P tip tx .memPool tip.pindexBest false false Flags.STANDARD true inputs ∅
  let _ ← connectInputs P tip tx .memPool tip.pindexBest false false Flags.MANDATORY true inputs ∅
  .ok ()

/-- Admission to the pool as Reorganize asks for it, with no fee demanded. -/
def acceptToMemoryPool (W : World) (tip : Tip) (db : CTxDB) (tx : CTransaction)
    (pool : CTxMemPool) : Except Reject CTxMemPool := do
  acceptable P W tx pool
  checkAll (fun i => require (db.containsTx i.prevout.hash) 0 "") tx.vin
  acceptInputs P W tip db (fun _ => .ok ()) tx
  .ok (pool.addUnchecked P tx)

namespace CTxMemPool

variable {P : Params} {pool pool' pool'' : CTxMemPool} {tx T : CTransaction}

def Has (P : Params) (pool : CTxMemPool) (tx : CTransaction) : Prop :=
  pool.mapTx[tx.getHash P]? = some tx

structure Consistent (P : Params) (pool : CTxMemPool) : Prop where
  key : ∀ (h : UInt256) (tx : CTransaction), pool.mapTx[h]? = some tx → tx.getHash P = h
  next : ∀ o tx, pool.mapNextTx o = some tx ↔ pool.Has P tx ∧ o ∈ tx.prevouts

/-- `pool'` keeps only transactions of `pool`, and none that spends an output of one
that has gone. -/
structure Shrinks (P : Params) (pool pool' : CTxMemPool) : Prop where
  consistent : Consistent P pool'
  sub : ∀ tx, pool'.Has P tx → pool.Has P tx
  closed : ∀ T, pool.Has P T → ¬ pool'.Has P T → ∀ tx, pool'.Has P tx → ∀ o ∈ tx.prevouts,
    o.hash = T.getHash P → ¬ o.n.toNat < T.vout.length

theorem Shrinks.refl (h : Consistent P pool) : Shrinks P pool pool :=
  ⟨h,fun _ ht => ht,fun _ hT hT' => absurd hT hT'⟩

theorem Shrinks.trans (h : Shrinks P pool pool') (h' : Shrinks P pool' pool'') :
    Shrinks P pool pool'' := by
  refine ⟨h'.consistent,fun tx htx => h.sub tx (h'.sub tx htx),fun T hT hT' tx htx => ?_⟩
  by_cases hm : pool'.Has P T
  · exact h'.closed T hm hT' tx htx
  · exact h.closed T hT hm tx (h'.sub tx htx)

theorem has_erase : (pool.erase P T).Has P tx ↔ tx.getHash P ≠ T.getHash P ∧ pool.Has P tx := by
  simp only [Has,erase,getElem?_erase]
  by_cases h : T.getHash P = tx.getHash P
  · simp [h]
  · simp [h,Ne.symm h]

def Apart (P : Params) (pool : CTxMemPool) (T : CTransaction) : Prop :=
  ∀ tx, pool.Has P tx → (tx.getHash P = T.getHash P ∨ ∃ o ∈ T.prevouts, o ∈ tx.prevouts) → tx = T

theorem Consistent.apart (h : Consistent P pool) (hT : pool.Has P T) : Apart P pool T := by
  rintro tx htx (hid | ⟨o,ho,ho'⟩)
  · rw [Has,hid] at htx
    exact some.inj (htx.symm.trans hT)
  · have h1 := (h.next o tx).mpr ⟨htx,ho'⟩
    exact some.inj (h1.symm.trans ((h.next o T).mpr ⟨hT,ho⟩))

theorem Shrinks.apart (h : Shrinks P pool pool') (hT : Apart P pool T) : Apart P pool' T :=
  fun tx htx => hT tx (h.sub tx htx)

theorem Consistent.erase (h : Consistent P pool) (hT : Apart P pool T) :
    Consistent P (pool.erase P T) := by
  refine ⟨fun k tx hk => ?_,fun o tx => ?_⟩
  · simp only [CTxMemPool.erase,getElem?_erase] at hk
    split_ifs at hk
    exact h.key k tx hk
  · rw [has_erase]
    by_cases ho : o ∈ T.prevouts
    · simp only [CTxMemPool.erase,ho,if_true,reduceCtorEq,false_iff]
      rintro ⟨⟨hne,htx⟩,ho'⟩
      exact hne (by rw [hT tx htx (.inr ⟨o,ho,ho'⟩)])
    · simp only [CTxMemPool.erase,ho,if_false,h.next]
      constructor
      · rintro ⟨htx,ho'⟩
        refine ⟨⟨fun he => ho ?_,htx⟩,ho'⟩
        rwa [← hT tx htx (.inl he)]
      · rintro ⟨⟨-,htx⟩,ho'⟩
        exact ⟨htx,ho'⟩

theorem Shrinks.erase (h : Consistent P pool) (hT : Apart P pool T)
    (hfree : ∀ tx, pool.Has P tx → ∀ o ∈ tx.prevouts, o.hash = T.getHash P →
      ¬ o.n.toNat < T.vout.length) :
    Shrinks P pool (pool.erase P T) := by
  refine ⟨h.erase hT,fun tx htx => (has_erase.mp htx).2,fun U hU hU' tx htx o ho hoU => ?_⟩
  have hUT : U.getHash P = T.getHash P := by
    by_contra hne
    exact hU' (has_erase.mpr ⟨hne,hU⟩)
  obtain rfl := hT U hU (.inl hUT)
  exact hfree tx (has_erase.mp htx).2 o ho hoU

theorem has_remove : (pool.remove P T).Has P tx ↔ tx.getHash P ≠ T.getHash P ∧ pool.Has P tx := by
  unfold remove
  split_ifs with hc
  · exact has_erase
  · refine ⟨fun h => ⟨fun he => hc ?_,h⟩,fun h => h.2⟩
    rw [← he,Std.ExtTreeMap.contains_eq_isSome_getElem?,h]
    rfl

theorem Consistent.remove (h : Consistent P pool)
    (hT : ∀ tx, pool.Has P tx → tx.getHash P = T.getHash P → tx = T) :
    Consistent P (pool.remove P T) := by
  unfold CTxMemPool.remove
  split_ifs with hc
  · rw [Std.ExtTreeMap.contains_eq_isSome_getElem?,isSome_iff_exists] at hc
    obtain ⟨tx,htx⟩ := hc
    have hid := h.key _ tx htx
    have hhas : pool.Has P tx := by rwa [Has,hid]
    exact h.erase (h.apart (hT tx hhas hid ▸ hhas))
  · exact h

theorem Shrinks.mapNextTx_eq_none (h : Consistent P pool) (hs : Shrinks P pool pool') {o}
    (ho : pool.mapNextTx o = none) : pool'.mapNextTx o = none := by
  cases hx : pool'.mapNextTx o with
  | none => rfl
  | some tx =>
    obtain ⟨htx,hmem⟩ := (hs.consistent.next o tx).mp hx
    rw [(h.next o tx).mpr ⟨hs.sub tx htx,hmem⟩] at ho
    cases ho

theorem removeSpenders_shrinks {rec hash}
    (hrec : ∀ {tx pool pool'}, Consistent P pool → Apart P pool tx → rec tx pool = some pool' →
      Shrinks P pool pool' ∧ ¬ pool'.Has P tx) {l} (hpool : Consistent P pool)
    (h : removeSpenders rec hash l pool = some pool') :
    Shrinks P pool pool' ∧ ∀ i ∈ l, pool'.mapNextTx ⟨hash,UInt32.ofNat i⟩ = none := by
  induction l generalizing pool with
  | nil =>
    rw [removeSpenders,some.injEq] at h
    exact h ▸ ⟨.refl hpool,by simp⟩
  | cons i l ih =>
    rw [removeSpenders] at h
    cases hx : pool.mapNextTx ⟨hash,UInt32.ofNat i⟩ with
    | none =>
      rw [hx] at h
      obtain ⟨h1,h2⟩ := ih hpool h
      exact ⟨h1,forall_mem_cons.mpr ⟨h1.mapNextTx_eq_none hpool hx,h2⟩⟩
    | some spender =>
      rw [hx] at h
      obtain ⟨m,hm,h⟩ := bind_eq_some_iff.mp h
      obtain ⟨hhas,ho⟩ := (hpool.next _ _).mp hx
      obtain ⟨hs,hgone⟩ := hrec hpool (hpool.apart hhas) hm
      obtain ⟨h1,h2⟩ := ih hs.consistent h
      have hnone : m.mapNextTx ⟨hash,UInt32.ofNat i⟩ = none := by
        cases hy : m.mapNextTx ⟨hash,UInt32.ofNat i⟩ with
        | none => rfl
        | some tx =>
          obtain ⟨htx,ho'⟩ := (hs.consistent.next _ _).mp hy
          rw [hpool.apart hhas tx (hs.sub tx htx) (.inr ⟨_,ho,ho'⟩)] at htx
          exact absurd htx hgone
      exact ⟨hs.trans h1,forall_mem_cons.mpr ⟨h1.mapNextTx_eq_none hs.consistent hnone,h2⟩⟩

/-- A recursive removal that comes to an end takes the transaction out with
everything that depends on it. -/
theorem removeRecursive_shrinks {fuel} (hpool : Consistent P pool) (hT : Apart P pool T)
    (h : removeRecursive P fuel T pool = some pool') : Shrinks P pool pool' ∧ ¬ pool'.Has P T := by
  induction fuel generalizing T pool pool' with
  | zero => exact absurd h (by simp [removeRecursive])
  | succ fuel ih =>
    rw [removeRecursive] at h
    split_ifs at h with hc
    · obtain ⟨m,hm,rfl⟩ := map_eq_some_iff.mp h
      obtain ⟨hs,hnone⟩ := removeSpenders_shrinks ih hpool hm
      refine ⟨hs.trans (.erase hs.consistent (hs.apart hT) ?_),fun hhas => (has_erase.mp hhas).1 rfl⟩
      intro tx htx o ho hid hlt
      have h1 := hnone o.n.toNat (mem_range.mpr hlt)
      rw [← hid,UInt32.ofNat_toNat,(hs.consistent.next o tx).mpr ⟨htx,ho⟩] at h1
      cases h1
    · rw [some.injEq] at h
      subst h
      refine ⟨.refl hpool,fun hhas => hc ?_⟩
      rw [Std.ExtTreeMap.contains_eq_isSome_getElem?,hhas]
      rfl

theorem removeConflictsLoop_shrinks {vin} (hpool : Consistent P pool)
    (h : removeConflictsLoop P T vin pool = some pool') :
    Shrinks P pool pool' ∧ ∀ tx, pool'.Has P tx → ∀ i ∈ vin, i.prevout ∈ tx.prevouts → tx = T := by
  induction vin generalizing pool with
  | nil =>
    rw [removeConflictsLoop,some.injEq] at h
    exact h ▸ ⟨.refl hpool,by simp⟩
  | cons i vin ih =>
    -- after this input only T itself may still spend it, and later removals keep that
    have step : ∀ {m}, Shrinks P pool m → (∀ tx, m.Has P tx → i.prevout ∈ tx.prevouts → tx = T) →
        removeConflictsLoop P T vin m = some pool' → Shrinks P pool pool' ∧
          ∀ tx, pool'.Has P tx → ∀ j ∈ i::vin, j.prevout ∈ tx.prevouts → tx = T := by
      intro m hs hi hm
      obtain ⟨h1,h2⟩ := ih hs.consistent hm
      refine ⟨hs.trans h1,fun tx htx j hj hjo => ?_⟩
      rcases mem_cons.mp hj with rfl | hj
      · exact hi tx (h1.sub tx htx) hjo
      · exact h2 tx htx j hj hjo
    rw [removeConflictsLoop] at h
    cases hx : pool.mapNextTx i.prevout with
    | none =>
      rw [hx] at h
      refine step (.refl hpool) (fun tx htx ho => ?_) h
      rw [(hpool.next _ tx).mpr ⟨htx,ho⟩] at hx
      cases hx
    | some U =>
      obtain ⟨hhas,hU⟩ := (hpool.next _ _).mp hx
      simp only [hx] at h
      split_ifs at h with hne
      · obtain ⟨m,hm,h⟩ := bind_eq_some_iff.mp h
        obtain ⟨hs,hgone⟩ := removeRecursive_shrinks hpool (hpool.apart hhas) hm
        refine step hs (fun tx htx ho => absurd htx ?_) h
        rwa [hpool.apart hhas tx (hs.sub tx htx) (.inr ⟨_,hU,ho⟩)]
      · refine step (.refl hpool) (fun tx htx ho => ?_) h
        rw [hpool.apart hhas tx htx (.inr ⟨_,hU,ho⟩)]
        exact not_not.mp hne

theorem removeConflicts_shrinks (hpool : Consistent P pool)
    (h : pool.removeConflicts P T = some pool') :
    Shrinks P pool pool' ∧ ∀ tx, pool'.Has P tx → ∀ o ∈ T.prevouts, o ∈ tx.prevouts → tx = T := by
  obtain ⟨h1,h2⟩ := removeConflictsLoop_shrinks hpool h
  refine ⟨h1,fun tx htx o ho => ?_⟩
  obtain ⟨i,hi,rfl⟩ := mem_map.mp ho
  exact h2 tx htx i hi

theorem has_addUnchecked (hT : pool.mapTx[T.getHash P]? = none) :
    (pool.addUnchecked P T).Has P tx ↔ tx = T ∨ pool.Has P tx := by
  simp only [Has,addUnchecked,getElem?_insert]
  split_ifs with hh
  · rw [← hh,hT,some.injEq]
    simp [eq_comm]
  · refine ⟨.inr,?_⟩
    rintro (rfl | h)
    · exact absurd rfl hh
    · exact h

theorem Consistent.addUnchecked (h : Consistent P pool) (hT : pool.mapTx[T.getHash P]? = none)
    (hfree : ∀ o ∈ T.prevouts, pool.mapNextTx o = none) : Consistent P (pool.addUnchecked P T) := by
  refine ⟨fun k tx hk => ?_,fun o tx => ?_⟩
  · simp only [CTxMemPool.addUnchecked,getElem?_insert] at hk
    split_ifs at hk with hh
    · rw [← hh,← some.inj hk]
    · exact h.key k tx hk
  · rw [has_addUnchecked hT]
    by_cases ho : o ∈ T.prevouts
    · simp only [CTxMemPool.addUnchecked,ho,if_true,some.injEq]
      constructor
      · rintro rfl
        exact ⟨.inl rfl,ho⟩
      · rintro ⟨rfl | htx,ho'⟩
        · rfl
        · have h1 := hfree o ho
          rw [(h.next o tx).mpr ⟨htx,ho'⟩] at h1
          cases h1
    · simp only [CTxMemPool.addUnchecked,ho,if_false,h.next]
      refine ⟨fun hx => ⟨.inr hx.1,hx.2⟩,?_⟩
      rintro ⟨rfl | htx,ho'⟩
      · exact absurd ho' ho
      · exact ⟨htx,ho'⟩

end CTxMemPool

variable {P : Params} {W : World} {tip : Tip} {db : CTxDB} {tx : CTransaction} {pool pool' : CTxMemPool}

theorem containsTx_of_idle (hidle : db.activeBatch = none) (hash) :
    db.containsTx hash = (db.txView hash).isSome := by
  simp [CTxDB.containsTx,BatchStore.TxDB.exists',hidle,CTxDB.txView,txPart, BatchStore.TxDB.view_of_idle hidle]

/-- An admitted transaction spends outputs that are unspent in the committed index
and that nothing in the pool spends. -/
theorem acceptToMemoryPool_spec (hidle : db.activeBatch = none)
    (h : acceptToMemoryPool P W tip db tx pool = .ok pool') :
    pool' = pool.addUnchecked P tx ∧ pool.mapTx[tx.getHash P]? = none ∧
      (∀ o ∈ tx.prevouts, pool.mapNextTx o = none) ∧
      ∀ o ∈ tx.prevouts, SpendIndex.cell db.txView o.key = some .setNull := by
  simp only [acceptToMemoryPool,acceptable,acceptInputs,bind_eq_ok,require_eq_ok,checkAll_eq_ok,
    Except.ok.injEq] at h
  obtain ⟨_,⟨_,-,_,hcb,_,-,_,-,_,hnew,_,-,hfree⟩,_,hfound,_,⟨inputs,hin,_,-,_,-,_,-,_,-,q,hc,-⟩,rfl⟩ := h
  have hcb' : tx.isCoinBase = false := by simpa using hcb
  have hidx : ∀ h, fetchTxIndex db ∅ false false h = db.txView h := fun h => CTxDB.readTxIndex_eq db h
  have hsome : ∀ i ∈ tx.vin, false ∨ (db.txView i.prevout.hash).isSome := by
    intro i hi
    rw [← containsTx_of_idle hidle]
    exact .inr (hfound i hi)
  have hf := (fetched_of_fetchInputs hcb' hidx hsome hin).1
  have hcell := connectInputs_unspent hcb' (by decide) hf hc
  refine ⟨rfl,?_,?_,?_⟩
  · rw [Std.ExtTreeMap.contains_eq_isSome_getElem?,not_isSome,isNone_iff_eq_none] at hnew
    exact hnew
  · intro o ho
    obtain ⟨i,hi,rfl⟩ := mem_map.mp ho
    simpa using hfree i hi
  · intro o ho
    obtain ⟨i,hi,rfl⟩ := mem_map.mp ho
    exact hcell i hi

end DarkSilk
