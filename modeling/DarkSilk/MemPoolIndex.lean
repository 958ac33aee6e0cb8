import DarkSilk.MemPool
import Mathlib.Logic.Relation

/-! The spend index of the memory pool as the code keeps it: for every outpoint a pointer
to the transaction in the pool that spends it, and the number of the input. Without the
numbers, and with the pointers followed, it is the index of `CTxMemPool`. -/

namespace DarkSilk

open Std List
open Option hiding mem_map mem_toFinset

/-- A pointer into the map of transactions, which stays where it is while the entry is
there, and the number of an input. -/
structure CInPoint where
  ptx : UInt256
  n : ℕ
  deriving DecidableEq, Repr

structure IndexedPool where
  mapTx : HashMap CTransaction
  mapNextTx : COutPoint → Option CInPoint

namespace IndexedPool

variable (P : Params)

def empty : IndexedPool := ⟨∅,fun _ => none⟩

def addInputs (hash : UInt256) (vin : List CTxIn) (mapNextTx : COutPoint → Option CInPoint) :
    COutPoint → Option CInPoint :=
  vin.zipIdx.foldl (fun m x => Function.update m x.1.prevout (some ⟨hash,x.2⟩)) mapNextTx

def addUnchecked (pool : IndexedPool) (tx : CTransaction) : IndexedPool where
  mapTx := pool.mapTx.insert (tx.getHash P) tx
  mapNextTx := addInputs (tx.getHash P) tx.vin pool.mapNextTx

def eraseInputs (vin : List CTxIn) (mapNextTx : COutPoint → Option CInPoint) :
    COutPoint → Option CInPoint :=
  vin.foldl (fun m i => Function.update m i.prevout none) mapNextTx

def erase (pool : IndexedPool) (tx : CTransaction) : IndexedPool where
  mapTx := pool.mapTx.erase (tx.getHash P)
  mapNextTx := eraseInputs tx.vin pool.mapNextTx

/-- The loop of a recursive removal over the outputs. To follow a pointer to an entry that
has gone is undefined. -/
def removeSpenders (rec : CTransaction → IndexedPool → Option IndexedPool) (hash : UInt256) :
    List ℕ → IndexedPool → Option IndexedPool
  | [], pool => some pool
  | i::l, pool =>
    match pool.mapNextTx ⟨hash,UInt32.ofNat i⟩ with
    | none => removeSpenders rec hash l pool
    | some it => (pool.mapTx[it.ptx]?).bind fun spender => (rec spender pool).bind (removeSpenders rec hash l)

/-- A removal that goes deeper than the pool is large never ends. -/
def remove : ℕ → CTransaction → Bool → IndexedPool → Option IndexedPool
  | 0, _, _, _ => none
  | fuel+1, tx, fRecursive, pool =>
    if pool.mapTx.contains (tx.getHash P) then
      (if fRecursive then
        removeSpenders (fun spender => remove fuel spender true) (tx.getHash P) (List.range tx.vout.length) pool
      else some pool).map fun pool => pool.erase P tx
    else some pool

def removeConflicts (tx : CTransaction) : List CTxIn → IndexedPool → Option IndexedPool
  | [], pool => some pool
  | i::vin, pool =>
    match pool.mapNextTx i.prevout with
    | none => removeConflicts tx vin pool
    | some it => (pool.mapTx[it.ptx]?).bind fun txConflict =>
      if txConflict ≠ tx then (remove P (pool.mapTx.size+1) txConflict true pool).bind (removeConflicts tx vin)
      else removeConflicts tx vin pool

end IndexedPool

inductive IndexOp
  | addUnchecked (tx : CTransaction)
  | remove (tx : CTransaction) (fRecursive : Bool)
  | removeConflicts (tx : CTransaction)
  | clear
  deriving DecidableEq, Repr

def IndexedPool.step (P : Params) (pool : IndexedPool) : IndexOp → Option IndexedPool
  | .addUnchecked tx => some (pool.addUnchecked P tx)
  | .remove tx fRecursive => IndexedPool.remove P (pool.mapTx.size+1) tx fRecursive pool
  | .removeConflicts tx => IndexedPool.removeConflicts P tx tx.vin pool
  | .clear => some .empty

namespace CTxMemPool

variable {P : Params} {pool pool' m : CTxMemPool} {T tx : CTransaction} {R : CTransaction → CTransaction → Prop}

def Names (P : Params) (tx T : CTransaction) : Prop := ∃ o ∈ tx.prevouts, o.hash = T.getHash P

instance (P : Params) (tx T : CTransaction) : Decidable (Names P tx T) :=
  inferInstanceAs (Decidable (∃ o ∈ tx.prevouts, _))

def txs (pool : CTxMemPool) : Finset CTransaction := (pool.mapTx.toList.map Prod.snd).toFinset

theorem mem_txs (h : Consistent P pool) : tx ∈ pool.txs ↔ pool.Has P tx := by
  simp only [txs,mem_toFinset,mem_map,Prod.exists,exists_eq_right,Has]
  constructor
  · rintro ⟨k,hk⟩
    have hget := ExtTreeMap.mem_toList_iff_getElem?_eq_some.mp hk
    rwa [h.key k tx hget]
  · intro htx
    exact ⟨_,ExtTreeMap.mem_toList_iff_getElem?_eq_some.mpr htx⟩

theorem card_txs_le (pool : CTxMemPool) : pool.txs.card ≤ pool.mapTx.size := by
  calc pool.txs.card ≤ (pool.mapTx.toList.map Prod.snd).length := toFinset_card_le _
    _ = pool.mapTx.size := by rw [length_map,ExtTreeMap.length_toList]

open Classical in
noncomputable def descendants (R : CTransaction → CTransaction → Prop) (pool : CTxMemPool)
    (T : CTransaction) :
    Finset CTransaction :=
  pool.txs.filter fun t => Relation.ReflTransGen R t T

theorem mem_descendants :
    tx ∈ descendants R pool T ↔ tx ∈ pool.txs ∧ Relation.ReflTransGen R tx T := by
  unfold descendants
  simp only [Finset.mem_filter]

theorem card_descendants_le (pool : CTxMemPool) : (descendants R pool T).card ≤ pool.mapTx.size :=
  (Finset.card_le_card fun _ ht => (mem_descendants.mp ht).1).trans pool.card_txs_le

/-- A spender has fewer descendants, in any later pool, than what it spends. -/
theorem card_descendants_lt (hpool : Consistent P pool) (hm : Shrinks P pool m) (hT : pool.Has P T)
    (hR : R tx T)
    (hacyclic : ¬ Relation.TransGen R T T) :
    (descendants R m tx).card < (descendants R pool T).card := by
  apply Finset.card_lt_card
  refine Finset.ssubset_iff_subset_ne.mpr ⟨fun t ht => ?_,fun heq => ?_⟩
  · rw [mem_descendants] at ht ⊢
    exact ⟨(mem_txs hpool).mpr (hm.sub t ((mem_txs hm.consistent).mp ht.1)),ht.2.tail hR⟩
  · have hmem : T ∈ descendants R pool T := mem_descendants.mpr ⟨(mem_txs hpool).mpr hT,.refl⟩
    rw [← heq,mem_descendants] at hmem
    exact hacyclic (Relation.TransGen.tail' hmem.2 hR)

theorem removeSpenders_isSome {rec hash}
    (hrec : ∀ {tx pool pool'}, Consistent P pool → Apart P pool tx → rec tx pool = some pool' →
      Shrinks P pool pool' ∧ ¬ pool'.Has P tx)
    (hsome : ∀ {m tx}, Shrinks P pool m → m.Has P tx → (∃ o ∈ tx.prevouts, o.hash = hash) →
      (rec tx m).isSome) (l) (hm : Shrinks P pool m) : (removeSpenders rec hash l m).isSome := by
  induction l generalizing m with
  | nil => rfl
  | cons i l ih =>
    rw [removeSpenders]
    cases hx : m.mapNextTx ⟨hash,UInt32.ofNat i⟩ with
    | none => exact ih hm
    | some spender =>
      obtain ⟨hhas,ho⟩ := (hm.consistent.next _ _).mp hx
      obtain ⟨m',hm'⟩ := isSome_iff_exists.mp (hsome hm hhas ⟨_,ho,rfl⟩)
      simp only [hm',bind_some]
      exact ih (hm.trans (hrec hm.consistent (hm.consistent.apart hhas) hm').1)

theorem removeRecursive_isSome {fuel} (hpool : Consistent P pool) (hT : Apart P pool T)
    (hR : ∀ tx T, pool.Has P tx → pool.Has P T → Names P tx T → R tx T)
    (hacyclic : ∀ T, ¬ Relation.TransGen R T T)
    (hfuel : (descendants R pool T).card < fuel) : (removeRecursive P fuel T pool).isSome := by
  induction fuel generalizing pool T with
  | zero => exact absurd hfuel (Nat.not_lt_zero _)
  | succ fuel ih =>
    rw [removeRecursive]
    split_ifs with hc
    · have hhas : pool.Has P T := by
        rw [ExtTreeMap.contains_eq_isSome_getElem?,isSome_iff_exists] at hc
        obtain ⟨U,hU⟩ := hc
        have hid := hpool.key _ U hU
        have hUhas : pool.Has P U := by rwa [Has,hid]
        rwa [← hT U hUhas (.inl hid)]
      rw [isSome_map]
      refine removeSpenders_isSome removeRecursive_shrinks (fun {m tx} hm htx hname => ?_) _ (.refl hpool)
      have hlt := card_descendants_lt hpool hm hhas (hR tx T (hm.sub tx htx) hhas hname) (hacyclic T)
      exact ih hm.consistent (hm.consistent.apart htx)
        (fun t U ht hU => hR t U (hm.sub t ht) (hm.sub U hU)) (by omega)
    · rfl

end CTxMemPool

namespace IndexedPool

variable {P : Params} {pool : IndexedPool} {T tx : CTransaction}

/-- The pool with the pointers followed and the numbers forgotten. -/
def toPool (pool : IndexedPool) : CTxMemPool where
  mapTx := pool.mapTx
  mapNextTx := fun o => (pool.mapNextTx o).bind fun p => pool.mapTx[p.ptx]?

/-- No pointer dangles, and the input it names spends the outpoint. -/
structure Sound (P : Params) (pool : IndexedPool) : Prop where
  consistent : pool.toPool.Consistent P
  points : ∀ o (p : CInPoint), pool.mapNextTx o = some p →
    ∃ tx : CTransaction, pool.mapTx[p.ptx]? = some tx ∧ (tx.vin[p.n]?).map CTxIn.prevout = some o

variable {o : COutPoint} {m : CTxMemPool}

theorem mem_prevouts_of_getElem? {n : ℕ} (h : (tx.vin[n]?).map CTxIn.prevout = some o) :
    o ∈ tx.prevouts := by
  rw [← getElem?_map] at h
  exact mem_of_getElem? h

theorem Sound.follow (h : Sound P pool) {p : CInPoint} (hp : pool.mapNextTx o = some p) :
    ∃ tx : CTransaction, pool.mapTx[p.ptx]? = some tx ∧ pool.toPool.mapNextTx o = some tx ∧
      pool.toPool.Has P tx ∧
      tx.getHash P = p.ptx ∧ o ∈ tx.prevouts := by
  obtain ⟨tx,htx,hn⟩ := h.points o p hp
  have hid : tx.getHash P = p.ptx := h.consistent.key p.ptx tx htx
  refine ⟨tx,htx,?_,?_,hid,mem_prevouts_of_getElem? hn⟩
  · simp only [toPool,hp,bind_some,htx]
  · rw [CTxMemPool.Has,hid]
    exact htx

theorem toPool_mapNextTx_of_none (hp : pool.mapNextTx o = none) :
    pool.toPool.mapNextTx o = none := by
  simp only [toPool,hp,bind_none]

theorem eraseInputs_apply (vin m o) :
    eraseInputs vin m o = if o ∈ vin.map CTxIn.prevout then none else m o := by
  induction vin generalizing m with
  | nil => rfl
  | cons i vin ih =>
    show eraseInputs vin (Function.update m i.prevout none) o = _
    rw [ih,Function.update_apply]
    by_cases ho : o = i.prevout <;> simp [ho]

theorem addInputs_apply (hash vin m o) :
    (o ∉ vin.map CTxIn.prevout ∧ addInputs hash vin m o = m o) ∨
    ∃ n, (vin[n]?).map CTxIn.prevout = some o ∧ addInputs hash vin m o = some ⟨hash,n⟩ := by
  induction vin using reverseRecOn with
  | nil => exact .inl ⟨not_mem_nil,rfl⟩
  | append_singleton vin i ih =>
    have hstep : addInputs hash (vin++[i]) m o =
        Function.update (addInputs hash vin m) i.prevout (some ⟨hash,vin.length⟩) o := by
      simp [addInputs,zipIdx_append]
    rw [hstep,Function.update_apply]
    by_cases ho : o = i.prevout
    · right
      exact ⟨vin.length,by simp [ho],by rw [if_pos ho]⟩
    · rw [if_neg ho]
      rcases ih with ⟨hnew,heq⟩ | ⟨n,hn,heq⟩
      · left
        refine ⟨?_,heq⟩
        simpa [ho] using hnew
      · right
        refine ⟨n,?_,heq⟩
        have hlt : n < vin.length := by
          by_contra hge
          rw [getElem?_eq_none (Nat.le_of_not_lt hge)] at hn
          cases hn
        rwa [getElem?_append_left hlt]

open CTxMemPool

theorem Sound.toPool_erase (h : Sound P pool) (hT : pool.toPool.Apart P T) :
    (pool.erase P T).toPool = pool.toPool.erase P T := by
  refine congrArg (CTxMemPool.mk _) (funext fun o => ?_)
  show (eraseInputs T.vin pool.mapNextTx o).bind (fun p => (pool.mapTx.erase (T.getHash P))[p.ptx]?) =
    if o ∈ T.prevouts then none else pool.toPool.mapNextTx o
  rw [eraseInputs_apply]
  by_cases ho : o ∈ T.prevouts
  · have hin : o ∈ T.vin.map CTxIn.prevout := ho
    rw [if_pos ho,if_pos hin]
    rfl
  · have hnot : ¬ o ∈ T.vin.map CTxIn.prevout := ho
    rw [if_neg ho,if_neg hnot]
    cases hp : pool.mapNextTx o with
    | none => exact (toPool_mapNextTx_of_none hp).symm
    | some p =>
      obtain ⟨tx,htx,hnext,hhas,hid,hmem⟩ := h.follow hp
      rw [hnext,bind_some,getElem?_erase,if_neg,htx]
      intro heq
      exact ho (hT tx hhas (.inl (hid.trans heq.symm)) ▸ hmem)

theorem Sound.erase (h : Sound P pool) (hT : pool.toPool.Apart P T) : Sound P (pool.erase P T) := by
  refine ⟨h.toPool_erase hT ▸ h.consistent.erase hT,fun o p hp => ?_⟩
  have hp' : eraseInputs T.vin pool.mapNextTx o = some p := hp
  rw [eraseInputs_apply] at hp'
  split_ifs at hp' with ho
  obtain ⟨tx,htx,hn⟩ := h.points o p hp'
  obtain ⟨tx',htx',-,hhas,hid,hmem⟩ := h.follow hp'
  obtain rfl := some.inj (htx.symm.trans htx')
  refine ⟨tx,?_,hn⟩
  show (pool.mapTx.erase (T.getHash P))[p.ptx]? = some tx
  rw [getElem?_erase,if_neg,htx]
  intro heq
  exact ho (hT tx hhas (.inl (hid.trans heq.symm)) ▸ hmem)

theorem removeSpenders_toPool {rec rec' hash}
    (hrec : ∀ {tx pool m}, Sound P pool → pool.toPool.Apart P tx → rec' tx pool.toPool = some m →
      ∃ pool', rec tx pool = some pool' ∧ pool'.toPool = m ∧ Sound P pool') {l} (h : Sound P pool)
    (hm : CTxMemPool.removeSpenders rec' hash l pool.toPool = some m) :
    ∃ pool', removeSpenders rec hash l pool = some pool' ∧ pool'.toPool = m ∧ Sound P pool' := by
  induction l generalizing pool with
  | nil => exact ⟨pool,rfl,some.inj hm,h⟩
  | cons i l ih =>
    rw [CTxMemPool.removeSpenders] at hm
    rw [removeSpenders]
    cases hp : pool.mapNextTx ⟨hash,UInt32.ofNat i⟩ with
    | none =>
      rw [toPool_mapNextTx_of_none hp] at hm
      exact ih h hm
    | some it =>
      obtain ⟨spender,hget,hnext,hhas,-,-⟩ := h.follow hp
      rw [hnext] at hm
      obtain ⟨m₁,hm₁,hm⟩ := bind_eq_some_iff.mp hm
      obtain ⟨pool₁,hpool₁,rfl,h1⟩ := hrec h (h.consistent.apart hhas) hm₁
      simp only [hget,hpool₁,bind_some]
      exact ih h1 hm

/-- Recursive removal does to the pool with pointers what it does to the pool without. -/
theorem remove_toPool {fuel} (h : Sound P pool) (hT : pool.toPool.Apart P T)
    (hm : removeRecursive P fuel T pool.toPool = some m) :
    ∃ pool', remove P fuel T true pool = some pool' ∧ pool'.toPool = m ∧ Sound P pool' := by
  induction fuel generalizing T pool m with
  | zero => exact absurd hm (by simp [removeRecursive])
  | succ fuel ih =>
    rw [removeRecursive] at hm
    rw [remove]
    by_cases hc : pool.mapTx.contains (T.getHash P)
    · rw [if_pos (show pool.toPool.mapTx.contains (T.getHash P) from hc)] at hm
      obtain ⟨m₁,hm₁,rfl⟩ := map_eq_some_iff.mp hm
      have hshrinks := (removeSpenders_shrinks removeRecursive_shrinks h.consistent hm₁).1
      obtain ⟨pool₁,hpool₁,rfl,h1⟩ := removeSpenders_toPool ih h hm₁
      have hapart := hshrinks.apart hT
      rw [if_pos hc,if_pos rfl,hpool₁]
      exact ⟨_,rfl,h1.toPool_erase hapart,h1.erase hapart⟩
    · rw [if_neg (show ¬ pool.toPool.mapTx.contains (T.getHash P) from hc)] at hm
      rw [if_neg hc]
      exact ⟨pool,rfl,some.inj hm,h⟩

theorem Sound.addUnchecked (h : Sound P pool) (hT : pool.mapTx[T.getHash P]? = none)
    (hfree : ∀ o ∈ T.prevouts, pool.mapNextTx o = none) : Sound P (pool.addUnchecked P T) := by
  have hinsert : ∀ k : UInt256, pool.mapTx[k]?.isSome →
      (pool.mapTx.insert (T.getHash P) T)[k]? = pool.mapTx[k]? := by
    intro k hk
    rw [getElem?_insert,if_neg]
    rintro rfl
    rw [hT] at hk
    cases hk
  have hself : (pool.mapTx.insert (T.getHash P) T)[T.getHash P]? = some T := by rw [getElem?_insert,if_pos rfl]
  have hpool : (pool.addUnchecked P T).toPool = pool.toPool.addUnchecked P T := by
    refine congrArg (CTxMemPool.mk _) (funext fun o => ?_)
    show (addInputs (T.getHash P) T.vin pool.mapNextTx o).bind
      (fun p => (pool.mapTx.insert (T.getHash P) T)[p.ptx]?) =
      if o ∈ T.prevouts then some T else pool.toPool.mapNextTx o
    rcases addInputs_apply (T.getHash P) T.vin pool.mapNextTx o with ⟨hnew,heq⟩ | ⟨n,hn,heq⟩
    · rw [heq,if_neg (show ¬ o ∈ T.prevouts from hnew)]
      cases hp : pool.mapNextTx o with
      | none => exact (toPool_mapNextTx_of_none hp).symm
      | some p =>
        obtain ⟨tx,htx,hnext,-⟩ := h.follow hp
        rw [hnext,bind_some,hinsert p.ptx (by rw [htx]; rfl),htx]
    · rw [heq,if_pos (mem_prevouts_of_getElem? hn)]
      exact hself
  refine ⟨?_,fun o p hp => ?_⟩
  · rw [hpool]
    exact h.consistent.addUnchecked hT fun o ho => toPool_mapNextTx_of_none (hfree o ho)
  · have hp' : addInputs (T.getHash P) T.vin pool.mapNextTx o = some p := hp
    rcases addInputs_apply (T.getHash P) T.vin pool.mapNextTx o with ⟨-,heq⟩ | ⟨n,hn,heq⟩
    · obtain ⟨tx,htx,hpoint⟩ := h.points o p (heq.symm.trans hp')
      exact ⟨tx,(hinsert p.ptx (by rw [htx]; rfl)).trans htx,hpoint⟩
    · obtain rfl := some.inj (heq.symm.trans hp')
      exact ⟨T,hself,hn⟩

variable {txs : Set CTransaction} {pool' : IndexedPool}

/-- What is asked of the hash on the transactions of a run: they have different ids, and
none of them names itself, directly or through others. -/
structure Hashes (P : Params) (txs : Set CTransaction) : Prop where
  inj : Set.InjOn (CTransaction.getHash P) txs
  acyclic : ∀ T, ¬ Relation.TransGen (fun a b => a ∈ txs ∧ b ∈ txs ∧ CTxMemPool.Names P a b) T T

def Allowed (txs : Set CTransaction) (pool : IndexedPool) : IndexOp → Prop
  | .addUnchecked tx => tx ∈ txs ∧ ∀ o ∈ tx.prevouts, pool.mapNextTx o = none
  | .remove tx _ => tx ∈ txs
  | .removeConflicts tx => tx ∈ txs
  | .clear => True

inductive Reached (P : Params) (txs : Set CTransaction) : IndexedPool → Prop
  | empty : Reached P txs .empty
  | step {pool pool' : IndexedPool} (op : IndexOp) : Reached P txs pool → Allowed txs pool op →
      pool.step P op = some pool' → Reached P txs pool'

/-- An outpoint is in the index if and only if a transaction of the pool spends it; the
entry points to that transaction and to the input. -/
structure SpendIndex (pool : IndexedPool) : Prop where
  spent : ∀ o, (pool.mapNextTx o).isSome ↔ ∃ (hash : UInt256) (tx : CTransaction),
    pool.mapTx[hash]? = some tx ∧ o ∈ tx.prevouts
  refers : ∀ o (p : CInPoint), pool.mapNextTx o = some p → ∃ tx : CTransaction, pool.mapTx[p.ptx]? = some tx ∧
    (tx.vin[p.n]?).map CTxIn.prevout = some o ∧
    ∀ (hash : UInt256) (other : CTransaction), pool.mapTx[hash]? = some other → o ∈ other.prevouts → hash = p.ptx

def Spends (P : Params) (tx T : CTransaction) : Prop :=
  ∃ o ∈ tx.prevouts, o.hash = T.getHash P ∧ o.n.toNat < T.vout.length

/-- One transaction of the pool depends on another, directly or through others. -/
def Depends (P : Params) (pool : IndexedPool) : CTransaction → CTransaction → Prop :=
  Relation.TransGen fun a b => pool.toPool.Has P a ∧ pool.toPool.Has P b ∧ Spends P a b

theorem Sound.spendIndex (h : Sound P pool) : SpendIndex pool := by
  have hnext : ∀ {hash : UInt256} {tx : CTransaction} {o : COutPoint}, pool.mapTx[hash]? = some tx →
      o ∈ tx.prevouts →
      pool.toPool.mapNextTx o = some tx := by
    intro hash tx o htx ho
    apply (h.consistent.next o tx).mpr
    refine ⟨?_,ho⟩
    rw [Has,h.consistent.key hash tx htx]
    exact htx
  refine ⟨fun o => ⟨fun hsome => ?_,?_⟩,fun o p hp => ?_⟩
  · obtain ⟨p,hp⟩ := isSome_iff_exists.mp hsome
    obtain ⟨tx,htx,-,-,-,ho⟩ := h.follow hp
    exact ⟨p.ptx,tx,htx,ho⟩
  · rintro ⟨hash,tx,htx,ho⟩
    by_contra hnone
    rw [not_isSome_iff_eq_none] at hnone
    cases (hnext htx ho).symm.trans (toPool_mapNextTx_of_none hnone)
  · obtain ⟨tx,htx,hn⟩ := h.points o p hp
    obtain ⟨tx',-,htx',-,hid,-⟩ := h.follow hp
    refine ⟨tx,htx,hn,fun hash other hother ho => ?_⟩
    obtain rfl := some.inj ((hnext hother ho).symm.trans htx')
    exact (h.consistent.key hash other hother).symm.trans hid

structure Held (P : Params) (txs : Set CTransaction) (pool : IndexedPool) :
    Prop extends Sound P pool where
  within : ∀ (hash : UInt256) (tx : CTransaction), pool.mapTx[hash]? = some tx → tx ∈ txs

theorem Held.empty (P txs) : Held P txs .empty := by
  refine ⟨⟨⟨?_,fun o tx => ?_⟩,?_⟩,?_⟩
  · intro k tx hk
    exact absurd hk (by simp [toPool,IndexedPool.empty])
  · simp [toPool,IndexedPool.empty,CTxMemPool.Has]
  · intro o p hp
    exact absurd hp (by simp [IndexedPool.empty])
  · intro k tx hk
    exact absurd hk (by simp [IndexedPool.empty])

theorem Held.has (h : Held P txs pool) (hh : Hashes P txs) (hT : T ∈ txs)
    (hc : pool.mapTx.contains (T.getHash P)) : pool.toPool.Has P T := by
  rw [ExtTreeMap.contains_eq_isSome_getElem?,isSome_iff_exists] at hc
  obtain ⟨U,hU⟩ := hc
  obtain rfl : U = T := hh.inj (h.within _ U hU) hT (h.consistent.key _ U hU)
  exact hU

theorem Held.shrinks (h : Held P txs pool) (hs : Sound P pool')
    (hsub : pool.toPool.Shrinks P pool'.toPool) :
    Held P txs pool' := by
  refine ⟨hs,fun hash tx htx => ?_⟩
  have hid := hs.consistent.key hash tx htx
  have hhas : pool'.toPool.Has P tx := by
    rw [Has,hid]
    exact htx
  exact h.within _ tx (hsub.sub tx hhas)

theorem Held.remove (h : Held P txs pool) (hh : Hashes P txs) (hT : T ∈ txs) :
    ∃ pool', IndexedPool.remove P (pool.mapTx.size+1) T true pool = some pool' ∧ Held P txs pool' ∧
      pool.toPool.Shrinks P pool'.toPool ∧ ¬ pool'.toPool.Has P T := by
  by_cases hc : pool.mapTx.contains (T.getHash P)
  · have hapart := h.consistent.apart (h.has hh hT hc)
    have hfuel := Nat.lt_succ_of_le (pool.toPool.card_descendants_le
      (R := fun a b => a ∈ txs ∧ b ∈ txs ∧ Names P a b) (T := T))
    have hends := removeRecursive_isSome h.consistent hapart
      (fun a b ha hb hname => ⟨h.within _ a ha,h.within _ b hb,hname⟩) hh.acyclic hfuel
    obtain ⟨m,hm⟩ := isSome_iff_exists.mp hends
    obtain ⟨pool',hpool',rfl,hs⟩ := remove_toPool h.toSound hapart hm
    obtain ⟨hshrinks,hgone⟩ := removeRecursive_shrinks h.consistent hapart hm
    exact ⟨pool',hpool',h.shrinks hs hshrinks,hshrinks,hgone⟩
  · refine ⟨pool,by rw [IndexedPool.remove,if_neg hc],h,.refl h.consistent,fun hhas => hc ?_⟩
    rw [ExtTreeMap.contains_eq_isSome_getElem?]
    exact isSome_iff_exists.mpr ⟨T,hhas⟩

theorem Held.removeOne (h : Held P txs pool) (hh : Hashes P txs) (hT : T ∈ txs) :
    ∃ pool', IndexedPool.remove P (pool.mapTx.size+1) T false pool = some pool' ∧
      Held P txs pool' := by
  rw [IndexedPool.remove]
  by_cases hc : pool.mapTx.contains (T.getHash P)
  · have hapart := h.consistent.apart (h.has hh hT hc)
    rw [if_pos hc]
    refine ⟨pool.erase P T,rfl,h.toSound.erase hapart,fun hash tx htx => ?_⟩
    have htx' : (pool.mapTx.erase (T.getHash P))[hash]? = some tx := htx
    rw [getElem?_erase] at htx'
    split_ifs at htx'
    exact h.within hash tx htx'
  · rw [if_neg hc]
    exact ⟨pool,rfl,h⟩

theorem Held.removeConflicts (h : Held P txs pool) (hh : Hashes P txs) (vin : List CTxIn) :
    ∃ pool', removeConflicts P T vin pool = some pool' ∧ Held P txs pool' := by
  induction vin generalizing pool with
  | nil => exact ⟨pool,rfl,h⟩
  | cons i vin ih =>
    rw [removeConflicts]
    cases hp : pool.mapNextTx i.prevout with
    | none => exact ih h
    | some it =>
      obtain ⟨txConflict,hget,-⟩ := h.follow hp
      simp only [hget,bind_some]
      split_ifs
      · obtain ⟨pool₁,hpool₁,h1,-⟩ := h.remove hh (h.within _ txConflict hget)
        rw [hpool₁,bind_some]
        exact ih h1
      · exact ih h

/-- To add a transaction again that conflicts with nothing, and so has no input, changes nothing. -/
theorem Held.addUnchecked (h : Held P txs pool) (hh : Hashes P txs) (hT : T ∈ txs)
    (hfree : ∀ o ∈ T.prevouts, pool.mapNextTx o = none) : Held P txs (pool.addUnchecked P T) := by
  have hwithin : ∀ (hash : UInt256) (tx : CTransaction), (pool.addUnchecked P T).mapTx[hash]? =
      some tx → tx ∈ txs := by
    intro hash tx htx
    have htx' : (pool.mapTx.insert (T.getHash P) T)[hash]? = some tx := htx
    rw [getElem?_insert] at htx'
    split_ifs at htx'
    · exact some.inj htx' ▸ hT
    · exact h.within hash tx htx'
  refine ⟨?_,hwithin⟩
  by_cases hc : pool.mapTx.contains (T.getHash P)
  · have hhas := h.has hh hT hc
    have hvin : T.vin = [] := by
      apply eq_nil_iff_forall_not_mem.mpr
      intro i hi
      have ho : i.prevout ∈ T.prevouts := mem_map.mpr ⟨i,hi,rfl⟩
      have hnext := (h.consistent.next i.prevout T).mpr ⟨hhas,ho⟩
      rw [toPool_mapNextTx_of_none (hfree _ ho)] at hnext
      cases hnext
    have hsame : pool.mapTx.insert (T.getHash P) T = pool.mapTx := by
      apply ExtTreeMap.ext_getElem?
      intro k
      rw [getElem?_insert]
      split_ifs with hk
      · exact hk ▸ hhas.symm
      · rfl
    have hpool : pool.addUnchecked P T = pool := by
      rw [IndexedPool.addUnchecked,hsame,hvin]
      rfl
    rw [hpool]
    exact h.toSound
  · refine h.toSound.addUnchecked ?_ hfree
    rwa [ExtTreeMap.contains_eq_isSome_getElem?,not_isSome_iff_eq_none] at hc

theorem Held.step (h : Held P txs pool) (hh : Hashes P txs) {op} (hop : Allowed txs pool op) :
    ∃ pool', pool.step P op = some pool' ∧ Held P txs pool' := by
  cases op with
  | addUnchecked tx => exact ⟨_,rfl,h.addUnchecked hh hop.1 hop.2⟩
  | remove tx fRecursive =>
    cases fRecursive with
    | false => exact h.removeOne hh hop
    | true =>
      obtain ⟨pool',hpool',h',-⟩ := h.remove hh hop
      exact ⟨pool',hpool',h'⟩
  | removeConflicts tx => exact h.removeConflicts hh tx.vin
  | clear => exact ⟨.empty,rfl,.empty P txs⟩

theorem Reached.held (h : Reached P txs pool) (hh : Hashes P txs) : Held P txs pool := by
  induction h with
  | empty => exact .empty P txs
  | step op _ hop hstep ih =>
    obtain ⟨pool',hpool',h'⟩ := ih.step hh hop
    exact some.inj (hstep.symm.trans hpool') ▸ h'

theorem not_depends_of_shrinks (hs : pool.toPool.Shrinks P pool'.toPool) (hT : pool.toPool.Has P T)
    (hgone : ¬ pool'.toPool.Has P T) (htx : pool'.toPool.Has P tx) : ¬ Depends P pool tx T := by
  intro hdep
  induction hdep using Relation.TransGen.head_induction_on with
  | single h =>
    obtain ⟨-,-,o,ho,hid,hlt⟩ := h
    exact hs.closed T hT hgone _ htx o ho hid hlt
  | head h _ ih =>
    obtain ⟨-,hb,o,ho,hid,hlt⟩ := h
    exact hs.closed _ hb ih _ htx o ho hid hlt

/-- In every state of a run the index is right and every operation ends, and after a
recursive removal nothing is left that depends on what has gone. -/
theorem spendIndex_of_reached (hh : Hashes P txs) (h : Reached P txs pool) :
    SpendIndex pool ∧ (∀ op, Allowed txs pool op → (pool.step P op).isSome) ∧
    ∀ tx ∈ txs, ∃ pool', pool.step P (.remove tx true) = some pool' ∧ ¬ pool'.toPool.Has P tx ∧
      ∀ T, pool.toPool.Has P T → ¬ pool'.toPool.Has P T → ∀ t, pool'.toPool.Has P t →
      ¬ Depends P pool t T := by
  have hheld := h.held hh
  refine ⟨hheld.spendIndex,fun op hop => ?_,fun tx htx => ?_⟩
  · obtain ⟨pool',hpool',-⟩ := hheld.step hh hop
    rw [hpool']
    rfl
  · obtain ⟨pool',hpool',-,hs,hgone⟩ := hheld.remove hh htx
    exact ⟨pool',hpool',hgone,fun T hT hT' t ht => not_depends_of_shrinks hs hT hT' ht⟩

end IndexedPool

namespace Sample

def chainTxs : Set CTransaction := {pay₁,pay₂}

theorem names_chainTxs {a b} (ha : a ∈ chainTxs) (hb : b ∈ chainTxs)
    (h : CTxMemPool.Names params a b) : a = pay₂ ∧ b = pay₁ := by
  rcases ha with rfl | rfl <;> rcases hb with rfl | rfl
  · exact absurd h (by decide +kernel)
  · exact absurd h (by decide +kernel)
  · exact ⟨rfl,rfl⟩
  · exact absurd h (by decide +kernel)

theorem hashes_chainTxs : IndexedPool.Hashes params chainTxs := by
  have hchain : ∀ {a b}, Relation.TransGen (fun a b => a ∈ chainTxs ∧ b ∈ chainTxs ∧
      CTxMemPool.Names params a b) a b →
      a = pay₂ ∧ b = pay₁ := by
    intro a b h
    induction h with
    | single h => exact names_chainTxs h.1 h.2.1 h.2.2
    | tail _ h ih => exact ⟨ih.1,(names_chainTxs h.1 h.2.1 h.2.2).2⟩
  refine ⟨?_,fun T hT => ?_⟩
  · rintro a (rfl | rfl) b (rfl | rfl) hid
    · rfl
    · exact absurd hid (by decide +kernel)
    · exact absurd hid (by decide +kernel)
    · rfl
  · obtain ⟨h1,h2⟩ := hchain hT
    exact absurd (h1.symm.trans h2) (by decide +kernel)

def chained : IndexedPool := (IndexedPool.empty.addUnchecked params pay₁).addUnchecked params pay₂

theorem reached_chained : chained.Reached params chainTxs :=
  .step (.addUnchecked pay₂) (.step (.addUnchecked pay₁) .empty ⟨.inl rfl,by decide +kernel⟩ rfl)
    ⟨.inr rfl,by decide +kernel⟩ rfl

end Sample

open Sample

/-- The pool with the payment and its spender: when the payment goes, so does the spender. -/
theorem spendIndex_of_reached_chained : chained.SpendIndex ∧
    ∃ pool', chained.step params (.remove pay₁ true) = some pool' ∧
      ¬ pool'.toPool.Has params pay₁ ∧ pool'.mapTx.size = 0 := by
  obtain ⟨hindex,-,hremove⟩ := IndexedPool.spendIndex_of_reached hashes_chainTxs reached_chained
  obtain ⟨pool',hpool',hgone,-⟩ := hremove pay₁ (.inl rfl)
  have hsize : (chained.step params (.remove pay₁ true)).map (fun pool => pool.mapTx.size) = some 0 := by
    decide +kernel
  rw [hpool'] at hsize
  exact ⟨hindex,pool',hpool',hgone,some.inj hsize⟩

end DarkSilk
