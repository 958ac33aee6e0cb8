import DarkSilk.ChainRuns

/-! The inputs of the memory pool when the best chain moves: which of them are still
unspent outputs of the index or outputs of the pool itself, and which have lost theirs. -/
namespace DarkSilk

open BatchStore List CTransaction
open Option hiding mem_map

namespace CTxMemPool

def Supplies (P : Params) (pool : CTxMemPool) (tx : CTransaction) (o : COutPoint) : Prop :=
  ∃ T, pool.Has P T ∧ T ≠ tx ∧ T.getHash P = o.hash ∧ o.n.toNat < T.vout.length

/-- Every input of the pool names an unspent output of the index, or an output of
another transaction of the pool. -/
def InputsAvailable (P : Params) (idx : TxIndex) (pool : CTxMemPool) : Prop :=
  ∀ tx, pool.Has P tx → ∀ o ∈ tx.prevouts,
    SpendIndex.cell idx o.key = some .setNull ∨ pool.Supplies P tx o

/-- `pool'` is `pool` without the transactions of a list. What else has gone took
everything with it that depends on it. -/
structure Trims (P : Params) (v : List CTransaction) (pool pool' : CTxMemPool) : Prop where
  consistent : Consistent P pool'
  sub : ∀ tx, pool'.Has P tx → pool.Has P tx
  gone : ∀ tx ∈ v, ¬ pool'.Has P tx
  closed : ∀ T, pool.Has P T → ¬ pool'.Has P T → T ∈ v ∨ ∀ tx, pool'.Has P tx → ∀ o ∈ tx.prevouts,
    o.hash = T.getHash P → ¬ o.n.toNat < T.vout.length

variable {P : Params} {pool pool' : CTxMemPool} {T : CTransaction} {v : List CTransaction}

section

variable {pool'' : CTxMemPool} {w : List CTransaction}

theorem Shrinks.trims (h : Shrinks P pool pool') : Trims P [] pool pool' :=
  ⟨h.consistent,h.sub,by simp,fun T hT hT' => .inr (h.closed T hT hT')⟩

theorem Trims.trans (h : Trims P v pool pool') (h' : Trims P w pool' pool'') :
    Trims P (v++w) pool pool'' := by
  refine ⟨h'.consistent,fun tx htx => h.sub tx (h'.sub tx htx),fun tx htx hhas => ?_,fun T hT hT' => ?_⟩
  · rcases mem_append.mp htx with hv | hw
    · exact h.gone tx hv (h'.sub tx hhas)
    · exact h'.gone tx hw hhas
  · by_cases hm : pool'.Has P T
    · exact (h'.closed T hm hT').imp_left (mem_append_right v)
    · refine (h.closed T hT hm).imp (mem_append_left w) fun hfree tx htx => ?_
      exact hfree tx (h'.sub tx htx)

theorem Consistent.trims_remove (h : Consistent P pool)
    (hT : ∀ tx, pool.Has P tx → tx.getHash P = T.getHash P → tx = T) :
    Trims P [T] pool (pool.remove P T) := by
  refine ⟨h.remove hT,fun tx htx => (has_remove.mp htx).2,fun tx htx hhas => ?_,fun U hU hU' => .inl ?_⟩
  · rw [mem_singleton.mp htx] at hhas
    exact (has_remove.mp hhas).1 rfl
  · by_contra hne
    refine hU' (has_remove.mpr ⟨fun he => hne ?_,hU⟩)
    rw [hT U hU he]
    exact mem_singleton_self T

theorem has_foldl_remove {tx} : (v.foldl (CTxMemPool.remove P) pool).Has P tx ↔
    pool.Has P tx ∧ ¬ ∃ T ∈ v, tx.getHash P = T.getHash P := by
  induction v generalizing pool with
  | nil => simp
  | cons T v ih =>
    rw [foldl_cons,ih,has_remove]
    simp only [mem_cons,exists_eq_or_imp,not_or]
    tauto

theorem Consistent.trims_foldl_remove (h : Consistent P pool)
    (hv : ∀ tx, pool.Has P tx → ∀ T ∈ v, tx.getHash P = T.getHash P → tx = T) :
    Trims P v pool (v.foldl (CTxMemPool.remove P) pool) := by
  induction v generalizing pool with
  | nil => exact ⟨h,fun _ htx => htx,by simp,fun T hT hT' => absurd hT hT'⟩
  | cons T v ih =>
    have h1 := h.trims_remove fun tx htx => hv tx htx T mem_cons_self
    exact h1.trans (ih h1.consistent fun tx htx U hU => hv tx (h1.sub tx htx) U (mem_cons_of_mem T hU))

end

end CTxMemPool

section

theorem deleteRedundant_trims (h : pool.Consistent P)
    (hv : ∀ tx, pool.Has P tx → ∀ T ∈ v, tx.getHash P = T.getHash P → tx = T)
    (hd : deleteRedundant P v pool = some pool') :
    pool.Trims P v pool' ∧ ∀ tx, pool'.Has P tx → ∀ T ∈ v, ∀ o ∈ T.prevouts, o ∉ tx.prevouts := by
  induction v generalizing pool with
  | nil =>
    rw [deleteRedundant,some.injEq] at hd
    exact hd ▸ ⟨h.trims_foldl_remove hv,by simp⟩
  | cons T v ih =>
    rw [deleteRedundant] at hd
    obtain ⟨m,hm,hd⟩ := bind_eq_some_iff.mp hd
    have h1 := h.trims_remove fun tx htx => hv tx htx T mem_cons_self
    obtain ⟨h2,hfree⟩ := CTxMemPool.removeConflicts_shrinks h1.consistent hm
    have h3 : pool.Trims P [T] m := h1.trans h2.trims
    obtain ⟨h4,h5⟩ := ih h2.consistent (fun tx htx U hU => hv tx (h3.sub tx htx) U (mem_cons_of_mem T hU)) hd
    refine ⟨h3.trans h4,fun tx htx U hU o ho ho' => ?_⟩
    rcases mem_cons.mp hU with rfl | hU
    · -- only the transaction itself may share an input with it, and it has gone
      have hm' := h4.sub tx htx
      rw [hfree tx hm' o ho ho'] at hm'
      exact h3.gone U mem_cons_self hm'
    · exact h5 tx htx U hU o ho ho'

theorem resurrect_has (W tip) {db} (hidle : db.activeBatch = none) (v log) (h : pool.Consistent P) :
    (resurrect P W tip db v (pool,log)).1.Consistent P ∧
      (∀ tx, pool.Has P tx → (resurrect P W tip db v (pool,log)).1.Has P tx) ∧
      ∀ tx, (resurrect P W tip db v (pool,log)).1.Has P tx → pool.Has P tx ∨
        tx ∈ v ∧ ∀ o ∈ tx.prevouts, SpendIndex.cell db.txView o.key = some .setNull := by
  induction v generalizing pool log with
  | nil => exact ⟨h,fun _ htx => htx,fun _ htx => .inl htx⟩
  | cons T v ih =>
    rw [resurrect]
    split
    · obtain ⟨h1,h2,h3⟩ := ih log h
      exact ⟨h1,h2,fun tx htx => (h3 tx htx).imp_right fun hx => ⟨mem_cons_of_mem T hx.1,hx.2⟩⟩
    · rename_i m hm
      obtain ⟨rfl,hnew,hfree,hcell⟩ := acceptToMemoryPool_spec hidle hm
      obtain ⟨h1,h2,h3⟩ := ih _ (h.addUnchecked hnew hfree)
      refine ⟨h1,fun tx htx => h2 tx ((CTxMemPool.has_addUnchecked hnew).mpr (.inr htx)),fun tx htx => ?_⟩
      rcases h3 tx htx with hadd | ⟨hv,ho⟩
      · rcases (CTxMemPool.has_addUnchecked hnew).mp hadd with rfl | hold
        · exact .inr ⟨mem_cons_self,hcell⟩
        · exact .inl hold
      · exact .inr ⟨mem_cons_of_mem T hv,ho⟩

end

section

variable {path base l : List BlockIndexData}

def CreatedBy (P : Params) (txs : List CTransaction) (o : COutPoint) : Prop :=
  ∃ T ∈ txs, T.getHash P = o.hash ∧ o.n.toNat < T.vout.length

def SpentBy (txs : List CTransaction) (o : COutPoint) : Prop :=
  ∃ T ∈ txs, T.isCoinBase = false ∧ o ∈ T.prevouts

/-- Another transaction of the list spends an input of `tx`. -/
def Conflicts (txs : List CTransaction) (tx : CTransaction) : Prop :=
  ∃ T ∈ txs, T ≠ tx ∧ T.isCoinBase = false ∧ ∃ o ∈ tx.prevouts, o ∈ T.prevouts

theorem COutPoint.key_inj {o o' : COutPoint} (h : o.key = o'.key) : o = o' := by
  obtain ⟨hash,n⟩ := o
  obtain ⟨hash',n'⟩ := o'
  have h1 : hash = hash' := congrArg Prod.fst h
  have h2 : n = n' := UInt32.toNat.inj (congrArg Prod.snd h)
  rw [h1,h2]

theorem mem_ins_txEntry {x : CTransaction × CDiskTxPos} :
    o.key ∈ (txEntry P x).ins ↔ x.1.isCoinBase = false ∧ o ∈ x.1.prevouts := by
  have hkey : o.key ∈ (x.1.vin.map fun i => i.prevout.key) ↔ o ∈ x.1.prevouts := by
    simp only [mem_map,prevouts]
    constructor
    · rintro ⟨i,hi,hk⟩
      exact ⟨i,hi,COutPoint.key_inj hk⟩
    · rintro ⟨i,hi,rfl⟩
      exact ⟨i,hi,rfl⟩
  cases hcb : x.1.isCoinBase <;> simp [txEntry,hcb,hkey]

theorem Applied.isSome_cell_iff (ha : Applied P idx path) (hs : Sound P path) :
    (SpendIndex.cell idx o.key).isSome ↔ CreatedBy P (pathTxs path) o := by
  rw [(ha.tracks hs).isSome_cell_iff (ha.txids_nodup hs),CreatedBy,pathEntries,pathTxs]
  simp only [mem_map,exists_exists_and_eq_and]
  rfl

theorem Applied.cell_of_spentBy (ha : Applied P idx path) (hs : Sound P path)
    (h : SpentBy (pathTxs path) o) :
    ∃ x, x ≠ .setNull ∧ SpendIndex.cell idx o.key = some x := by
  obtain ⟨T,hT,hcb,ho⟩ := h
  obtain ⟨x,hx,rfl⟩ := mem_map.mp hT
  have hmem : txEntry P x ∈ pathEntries P path := mem_map_of_mem hx
  exact ⟨x.2,pos_ne_null_of_mem_pathEntries hmem,
    (ha.tracks hs).spender _ hmem o.key (mem_ins_txEntry.mpr ⟨hcb,ho⟩)⟩

theorem Applied.unspent_iff (ha : Applied P idx path) (hs : Sound P path) :
    SpendIndex.cell idx o.key = some .setNull ↔
      CreatedBy P (pathTxs path) o ∧ ¬ SpentBy (pathTxs path) o := by
  rw [← ha.isSome_cell_iff hs]
  constructor
  · intro h
    refine ⟨by rw [h]; rfl,fun hsp => ?_⟩
    obtain ⟨x,hne,hx⟩ := ha.cell_of_spentBy hs hsp
    exact hne (some.inj (hx.symm.trans h))
  · rintro ⟨h,hfree⟩
    obtain ⟨x,hx⟩ := isSome_iff_exists.mp h
    rw [hx,some.injEq]
    by_contra hne
    obtain ⟨e,he,ho,-⟩ := (ha.tracks hs).spent _ x hx hne
    obtain ⟨y,hy,rfl⟩ := mem_map.mp he
    exact hfree ⟨y.1,mem_map_of_mem hy,mem_ins_txEntry.mp ho⟩

theorem Applied.below (ha : Applied P idx (l++base)) (hbase : base ≠ []) :
    ∃ idx', Applied P idx' base := by
  induction l generalizing idx with
  | nil => exact ⟨idx,ha⟩
  | cons d l ih =>
    have hne : l++base ≠ [] := fun he => hbase (append_eq_nil_iff.mp he).2
    have hindex := ha.index
    rw [cons_append,pathEntries_cons d hne,SpendIndex.connectAll_append] at hindex
    obtain ⟨i,hi,-⟩ := bind_eq_some_iff.mp hindex
    exact ih ⟨hi,fun d' ds hs => ha.checked d' ds (hs.trans (suffix_cons d _))⟩

end

section

variable {tip : Tip} {detached common connected attached : List BlockIndexData} {idx' : TxIndex} {S : Set CTransaction}

structure Move (P : Params) (S : Set CTransaction) (tip : Tip)
    (detached common connected attached : List BlockIndexData) (idx idx' : TxIndex) (pool pool' : CTxMemPool) :
    Prop where
  moved : PoolMoved P tip detached connected attached common pool pool'
  common_ne : common ≠ []
  old : Applied P idx (detached++common)
  oldSound : Sound P (detached++common)
  new : Applied P idx' (attached.reverse++(connected.reverse++common))
  newSound : Sound P (attached.reverse++(connected.reverse++common))
  inj : Set.InjOn (CTransaction.getHash P) S
  poolTxs : ∀ tx, pool.Has P tx → tx ∈ S
  oldTxs : ∀ tx ∈ pathTxs (detached++common), tx ∈ S
  newTxs : ∀ tx ∈ pathTxs (attached.reverse++(connected.reverse++common)), tx ∈ S
  consistent : pool.Consistent P
  available : pool.InputsAvailable P idx

namespace Move

variable (h : Move P S tip detached common connected attached idx idx' pool pool') {tx : CTransaction}

include h

theorem mem_new : tx ∈ pathTxs (attached.reverse++(connected.reverse++common)) ↔
    tx ∈ blocksTxs attached ∨ tx ∈ blocksTxs connected ∨ tx ∈ pathTxs common := by
  rw [mem_pathTxs_append fun he => h.common_ne (append_eq_nil_iff.mp he).2,mem_pathTxs_append h.common_ne]
  simp [blocksTxs]

/-- What a move leaves in the pool: old transactions and ones that were taken back,
none in conflict with the branch taken in the reorganisation, and nothing that depends
on a transaction that was thrown out. -/
theorem spec :
    (∃ mid, Applied P mid (connected.reverse++common) ∧ ∀ tx, pool'.Has P tx → pool.Has P tx ∨
      tx ∈ blocksTxs detached ∧ ∀ o ∈ tx.prevouts, SpendIndex.cell mid o.key = some .setNull) ∧
    (∀ tx, pool'.Has P tx → tx ∉ blocksTxs attached ∧
      ∀ o ∈ tx.prevouts, ¬ SpentBy (blocksTxs connected) o) ∧
    ∀ T, pool.Has P T → ¬ pool'.Has P T →
      (T ∈ blocksTxs connected ∨ T ∈ blocksTxs attached) ∨ ∀ tx, pool'.Has P tx → ∀ o ∈ tx.prevouts,
        o.hash = T.getHash P → ¬ o.n.toNat < T.vout.length := by
  obtain ⟨W,db,vResurrect,log,mid,hidle,happ,hv,hdel,rfl⟩ := h.moved
  obtain ⟨h1,hkept,hback⟩ := resurrect_has W tip hidle vResurrect log h.consistent
  have hcon : ∀ T ∈ blocksTxs connected, T ∈ S := fun T hT => h.newTxs T (h.mem_new.mpr (.inr (.inl hT)))
  have hS₁ : ∀ tx, (resurrect P W tip db vResurrect (pool,log)).1.Has P tx → tx ∈ S := by
    intro tx htx
    rcases hback tx htx with hold | ⟨hmem,-⟩
    · exact h.poolTxs tx hold
    · exact h.oldTxs tx ((mem_pathTxs_append h.common_ne).mpr (.inl (hv tx hmem)))
  obtain ⟨h2,hfree⟩ := deleteRedundant_trims h1 (fun tx htx T hT he => h.inj (hS₁ tx htx) (hcon T hT) he) hdel
  have h3 := h2.consistent.trims_foldl_remove
    (fun tx htx T (hT : T ∈ blocksTxs attached) he => h.inj (hS₁ tx (h2.sub tx htx)) (h.newTxs T (h.mem_new.mpr (.inl hT))) he)
  have hall := h2.trans h3
  refine ⟨⟨db.txView,happ,fun tx htx => ?_⟩,
    fun tx htx => ⟨fun ha => h3.gone tx ha htx,fun o ho hsp => ?_⟩,fun T hT hT' => ?_⟩
  · exact (hback tx (hall.sub tx htx)).imp_right fun hx => ⟨hv tx hx.1,hx.2⟩
  · obtain ⟨T,hT,-,ho'⟩ := hsp
    exact hfree tx (h3.sub tx htx) T hT o ho' ho
  · exact (hall.closed T (hkept T hT) hT').imp_left mem_append.mp

theorem creator_attached (htx : pool'.Has P tx) (ho : o ∈ tx.prevouts)
    (hsup : ¬ pool'.Supplies P tx o)
    (hT : pool.Has P T) (hTx : T ≠ tx) (hid : T.getHash P = o.hash)
    (hlt : o.n.toNat < T.vout.length) :
    T ∈ blocksTxs connected ∨ T ∈ blocksTxs attached := by
  have hT' : ¬ pool'.Has P T := fun hhas => hsup ⟨T,hhas,hTx,hid,hlt⟩
  exact (h.spec.2.2 T hT hT').resolve_right fun hdep => hdep tx htx o ho hid.symm hlt

/-- An output spent below the fork is created there, and so not above it. -/
theorem creator_not_attached (hsp : SpentBy (pathTxs common) o) (hT : pool.Has P T)
    (hid : T.getHash P = o.hash) :
    ¬ (T ∈ blocksTxs connected ∨ T ∈ blocksTxs attached) := by
  intro habove
  have hcs := (h.newSound.suffix (suffix_append attached.reverse _)).suffix (suffix_append connected.reverse _)
  obtain ⟨⟨mid,hma,-⟩,-,-⟩ := h.spec
  obtain ⟨i,hi⟩ := hma.below h.common_ne
  obtain ⟨x,-,hx⟩ := hi.cell_of_spentBy hcs hsp
  obtain ⟨V,hV,hVid,-⟩ := (hi.isSome_cell_iff hcs).mp (by rw [hx]; rfl)
  obtain rfl : V = T := h.inj (h.newTxs V (h.mem_new.mpr (.inr (.inr hV)))) (h.poolTxs T hT)
    (hVid.trans hid.symm)
  have hnd := h.new.txids_nodup h.newSound
  rw [map_id_pathEntries,← append_assoc,pathTxs_append h.common_ne] at hnd
  refine (nodup_append.mp hnd.of_map).2.2 V hV V ?_ rfl
  simpa [blocksTxs,or_comm] using habove

/-- An input that the pool does not supply itself is not spent below the fork. -/
theorem not_spentBy_common (htx : pool'.Has P tx) (ho : o ∈ tx.prevouts)
    (hsup : ¬ pool'.Supplies P tx o) :
    ¬ SpentBy (pathTxs common) o := by
  intro hsp
  obtain ⟨U,hU,hcb,hoU⟩ := id hsp
  obtain ⟨⟨mid,hma,hsub⟩,-,-⟩ := h.spec
  have hms := h.newSound.suffix (suffix_append attached.reverse _)
  rcases hsub tx htx with hin | ⟨-,hback⟩
  · rcases h.available tx hin o ho with hu | ⟨T,hT,hTx,hid,hlt⟩
    · exact ((h.old.unspent_iff h.oldSound).mp hu).2 ⟨U,(mem_pathTxs_append h.common_ne).mpr (.inr hU),hcb,hoU⟩
    · exact h.creator_not_attached hsp hT hid (h.creator_attached htx ho hsup hT hTx hid hlt)
  · exact ((hma.unspent_iff hms).mp (hback o ho)).2 ⟨U,(mem_pathTxs_append h.common_ne).mpr (.inr hU),hcb,hoU⟩

theorem createdBy_or (htx : pool'.Has P tx) (ho : o ∈ tx.prevouts)
    (hsup : ¬ pool'.Supplies P tx o) :
    CreatedBy P (pathTxs (detached++common)) o ∨
      CreatedBy P (pathTxs (attached.reverse++(connected.reverse++common))) o := by
  obtain ⟨⟨mid,hma,hsub⟩,-,-⟩ := h.spec
  have hms := h.newSound.suffix (suffix_append attached.reverse _)
  have hmid : connected.reverse++common ≠ [] := fun he => h.common_ne (append_eq_nil_iff.mp he).2
  rcases hsub tx htx with hin | ⟨-,hback⟩
  · rcases h.available tx hin o ho with hu | ⟨T,hT,hTx,hid,hlt⟩
    · exact .inl ((h.old.unspent_iff h.oldSound).mp hu).1
    · refine .inr ⟨T,h.mem_new.mpr ?_,hid,hlt⟩
      rcases h.creator_attached htx ho hsup hT hTx hid hlt with hc | ha
      · exact .inr (.inl hc)
      · exact .inl ha
  · obtain ⟨T,hT,hcr⟩ := ((hma.unspent_iff hms).mp (hback o ho)).1
    exact .inr ⟨T,(mem_pathTxs_append hmid).mpr (.inr hT),hcr⟩

/-- After a move the inputs of the pool are available exactly if it supplies those
that a block attached afterwards spends and those whose creator has left the chain. -/
theorem inputsAvailable_iff :
    pool'.InputsAvailable P idx' ↔ ∀ tx, pool'.Has P tx → ∀ o ∈ tx.prevouts,
      SpentBy (blocksTxs attached) o ∨ (CreatedBy P (pathTxs (detached++common)) o ∧
        ¬ CreatedBy P (pathTxs (attached.reverse++(connected.reverse++common))) o) →
        pool'.Supplies P tx o := by
  constructor
  · intro hav tx htx o ho hlost
    rcases hav tx htx o ho with hu | hsup
    · obtain ⟨hcr,hsp⟩ := (h.new.unspent_iff h.newSound).mp hu
      rcases hlost with ⟨T,hT,hcb,hoT⟩ | ⟨-,hgone⟩
      · exact absurd ⟨T,h.mem_new.mpr (.inl hT),hcb,hoT⟩ hsp
      · exact absurd hcr hgone
    · exact hsup
  · intro hcond tx htx o ho
    rw [or_iff_not_imp_right]
    intro hsup
    have hlost := mt (hcond tx htx o ho) hsup
    rw [not_or,not_and_not_right] at hlost
    refine (h.new.unspent_iff h.newSound).mpr ⟨(h.createdBy_or htx ho hsup).elim hlost.2 id,?_⟩
    rintro ⟨T,hT,hcb,hoT⟩
    rcases h.mem_new.mp hT with ha | hc | hc
    · exact hlost.1 ⟨T,ha,hcb,hoT⟩
    · exact (h.spec.2.1 tx htx).2 o ho ⟨T,hc,hcb,hoT⟩
    · exact h.not_spentBy_common htx ho hsup ⟨T,hc,hcb,hoT⟩

theorem inputsAvailable
    (hfree : ∀ tx, pool.Has P tx ∨ tx ∈ blocksTxs detached → ¬ Conflicts (blocksTxs attached) tx)
    (hkept : ∀ tx, pool.Has P tx → ∀ o ∈ tx.prevouts, CreatedBy P (pathTxs (detached++common)) o →
      CreatedBy P (pathTxs (connected.reverse++common)) o) : pool'.InputsAvailable P idx' := by
  have hmid : connected.reverse++common ≠ [] := fun he => h.common_ne (append_eq_nil_iff.mp he).2
  obtain ⟨⟨mid,hma,hsub⟩,hgone,-⟩ := h.spec
  have hms := h.newSound.suffix (suffix_append attached.reverse _)
  refine h.inputsAvailable_iff.mpr fun tx htx o ho hlost => ?_
  rcases hlost with ⟨T,hT,hcb,hoT⟩ | ⟨hold,hnew⟩
  · -- a transaction of an attached block is removed from the pool, so `T` is another one
    refine absurd ⟨T,hT,fun he => (hgone tx htx).1 (he ▸ hT),hcb,o,ho,hoT⟩ (hfree tx ?_)
    exact (hsub tx htx).imp_right And.left
  · have hcr : CreatedBy P (pathTxs (connected.reverse++common)) o := by
      rcases hsub tx htx with hin | ⟨-,hback⟩
      · exact hkept tx hin o ho hold
      · exact ((hma.unspent_iff hms).mp (hback o ho)).1
    obtain ⟨T,hT,hid⟩ := hcr
    exact absurd ⟨T,(mem_pathTxs_append hmid).mpr (.inr hT),hid⟩ hnew

end Move

theorem Applied.spender_unique (ha : Applied P idx path) (hs : Sound P path)
    (hinj : Set.InjOn (getHash P) S) (hS : ∀ tx ∈ pathTxs path, tx ∈ S) {tx} (hT : T ∈ pathTxs path)
    (hcb : T.isCoinBase = false) (ho : o ∈ T.prevouts) (htx : tx ∈ pathTxs path)
    (hcb' : tx.isCoinBase = false) (ho' : o ∈ tx.prevouts) : T = tx := by
  obtain ⟨x,hx,rfl⟩ := mem_map.mp hT
  obtain ⟨y,hy,rfl⟩ := mem_map.mp htx
  have : Std.Symm fun e f : SpendIndex.Entry UInt256 CDiskTxPos => ∀ o ∈ e.ins, o ∉ f.ins :=
    ⟨fun e f h o he hf => h o hf he⟩
  have heq : txEntry P x = txEntry P y := by
    by_contra hne
    have hex : txEntry P x ∈ pathEntries P path := mem_map_of_mem hx
    have hey : txEntry P y ∈ pathEntries P path := mem_map_of_mem hy
    exact (ha.tracks hs).once.forall hex hey hne o.key (mem_ins_txEntry.mpr ⟨hcb,ho⟩)
      (mem_ins_txEntry.mpr ⟨hcb',ho'⟩)
  exact hinj (hS _ hT) (hS _ htx) (congrArg SpendIndex.Entry.id heq)

namespace Move

/-- Where blocks are only attached, nothing but their own transactions leaves the pool. -/
theorem mem_attached (h : Move P S tip [] common [] attached idx idx' pool pool') {tx}
    (hin : pool.Has P tx) (hout : ¬ pool'.Has P tx) : tx ∈ blocksTxs attached := by
  obtain ⟨W,db,vResurrect,log,mid,-,-,hv,hdel,rfl⟩ := h.moved
  obtain rfl : vResurrect = [] := eq_nil_iff_forall_not_mem.mpr fun tx htx => by
    simpa [blocksTxs] using hv tx htx
  obtain rfl : pool = mid := some.inj hdel
  rw [CTxMemPool.has_foldl_remove,not_and_not_right] at hout
  obtain ⟨T,hT,he⟩ := hout hin
  have hTS := h.newTxs T (h.mem_new.mpr (.inl hT))
  exact h.inj (h.poolTxs tx hin) hTS he ▸ hT

/-- Where blocks are only attached, a pool without transactions of the chain keeps its
inputs exactly if none of its transactions conflicts with them. -/
theorem inputsAvailable_iff_of_extends (h : Move P S tip [] common [] attached idx idx' pool pool')
    (hoff : ∀ tx, pool.Has P tx → tx.isCoinBase = false ∧ tx ∉ pathTxs common) :
    pool'.InputsAvailable P idx' ↔ ∀ tx, pool.Has P tx → ¬ Conflicts (blocksTxs attached) tx := by
  refine ⟨fun hav tx hin => ?_,fun hfree => h.inputsAvailable ?_ fun _ _ _ _ hcr => hcr⟩
  · rintro ⟨T,hT,hne,hcb,o,ho,hoT⟩
    have hTnew := h.mem_new.mpr (.inl hT)
    by_cases htx : pool'.Has P tx
    · rcases hav tx htx o ho with hu | ⟨U,hU,-,hid,hlt⟩
      · exact ((h.new.unspent_iff h.newSound).mp hu).2 ⟨T,hTnew,hcb,hoT⟩
      · -- the spent output stands on the new chain, and so would its creator in the pool
        have hUp : pool.Has P U := ((h.spec.1.choose_spec).2 U hU).resolve_right (by simp [blocksTxs])
        obtain ⟨x,-,hx⟩ := h.new.cell_of_spentBy h.newSound ⟨T,hTnew,hcb,hoT⟩
        obtain ⟨V,hV,hVid,-⟩ := (h.new.isSome_cell_iff h.newSound).mp (by rw [hx]; rfl)
        obtain rfl : V = U := h.inj (h.newTxs V hV) (h.poolTxs U hUp) (hVid.trans hid.symm)
        rcases h.mem_new.mp hV with ha | hc | hc
        · exact (h.spec.2.1 V hU).1 ha
        · simp [blocksTxs] at hc
        · exact (hoff V hUp).2 hc
    · have hatt := h.mem_attached hin htx
      have htxnew := h.mem_new.mpr (.inl hatt)
      exact hne (h.new.spender_unique h.newSound h.inj h.newTxs hTnew hcb hoT htxnew (hoff tx hin).1 ho)
  · rintro tx (hin | hdet)
    · exact hfree tx hin
    · simp [blocksTxs] at hdet

end Move

end

namespace Sample

def spend : CTransaction := payment 330 [⟨(coinbase 1 200 COIN).getHash params,0⟩] [⟨COIN,opTrue⟩]

def spendPool : CTxMemPool := Node.empty.mempool.addUnchecked chainParams spend

def grown : Node := (call files a₁ (started.addIndex acceptEnv a₁)).addIndex acceptEnv a₂

theorem reach_grown : Reach chainParams genesis.block (Attaches chainParams) grown :=
  reach_addIndex (reach_a₁ attaches_a₁) a₂ a₁ (by decide +kernel)

theorem has_of_toList {pool : CTxMemPool} {tx}
    (h : pool.mapTx.toList = [(spend.getHash chainParams,spend)]) :
    pool.Has chainParams tx ↔ tx = spend := by
  rw [CTxMemPool.Has,← Std.ExtTreeMap.mem_toList_iff_getElem?_eq_some,h,mem_singleton,Prod.mk.injEq]
  constructor
  · exact fun h => h.2
  · rintro rfl
    exact ⟨rfl,rfl⟩

theorem has_spendPool {tx : CTransaction} : spendPool.Has chainParams tx ↔ tx = spend :=
  has_of_toList (by decide +kernel)

theorem consistent_spendPool : spendPool.Consistent chainParams := by
  have hnone : ∀ h, Node.empty.mempool.mapTx[h]? = none := fun h => Std.ExtTreeMap.getElem?_empty
  have hempty : Node.empty.mempool.Consistent chainParams := by
    refine ⟨fun h tx htx => ?_,fun o tx => ?_⟩
    · rw [hnone] at htx
      cases htx
    · rw [CTxMemPool.Has,hnone]
      simp [Node.empty]
  exact hempty.addUnchecked (hnone _) fun _ _ => rfl

theorem inputsAvailable_spendPool {idx}
    (h : ∀ o ∈ spend.prevouts, SpendIndex.cell idx o.key = some .setNull) :
    spendPool.InputsAvailable chainParams idx := by
  intro tx htx o ho
  rw [has_spendPool.mp htx] at ho
  exact .inl (h o ho)

theorem injOn_spendPool {m} (hm : Set.InjOn (getHash chainParams) (treeTxs m))
    (h : ∀ e ∈ m.toList, ∀ tx ∈ e.2.data.block.vtx,
      tx.getHash chainParams ≠ spend.getHash chainParams) :
    Set.InjOn (getHash chainParams) (treeTxs m ∪ { tx | spendPool.Has chainParams tx }) := by
  have hne : ∀ tx ∈ treeTxs m, tx.getHash chainParams ≠ spend.getHash chainParams := by
    rintro tx ⟨k,p,hp,htx⟩
    exact h (k,p) (Std.ExtTreeMap.mem_toList_iff_getElem?_eq_some.mpr hp) tx htx
  rintro tx (htx | htx) tx' (htx' | htx') he
  · exact hm htx htx' he
  · rw [has_spendPool.mp htx'] at he
    exact absurd he (hne tx htx)
  · rw [has_spendPool.mp htx] at he
    exact absurd he.symm (hne tx' htx')
  · rw [has_spendPool.mp htx,has_spendPool.mp htx']

end Sample

section

variable {gen : CBlock} {E : CBlockIndex → World} {m n n' : Node} {target pindexNew : CBlockIndex} {tip : Tip}
  {all : Bool} {detached common connected attached left : List BlockIndexData}

def txsOutside (path base : List BlockIndexData) : List CTransaction :=
  blocksTxs (path.filter (· ∉ base))

theorem txsOutside_append {l base} (h : Distinct (l++base)) :
    txsOutside (l++base) base = blocksTxs l := by
  have hl : l.filter (· ∉ base) = l := by
    refine filter_eq_self.mpr fun d hd => decide_eq_true fun hb => ?_
    rw [Distinct,map_append,nodup_append] at h
    exact h.2.2 _ (mem_map_of_mem hd) _ (mem_map_of_mem hb) rfl
  have hb : base.filter (· ∉ base) = [] := filter_eq_nil_iff.mpr (by simp)
  rw [txsOutside,filter_append,hl,hb,append_nil]

theorem Synced.with_mempool (h : Synced P gen m) (pool) :
    Synced P gen { m with mempool := pool } := ⟨h.tree,h.first,h.best⟩

theorem Synced.move (hn : Synced P gen n)
    (hinj : Set.InjOn (getHash P) (treeTxs n.mapBlockIndex ∪ { tx | n.mempool.Has P tx }))
    (hpool : n.mempool.Consistent P) (havail : n.mempool.InputsAvailable P n.chain.txdb.readTxIndex)
    (htip : n.tip = some tip) (hmem : n.mapBlockIndex[pindexNew.getBlockHash]? = some pindexNew)
    (hm : Moved P tip target pindexNew n n' all detached common connected attached left) :
    Move P (treeTxs n.mapBlockIndex ∪ { tx | n.mempool.Has P tx }) tip detached common connected
      attached
      n.chain.txdb.readTxIndex n'.chain.txdb.readTxIndex n.mempool n'.mempool := by
  have htx := hinj.mono Set.subset_union_left
  obtain ⟨tip',htip',htree,-,hcomm⟩ := hn.best
  obtain rfl : tip = tip' := some.inj (htip.symm.trans htip')
  -- the entry that the record names after the call
  obtain ⟨d,ds,hd⟩ := exists_cons_of_ne_nil
    (show attached.reverse++(connected.reverse++common) ≠ [] by simp [hm.common_ne])
  have hsuf : d::ds <:+ pindexNew.path := by
    rw [hm.new,hd]
    exact suffix_append _ _
  have hentry := hn.tree.mem_of_suffix hmem hsuf
  have hns := (hn.tree.sound htx hmem).suffix hsuf
  rw [← hd] at hns
  have hpath : CBlockIndex.path ⟨d,ds⟩ = attached.reverse++(connected.reverse++common) := hd.symm
  refine ⟨hm.pool,hm.common_ne,hm.old ▸ hcomm.applied_readTxIndex,hm.old ▸ hn.tree.sound htx htree,
    hm.committed.applied_readTxIndex,hns,hinj,fun tx htx => .inr htx,fun tx hin => .inl ?_,
    fun tx hin => .inl ?_,hpool,havail⟩
  · exact hn.tree.mem_treeTxs htree (hm.old ▸ hin)
  · exact hn.tree.mem_treeTxs hentry (hpath ▸ hin)

/-- The inputs of the pool stay available over a call that returns true if no transaction of
the pool or of the old chain conflicts with the blocks above the branch that is switched to, and
this branch creates all that the pool spends of the old chain. Where the new block extends the
best chain this is exact: no transaction of the pool conflicts with that block. -/
theorem inputsAvailable_of_no_conflict (hm : Reach P gen (Attaches P) m)
    (hinj : Set.InjOn (getHash P) (treeTxs m.mapBlockIndex ∪ { tx | pool.Has P tx }))
    (hpool : pool.Consistent P) (havail : pool.InputsAvailable P m.chain.txdb.readTxIndex)
    (hmem : m.mapBlockIndex[pindexNew.getBlockHash]? = some pindexNew) (htip : m.tip = some tip)
    (h : setBestChain P E pindexNew { m with mempool := pool } = some (.ok (),n')) :
    ((∀ tx, pool.Has P tx ∨ tx ∈ pathTxs tip.pindexBest.path →
        ¬ Conflicts (txsOutside pindexNew.path (switchTarget m tip pindexNew).path) tx) →
      (∀ tx, pool.Has P tx → ∀ o ∈ tx.prevouts, CreatedBy P (pathTxs tip.pindexBest.path) o →
        CreatedBy P (pathTxs (switchTarget m tip pindexNew).path) o) →
      n'.mempool.InputsAvailable P n'.chain.txdb.readTxIndex) ∧
    (pindexNew.data.block.hashPrevBlock = m.hashBestChain →
      (∀ tx, pool.Has P tx → tx.isCoinBase = false ∧ tx ∉ pathTxs tip.pindexBest.path) →
      (n'.mempool.InputsAvailable P n'.chain.txdb.readTxIndex ↔
        ∀ tx, pool.Has P tx → ¬ Conflicts pindexNew.data.block.vtx tx)) := by
  have htx := hinj.mono Set.subset_union_left
  have hsync := (hm.synced (fun _ _ _ h => h) htx).with_mempool pool
  obtain ⟨all,s,hs,rfl⟩ := setBestChain_eq_ok.mp h
  constructor
  · intro hfree hkept
    obtain ⟨tip',htip',detached,common,connected,attached,left,hmv⟩ := hsync.moved htx hmem hs
    obtain rfl : tip = tip' := some.inj (htip.symm.trans htip')
    have htarget : (switchTarget m tip pindexNew).path = connected.reverse++common := hmv.mid
    have hmove := hsync.move hinj hpool havail htip hmem hmv
    have hdist := hsync.tree.distinct hmem
    rw [hmv.old,htarget] at hkept
    rw [htarget,hmv.new,← append_assoc] at hfree
    rw [hmv.new,← append_assoc] at hdist
    rw [txsOutside_append hdist] at hfree
    refine hmove.inputsAvailable (fun tx htx => ?_) hkept
    rintro ⟨T,hT,hconf⟩
    refine hfree tx (htx.imp_right fun hdet => ?_) ⟨T,?_,hconf⟩
    · rw [hmv.old]
      exact (mem_pathTxs_append hmv.common_ne).mpr (.inl hdet)
    · simp only [blocksTxs,mem_flatMap,mem_append,mem_reverse] at hT ⊢
      obtain ⟨d,hd,hT⟩ := hT
      exact ⟨d,.inr hd,hT⟩
  · intro hext hoff
    have hmove := hsync.move hinj hpool havail htip hmem (hsync.extended htip hmem hext hs)
    rw [show pindexNew.data.block.vtx = blocksTxs [pindexNew.data] by simp [blocksTxs]]
    exact hmove.inputsAvailable_iff_of_extends hoff

open Sample

/-- The block on the best one leaves the coinbase below it unspent. -/
theorem inputsAvailable_of_no_conflict_a₂ : ∃ n', setBestChain chainParams files a₂
        { grown with mempool := spendPool } = some (.ok (),n') ∧
      n'.mempool.Has chainParams spend ∧
      n'.mempool.InputsAvailable chainParams n'.chain.txdb.readTxIndex := by
  have hcall : (setBestChain chainParams files a₂ { grown with mempool := spendPool }).map (fun r =>
        (r.1,r.2.mempool.mapTx.toList)) =
      some (.ok (),[(spend.getHash chainParams,spend)]) := by decide +kernel
  obtain ⟨⟨r,n'⟩,hn,hr⟩ := map_eq_some_iff.mp hcall
  simp only [Prod.mk.injEq] at hr
  obtain ⟨rfl,hlist⟩ := hr
  have hbest : grown.tip.map Tip.pindexBest = some a₁ := by decide +kernel
  obtain ⟨tip,htip,hpath⟩ := map_eq_some_iff.mp hbest
  have hiff := (inputsAvailable_of_no_conflict reach_grown
    (injOn_spendPool (injOn_treeTxs (by decide +kernel)) (by decide +kernel))
    consistent_spendPool (inputsAvailable_spendPool (by decide +kernel)) (by decide +kernel) htip hn).2
  refine ⟨n',hn,(has_of_toList hlist).mpr rfl,(hiff (by decide +kernel) fun tx htx => ?_).mpr fun tx htx => ?_⟩
  · rw [has_spendPool.mp htx,hpath]
    decide +kernel
  · rw [has_spendPool.mp htx]
    unfold Conflicts
    decide +kernel

end

open Sample

/-- The reorganisation to the other branch takes the coinbase away, and the
transaction that spends it stays in the pool. -/
theorem inputs_not_available :
    ∃ m pool n', Reach chainParams genesis.block (Attaches chainParams) m ∧
      Set.InjOn (getHash chainParams) (treeTxs m.mapBlockIndex ∪ { tx | pool.Has chainParams tx }) ∧
      pool.Consistent chainParams ∧ pool.InputsAvailable chainParams m.chain.txdb.readTxIndex ∧
      m.mapBlockIndex[c₂.getBlockHash]? = some c₂ ∧
      setBestChain chainParams files c₂ { m with mempool := pool } = some (.ok (),n') ∧
      ¬ n'.mempool.InputsAvailable chainParams n'.chain.txdb.readTxIndex := by
  have hforked : Reach chainParams genesis.block (Attaches chainParams) forked :=
    reach_forked attaches_a₁
  have hm := reach_addIndex hforked c₂ b₁ run_c₂.2.1
  have hcall : (setBestChain chainParams files c₂
      { forked.addIndex acceptEnv c₂ with mempool := spendPool }).map (fun r =>
        (r.1,r.2.mempool.mapTx.toList,
          decide (∃ o ∈ spend.prevouts, r.2.chain.txdb.readTxIndex o.hash = none))) =
      some (.ok (),[(spend.getHash chainParams,spend)],true) := by decide +kernel
  obtain ⟨⟨r,n'⟩,hn,hr⟩ := map_eq_some_iff.mp hcall
  simp only [Prod.mk.injEq,decide_eq_true_eq] at hr
  obtain ⟨rfl,hlist,o,ho,hgone⟩ := hr
  refine ⟨_,spendPool,n',hm, injOn_spendPool (injOn_treeTxs (by decide +kernel)) (by decide +kernel),
    consistent_spendPool,inputsAvailable_spendPool (by decide +kernel),by decide +kernel,hn,fun hav => ?_⟩
  rcases hav spend ((has_of_toList hlist).mpr rfl) o ho with hu | ⟨T,hT,hTx,-⟩
  · simp [SpendIndex.cell,COutPoint.key,hgone] at hu
  · exact hTx ((has_of_toList hlist).mp hT)

end DarkSilk
