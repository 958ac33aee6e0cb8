import DarkSilk.TxDB
import DarkSilk.Runs

/-! The database object under arbitrary sequences of its operations, and the
transactional map it stands for: a base map and, while a transaction is open, the last
pending operation of every key. -/
namespace DarkSilk

open BatchStore Runs Option

variable {K : Type} {V : K → Type}

/-- A call of the database object. Whether a commit succeeds is up to the storage layer. -/
inductive DbCall (V : K → Type)
  | txnBegin
  | write (k : K) (v : V k)
  | erase (k : K)
  | read (k : K)
  | exists' (k : K)
  | txnCommit (ok : Bool)
  | txnAbort

inductive DbAnswer (V : K → Type)
  | bool (b : Bool)
  | value (k : K) (v : Option (V k))

variable [DecidableEq K]

/-- One call of the object. A nested begin, a commit of nothing and a change through a
read-only handle are failed assertions. -/
def BatchStore.TxDB.exec (fReadOnly : Bool) (db : TxDB V) : DbCall V → Option (DbAnswer V × TxDB V)
  | .txnBegin => if db.activeBatch.isSome then none else some (.bool true,db.txnBegin)
  | .write k v => if fReadOnly then none else some (.bool true,db.write k v)
  | .erase k => if fReadOnly then none else some (.bool true,db.erase k)
  | .read k => some (.value k (db.read k),db)
  | .exists' k => some (.bool (db.exists' k),db)
  | .txnCommit ok => if db.activeBatch.isNone then none else some (.bool ok,db.txnCommit ok)
  | .txnAbort => some (.bool true,db.txnAbort)

/-- A map with at most one open transaction, in which every key has its last pending
operation: none, a put or a delete. -/
structure TxnMap (V : K → Type) where
  base : Store V
  pending : Option ((k : K) → Option (Option (V k)))

namespace TxnMap

def current (m : TxnMap V) : Store V := fun k =>
  match m.pending with
  | none => m.base k
  | some p => (p k).getD (m.base k)

def put (m : TxnMap V) (k : K) (v : Option (V k)) : TxnMap V :=
  match m.pending with
  | none => ⟨Function.update m.base k v,none⟩
  | some p => ⟨m.base,some (Function.update p k (some v))⟩

def exec (fReadOnly : Bool) (m : TxnMap V) : DbCall V → Option (DbAnswer V × TxnMap V)
  | .txnBegin => if m.pending.isSome then none else some (.bool true,⟨m.base,some fun _ => none⟩)
  | .write k v => if fReadOnly then none else some (.bool true,m.put k (some v))
  | .erase k => if fReadOnly then none else some (.bool true,m.put k none)
  | .read k => some (.value k (m.current k),m)
  | .exists' k => some (.bool (m.current k).isSome,m)
  | .txnCommit ok =>
    if m.pending.isNone then none else some (.bool ok,⟨if ok then m.current else m.base,none⟩)
  | .txnAbort => some (.bool true,⟨m.base,none⟩)

end TxnMap

namespace BatchStore.TxDB

def toTxnMap (db : TxDB V) : TxnMap V := ⟨db.pdb,db.activeBatch.map scanBatch⟩

theorem current_toTxnMap (db : TxDB V) : db.toTxnMap.current = db.view := by
  funext k
  rcases db with ⟨pdb,_ | ops⟩
  · rfl
  · exact (applyAll_eq_scanBatch pdb ops k).symm

theorem toTxnMap_put (db : TxDB V) (k : K) (v) : (db.put k v).toTxnMap = db.toTxnMap.put k v := by
  rcases db with ⟨pdb,_ | ops⟩
  · rfl
  · simp only [put,toTxnMap,TxnMap.put,map_some,TxnMap.mk.injEq,true_and,some.injEq]
    funext k'
    rw [scanBatch_concat]
    by_cases h : k = k'
    · subst h
      simp
    · simp [h,Function.update_of_ne (Ne.symm h)]

theorem toTxnMap_txnCommit (db : TxDB V) (ok) :
    (db.txnCommit ok).toTxnMap = ⟨if ok then db.toTxnMap.current else db.toTxnMap.base,none⟩ := by
  rw [current_toTxnMap]
  rfl

/-- The key is in the base map and its last pending operation deletes it. -/
def hidden (db : TxDB V) (k : K) : Bool :=
  match db.activeBatch with
  | none => false
  | some ops =>
    match scanBatch ops k with
    | some none => (db.pdb k).isSome
    | _ => false

/-- A pending delete does not hide the key from the existence test. -/
theorem exists'_eq_iff (db : TxDB V) (k : K) :
    db.exists' k = (db.view k).isSome ↔ db.hidden k = false := by
  rcases db with ⟨pdb,_ | ops⟩
  · simp [exists',view,hidden]
  · simp only [exists',view,getD_some,applyAll_eq_scanBatch,hidden]
    rcases scanBatch ops k with _ | _ | v <;> simp

/-- The answer of the transactional map, given the one of the database: they can only
differ in existence tests. -/
def mapAnswer (db : TxDB V) (a : DbAnswer V) : DbCall V → DbAnswer V
  | .exists' k => .bool (db.view k).isSome
  | _ => a

theorem exec_toTxnMap (fReadOnly) (db : TxDB V) (c) :
    db.toTxnMap.exec fReadOnly c = (db.exec fReadOnly c).map fun x =>
      (db.mapAnswer x.1 c,x.2.toTxnMap) := by
  cases c with
  | txnBegin =>
    have hnil : (fun k => scanBatch ([] : List (Op V)) k) = fun _ => none := rfl
    cases hb : db.activeBatch <;> simp [exec,TxnMap.exec,toTxnMap,mapAnswer,txnBegin,hb,← hnil]
  | write k v => cases fReadOnly <;> simp [exec,TxnMap.exec,mapAnswer,write,toTxnMap_put]
  | erase k => cases fReadOnly <;> simp [exec,TxnMap.exec,mapAnswer,erase,toTxnMap_put]
  | read k => simp [exec,TxnMap.exec,mapAnswer,current_toTxnMap]
  | exists' k => simp [exec,TxnMap.exec,mapAnswer,current_toTxnMap]
  | txnCommit ok =>
    rw [TxnMap.exec,← toTxnMap_txnCommit]
    cases hb : db.activeBatch <;> simp [exec,toTxnMap,mapAnswer,hb]
  | txnAbort => simp [exec,TxnMap.exec,mapAnswer,toTxnMap]

/-- The call is no existence test of a hidden key. -/
def Seen (db : TxDB V) : DbCall V → Prop
  | .exists' k => db.hidden k = false
  | _ => True

theorem answer_eq_iff {fReadOnly} {db db' : TxDB V} {c a} (h : db.exec fReadOnly c = some (a,db')) :
    a = db.mapAnswer a c ↔ db.Seen c := by
  cases c with
  | exists' k =>
    obtain rfl : DbAnswer.bool (db.exists' k) = a := by simpa [exec] using congrArg (Option.map Prod.fst) h
    simpa [mapAnswer,Seen] using exists'_eq_iff db k
  | txnBegin => simp [mapAnswer,Seen]
  | write k v => simp [mapAnswer,Seen]
  | erase k => simp [mapAnswer,Seen]
  | read k => simp [mapAnswer,Seen]
  | txnCommit ok => simp [mapAnswer,Seen]
  | txnAbort => simp [mapAnswer,Seen]

theorem lockstep (fReadOnly : Bool) :
    Lockstep (TxDB.exec (V := V) fReadOnly) (TxnMap.exec fReadOnly) toTxnMap Seen where
  stop db c h := by rw [exec_toTxnMap,h,map_none]
  go db c a db' h := ⟨db.mapAnswer a c,by rw [exec_toTxnMap,h,map_some],answer_eq_iff h⟩

/-- Over any sequence of calls the database ends in the state of the transactional
map, and it gives the same answers exactly if no existence test asks for a key that
is in the base map and whose last pending operation deletes it. -/
theorem trace_eq_txnMap_iff (fReadOnly : Bool) (db : TxDB V) (calls : List (DbCall V)) :
    ((trace (exec fReadOnly) db calls).1 = (trace (TxnMap.exec fReadOnly) db.toTxnMap calls).1 ∧
        (trace (exec fReadOnly) db calls).2.map toTxnMap =
          (trace (TxnMap.exec fReadOnly) db.toTxnMap calls).2) ↔
      Along (exec fReadOnly) Seen db calls := by
  rw [(lockstep fReadOnly).trace_fst_eq_iff db calls,(lockstep fReadOnly).trace_snd db calls]
  exact and_iff_left rfl

end BatchStore.TxDB

/-- A database with the record of one transaction. -/
def Sample.oneTx : CTxDB :=
  ⟨Function.update (fun _ => none) (.tx 1) (some (CTxIndex.new .setNull 1)),none⟩

/-- A record that was erased in the open transaction is still reported to exist. -/
theorem exists_of_erased :
    (trace (TxDB.exec false) Sample.oneTx [.txnBegin,.erase (.tx 1),.exists' (.tx 1)]).1 =
        [.bool true,.bool true,.bool true] ∧
      (trace (TxnMap.exec false) Sample.oneTx.toTxnMap [.txnBegin,.erase (.tx 1),
        .exists' (.tx 1)]).1 =
        [.bool true,.bool true,.bool false] := ⟨rfl,rfl⟩

end DarkSilk
