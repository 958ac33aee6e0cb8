import Mathlib

/-! A transactional key/value store: a base map and, while a transaction is open,
a batch of pending puts and deletes. The value type may depend on the key, so
that records of different kinds live in one store. Reads look through the batch
first. -/
namespace DarkSilk
namespace BatchStore

variable {K : Type} {V : K → Type}

abbrev Store (V : K → Type) := (k : K) → Option (V k)

abbrev Op (V : K → Type) := (k : K) × Option (V k)

structure TxDB (V : K → Type) where
  pdb : Store V
  activeBatch : Option (List (Op V))

namespace TxDB

def txnBegin (db : TxDB V) : TxDB V := ⟨db.pdb,some []⟩

def txnAbort (db : TxDB V) : TxDB V := ⟨db.pdb,none⟩

@[simp] theorem pdb_txnBegin (db : TxDB V) : db.txnBegin.pdb = db.pdb := rfl

@[simp] theorem pdb_txnAbort (db : TxDB V) : db.txnAbort.pdb = db.pdb := rfl

@[simp] theorem activeBatch_txnAbort (db : TxDB V) : db.txnAbort.activeBatch = none := rfl

end TxDB

variable [DecidableEq K]

def applyOp (s : Store V) (o : Op V) : Store V := Function.update s o.1 o.2

def applyAll (s : Store V) (ops : List (Op V)) : Store V := ops.foldl applyOp s

@[simp] theorem applyAll_nil (s : Store V) : applyAll s [] = s := rfl

@[simp] theorem applyAll_cons (s : Store V) (o : Op V) (ops : List (Op V)) :
    applyAll s (o::ops) = applyAll (applyOp s o) ops := rfl

@[simp] theorem applyAll_concat (s : Store V) (ops o) :
    applyAll s (ops++[o]) = Function.update (applyAll s ops) o.1 o.2 := by
  simp [applyAll,List.foldl_append,applyOp]

namespace TxDB

/-- Scan the batch for a key; the last operation on the key wins. The outer
option says whether the key was found, the inner one whether it was put or deleted. -/
def scanBatch (ops : List (Op V)) (k : K) : Option (Option (V k)) :=
  ops.foldl (fun found o => if h : o.1 = k then some (h ▸ o.2) else found) none

def read (db : TxDB V) (k : K) : Option (V k) :=
  match db.activeBatch with
  | none => db.pdb k
  | some ops =>
    match scanBatch ops k with
    | some none => none
    | some (some v) => some v
    | none => db.pdb k

/-- Existence test. A pending delete is not remembered here: only a pending put
answers from the batch, and everything else falls through to the base map. -/
def exists' (db : TxDB V) (k : K) : Bool :=
  match db.activeBatch with
  | none => (db.pdb k).isSome
  | some ops =>
    match scanBatch ops k with
    | some (some _) => true
    | _ => (db.pdb k).isSome

def put (db : TxDB V) (k : K) (v : Option (V k)) : TxDB V :=
  match db.activeBatch with
  | none => ⟨Function.update db.pdb k v,none⟩
  | some ops => ⟨db.pdb,some (ops++[⟨k,v⟩])⟩

def write (db : TxDB V) (k : K) (v : V k) : TxDB V := db.put k (some v)

def erase (db : TxDB V) (k : K) : TxDB V := db.put k none

/-- Commit the batch atomically; when the storage layer reports a failure nothing
of the batch reaches the base map. -/
def txnCommit (db : TxDB V) (ok : Bool) : TxDB V :=
  ⟨if ok then applyAll db.pdb (db.activeBatch.getD []) else db.pdb,none⟩

/-- The map as it would be if the open transaction had been committed. -/
def view (db : TxDB V) : Store V := applyAll db.pdb (db.activeBatch.getD [])

theorem scanBatch_concat (ops : List (Op V)) (o : Op V) (k : K) :
    scanBatch (ops++[o]) k = if h : o.1 = k then some (h ▸ o.2) else scanBatch ops k := by
  simp [scanBatch,List.foldl_append]

/-- What a scan finds is what the batch leaves in the map, and a key the scan
misses keeps its base value. -/
theorem applyAll_eq_scanBatch (s : Store V) (ops : List (Op V)) (k : K) :
    applyAll s ops k = (scanBatch ops k).getD (s k) := by
  induction ops using List.reverseRecOn with
  | nil => rfl
  | append_singleton ops o ih =>
    rw [applyAll_concat,scanBatch_concat]
    by_cases h : o.1 = k
    · subst h
      simp
    · simp [h,Function.update_of_ne (Ne.symm h),ih]

@[simp] theorem read_eq_view (db : TxDB V) (k : K) : db.read k = db.view k := by
  rcases db with ⟨pdb,_ | ops⟩
  · rfl
  · simp only [read,view,Option.getD_some,applyAll_eq_scanBatch]
    rcases scanBatch ops k with _ | _ | v <;> rfl

@[simp] theorem view_put (db : TxDB V) (k : K) (v) :
    (db.put k v).view = Function.update db.view k v := by
  rcases db with ⟨pdb,_ | ops⟩ <;> simp [put,view]

@[simp] theorem view_write (db : TxDB V) (k : K) (v : V k) :
    (db.write k v).view = Function.update db.view k (some v) := view_put db k (some v)

@[simp] theorem view_erase (db : TxDB V) (k : K) :
    (db.erase k).view = Function.update db.view k none := view_put db k none

@[simp] theorem view_txnBegin (db : TxDB V) : db.txnBegin.view = db.pdb := rfl

@[simp] theorem activeBatch_txnCommit (db : TxDB V) (ok) : (db.txnCommit ok).activeBatch = none :=
  rfl

@[simp] theorem pdb_txnCommit_true (db : TxDB V) : (db.txnCommit true).pdb = db.view := rfl

@[simp] theorem pdb_txnCommit_false (db : TxDB V) : (db.txnCommit false).pdb = db.pdb := rfl

/-- From `db` to `db'` only the open transaction, if there is one, has changed. -/
def Pending (db db' : TxDB V) : Prop :=
  db.activeBatch.isSome → db'.pdb = db.pdb ∧ db'.activeBatch.isSome

omit [DecidableEq K] in
theorem Pending.refl (db : TxDB V) : Pending db db := fun h => ⟨rfl,h⟩

omit [DecidableEq K] in
theorem Pending.trans {a b c : TxDB V} (h : Pending a b) (h' : Pending b c) : Pending a c := by
  intro ha
  obtain ⟨h1,hb⟩ := h ha
  obtain ⟨h2,hc⟩ := h' hb
  exact ⟨h2.trans h1,hc⟩

theorem pending_put (db : TxDB V) (k : K) (v) : Pending db (db.put k v) := by
  rcases db with ⟨pdb,_ | ops⟩ <;> simp [Pending,put]

theorem put_eq_self_iff (db : TxDB V) (k : K) (v) :
    db.put k v = db ↔ db.activeBatch = none ∧ db.pdb k = v := by
  rcases db with ⟨pdb,_ | ops⟩
  · simp [put,eq_comm]
  · simp [put]

theorem view_of_idle {db : TxDB V} (h : db.activeBatch = none) : db.view = db.pdb := by
  simp [view,h]

end TxDB
end BatchStore
end DarkSilk
