import DarkSilk.Runs

/-! The key pool of the wallet: keys that are generated ahead, filed under numbers, and
handed out to reservations that keep them or give them back. -/
namespace DarkSilk

open Std List

/-- The pool: the free numbers, the records of the wallet database, the keys of the
wallet in the order they were generated, and the lock. -/
structure KeyPool (κ : Type) where
  setKeyPool : Std.ExtTreeSet ℕ := ∅
  pool : ExtTreeMap ℕ κ := ∅
  keys : List κ := []
  fLocked : Bool := false

namespace KeyPool

variable {κ : Type} [DecidableEq κ] (newKey : ℕ → κ) (nKeypool : ℕ)

def file (s : KeyPool κ) (nIndex : ℕ) : KeyPool κ :=
  { s with
    setKeyPool := s.setKeyPool.insert nIndex
    pool := s.pool.insert nIndex (newKey s.keys.length)
    keys := s.keys++[newKey s.keys.length] }

def nEnd (s : KeyPool κ) : ℕ :=
  match s.setKeyPool.toList.getLast? with
  | none => 1
  | some n => n+1

def newKeyPool (s : KeyPool κ) : Bool × KeyPool κ :=
  let s := { s with
    pool := s.setKeyPool.toList.foldl (fun p nIndex => p.erase nIndex) s.pool
    setKeyPool := ∅ }
  if s.fLocked then (false,s) else (true,(List.range' 1 nKeypool).foldl (file newKey) s)

/-- The bound of the loop is an unsigned number of 32 bits. -/
def topUpBound (nSize : ℕ) : ℕ := ((if 0 < nSize then nSize else nKeypool%2^32)+1)%2^32

def topUpLoop (nBound : ℕ) : ℕ → KeyPool κ → KeyPool κ
  | 0, s => s
  | k+1, s => if s.setKeyPool.size < nBound then topUpLoop nBound k (s.file newKey s.nEnd) else s

def topUpKeyPool (nSize : ℕ) (s : KeyPool κ) : Bool × KeyPool κ :=
  if s.fLocked then (false,s)
  else (true,s.topUpLoop newKey (topUpBound nKeypool nSize) (topUpBound nKeypool nSize))

/-- The oldest key, with its number; nothing if the pool is empty. -/
def reserveKeyFromKeyPool (s : KeyPool κ) : Except String (Option (ℕ × κ)) × KeyPool κ :=
  let s := if s.fLocked then s else (s.topUpKeyPool newKey nKeypool 0).2
  match s.setKeyPool.toList.head? with
  | none => (.ok none,s)
  | some nIndex =>
    let s := { s with setKeyPool := s.setKeyPool.erase nIndex }
    match s.pool[nIndex]? with
    | none => (.error "ReserveKeyFromKeyPool() : read failed",s)
    | some vchPubKey =>
      if vchPubKey ∈ s.keys then (.ok (some (nIndex,vchPubKey)),s)
      else (.error "ReserveKeyFromKeyPool() : unknown key in key pool",s)

def keepKey (s : KeyPool κ) (nIndex : ℕ) : KeyPool κ := { s with pool := s.pool.erase nIndex }

def returnKey (s : KeyPool κ) (nIndex : ℕ) : KeyPool κ :=
  { s with setKeyPool := s.setKeyPool.insert nIndex }

end KeyPool

inductive KeyPoolCall where
  | topUpKeyPool (nSize : ℕ)
  | newKeyPool
  | reserveKeyFromKeyPool
  | keepKey (j : ℕ)
  | returnKey (j : ℕ)
  | lock
  | unlock

def KeyPoolCall.settles : KeyPoolCall → Bool
  | .keepKey _ => true
  | .returnKey _ => true
  | _ => false

structure KeyPoolRun (κ : Type) where
  wallet : KeyPool κ := {}
  reserved : List (ℕ × κ) := []
  kept : List κ := []

namespace KeyPoolRun

variable {κ : Type} [DecidableEq κ] (newKey : ℕ → κ) (nKeypool : ℕ)

def call (s : KeyPoolRun κ) : KeyPoolCall → KeyPoolRun κ
  | .topUpKeyPool nSize => { s with wallet := (s.wallet.topUpKeyPool newKey nKeypool nSize).2 }
  | .newKeyPool => { s with wallet := (s.wallet.newKeyPool newKey nKeypool).2 }
  | .reserveKeyFromKeyPool =>
    let r := s.wallet.reserveKeyFromKeyPool newKey nKeypool
    match r.1 with
    | .ok (some x) => { s with wallet := r.2, reserved := s.reserved++[x] }
    | _ => { s with wallet := r.2 }
  | .keepKey j =>
    match s.reserved[j]? with
    | none => s
    | some x => ⟨s.wallet.keepKey x.1,s.reserved.eraseIdx j,s.kept++[x.2]⟩
  | .returnKey j =>
    match s.reserved[j]? with
    | none => s
    | some x => { s with wallet := s.wallet.returnKey x.1, reserved := s.reserved.eraseIdx j }
  | .lock => { s with wallet := { s.wallet with fLocked := true } }
  | .unlock => { s with wallet := { s.wallet with fLocked := false } }

/-- No two outstanding reservations have the same key, none has a key that was kept, every
free number has its record, and the next reservation does not throw. -/
structure Safe (s : KeyPoolRun κ) : Prop where
  distinct : (s.reserved.map Prod.snd).Nodup
  unkept : ∀ k ∈ s.reserved.map Prod.snd, k ∉ s.kept
  recorded : ∀ i ∈ s.wallet.setKeyPool, (s.wallet.pool[i]?).isSome
  reserves : ∃ r, (s.wallet.reserveKeyFromKeyPool newKey nKeypool).1 = .ok r

/-- The numbers under which a call files new keys. -/
def newIndices (s : KeyPoolRun κ) : KeyPoolCall → List ℕ
  | .topUpKeyPool nSize => if s.wallet.fLocked then [] else
      List.range' s.wallet.nEnd (KeyPool.topUpBound nKeypool nSize-s.wallet.setKeyPool.size)
  | .newKeyPool => if s.wallet.fLocked then [] else List.range' 1 nKeypool
  | .reserveKeyFromKeyPool => if s.wallet.fLocked then [] else
      List.range' s.wallet.nEnd (KeyPool.topUpBound nKeypool 0-s.wallet.setKeyPool.size)
  | _ => []

def Unreserved (s : KeyPoolRun κ) (c : KeyPoolCall) : Prop :=
  ∀ i ∈ s.newIndices nKeypool c, i ∉ s.reserved.map Prod.fst

instance (s : KeyPoolRun κ) (c : KeyPoolCall) : Decidable (s.Unreserved nKeypool c) :=
  inferInstanceAs (Decidable (∀ i ∈ _, _))

end KeyPoolRun

namespace KeyPool

variable {κ : Type} {newKey : ℕ → κ} {s : KeyPool κ} {i : ℕ} {k : κ}

theorem mem_file {n} : i ∈ (s.file newKey n).setKeyPool ↔ i = n ∨ i ∈ s.setKeyPool := by
  simp [file,eq_comm (a := n)]

theorem getElem?_file {n} :
    (s.file newKey n).pool[i]? = if n = i then some (newKey s.keys.length) else s.pool[i]? := by
  simp [file,ExtTreeMap.getElem?_insert]

theorem lt_nEnd (hi : i ∈ s.setKeyPool) : i < s.nEnd := by
  unfold nEnd
  rw [← Std.ExtTreeSet.max?_eq_getLast?_toList]
  cases hm : s.setKeyPool.max? with
  | none => simp [Std.ExtTreeSet.max?_eq_none_iff.mp hm] at hi
  | some n =>
    have hle := (Std.ExtTreeSet.max?_eq_some_iff_mem_and_forall.mp hm).2 i hi
    rw [Nat.isLE_compare] at hle
    exact Nat.lt_succ_of_le hle

theorem nEnd_file : (s.file newKey s.nEnd).nEnd = s.nEnd+1 := by
  have hmax : (s.file newKey s.nEnd).setKeyPool.max? = some s.nEnd := by
    refine Std.ExtTreeSet.max?_eq_some_iff_mem_and_forall.mpr ⟨mem_file.mpr (.inl rfl),fun i hi => ?_⟩
    rw [Nat.isLE_compare]
    rcases mem_file.mp hi with rfl | hi
    · exact le_rfl
    · exact (lt_nEnd hi).le
  rw [nEnd,← Std.ExtTreeSet.max?_eq_getLast?_toList,hmax]

theorem size_file : (s.file newKey s.nEnd).setKeyPool.size = s.setKeyPool.size+1 := by
  have hnot : s.setKeyPool.contains s.nEnd = false := by
    rw [← Bool.not_eq_true,Std.ExtTreeSet.contains_iff_mem]
    exact fun hmem => lt_irrefl _ (lt_nEnd hmem)
  simp [file,Std.ExtTreeSet.size_insert,hnot]

theorem range'_file (newKey : ℕ → κ) {nBound} (h : s.setKeyPool.size < nBound) :
    range' s.nEnd (nBound-s.setKeyPool.size) =
      s.nEnd::range' (s.file newKey s.nEnd).nEnd
        (nBound-(s.file newKey s.nEnd).setKeyPool.size) := by
  rw [nEnd_file,size_file]
  obtain ⟨d,hd⟩ := Nat.exists_eq_add_of_lt h
  have h1 : nBound-s.setKeyPool.size = d+1 := by omega
  have h2 : nBound-(s.setKeyPool.size+1) = d := by omega
  rw [h1,h2,range'_succ]

/-- The loop files keys under the numbers from the end on, until the pool is large enough. -/
theorem topUpLoop_eq_foldl {nBound fuel} (hf : nBound-s.setKeyPool.size ≤ fuel) :
    s.topUpLoop newKey nBound fuel =
      (range' s.nEnd (nBound-s.setKeyPool.size)).foldl (file newKey) s := by
  induction fuel generalizing s with
  | zero =>
    rw [Nat.le_zero.mp hf]
    rfl
  | succ n ih =>
    unfold topUpLoop
    split_ifs with hlt
    · rw [range'_file newKey hlt,foldl_cons]
      exact ih (by rw [size_file]; omega)
    · rw [Nat.sub_eq_zero_of_le (Nat.le_of_not_lt hlt)]
      rfl

theorem mem_foldl_file (l : List ℕ) (s : KeyPool κ) :
    i ∈ (l.foldl (file newKey) s).setKeyPool ↔ i ∈ l ∨ i ∈ s.setKeyPool := by
  induction l generalizing s with
  | nil => simp
  | cons n l ih =>
    rw [foldl_cons,ih,mem_file,mem_cons]
    tauto

theorem getElem?_foldl_erase (l : List ℕ) (p : ExtTreeMap ℕ κ) :
    (l.foldl (fun p n => p.erase n) p)[i]? = if i ∈ l then none else p[i]? := by
  induction l generalizing p with
  | nil => simp
  | cons n l ih =>
    rw [foldl_cons,ih,ExtTreeMap.getElem?_erase]
    by_cases hn : n = i <;> by_cases hl : i ∈ l <;> simp [hn,hl,eq_comm (a := i)]

def Known (s : KeyPool κ) : Prop := ∀ i ∈ s.setKeyPool, ∃ k ∈ s.keys, s.pool[i]? = some k

theorem Known.file (h : s.Known) (n) : (s.file newKey n).Known := by
  intro i hi
  rw [getElem?_file]
  split_ifs with hn
  · exact ⟨_,by simp [KeyPool.file],rfl⟩
  · obtain ⟨k,hk,hpool⟩ := h i ((mem_file.mp hi).resolve_left (Ne.symm hn))
    exact ⟨k,by simp [KeyPool.file,hk],hpool⟩

theorem Known.foldl_file (l : List ℕ) (h : s.Known) : (l.foldl (KeyPool.file newKey) s).Known := by
  induction l generalizing s with
  | nil => exact h
  | cons n l ih => exact ih (h.file n)

def ready (newKey : ℕ → κ) (nKeypool : ℕ) (s : KeyPool κ) : KeyPool κ :=
  (if s.fLocked then [] else List.range' s.nEnd (topUpBound nKeypool 0-s.setKeyPool.size)).foldl (file newKey) s

theorem topUpKeyPool_eq {nKeypool nSize} : (s.topUpKeyPool newKey nKeypool nSize).2 =
    (if s.fLocked then [] else range' s.nEnd (topUpBound nKeypool nSize-s.setKeyPool.size)).foldl
      (file newKey) s := by
  unfold topUpKeyPool
  split_ifs
  · rfl
  · exact topUpLoop_eq_foldl (Nat.sub_le _ _)

variable [DecidableEq κ]

/-- A reservation takes the smallest free number with its key, and does not throw. -/
theorem reserveKeyFromKeyPool_of_known (newKey : ℕ → κ) (nKeypool : ℕ) (h : s.Known) :
    ((s.ready newKey nKeypool).setKeyPool.min? = none ∧
      s.reserveKeyFromKeyPool newKey nKeypool = (.ok none,s.ready newKey nKeypool)) ∨
    ∃ i k, i ∈ (s.ready newKey nKeypool).setKeyPool ∧ (s.ready newKey nKeypool).pool[i]? = some k ∧
      s.reserveKeyFromKeyPool newKey nKeypool = (.ok (some (i,k)),
        { s.ready newKey nKeypool with setKeyPool := (s.ready newKey nKeypool).setKeyPool.erase i
          }) := by
  have hready : (if s.fLocked then s else (s.topUpKeyPool newKey nKeypool 0).2) = s.ready newKey nKeypool := by
    rw [topUpKeyPool_eq,ready]
    split_ifs <;> rfl
  have hknown : (s.ready newKey nKeypool).Known := h.foldl_file _
  unfold reserveKeyFromKeyPool
  simp only [hready,← Std.ExtTreeSet.min?_eq_head?_toList]
  cases hmin : (s.ready newKey nKeypool).setKeyPool.min? with
  | none => exact .inl ⟨rfl,rfl⟩
  | some i =>
    have hmem := Std.ExtTreeSet.min?_mem hmin
    obtain ⟨k,hk,hpool⟩ := hknown i hmem
    refine .inr ⟨i,k,hmem,hpool,?_⟩
    simp only [hpool,hk,if_true]

end KeyPool

variable {κ : Type} {newKey : ℕ → κ} {nKeypool : ℕ} {s : KeyPoolRun κ} {c : KeyPoolCall}

namespace KeyPoolRun

/-- Every record is the one of a free number or of a reservation, with a key of its own. -/
structure Good (newKey : ℕ → κ) (s : KeyPoolRun κ) : Prop where
  recorded : ∀ i ∈ s.wallet.setKeyPool, ∃ k, s.wallet.pool[i]? = some k
  held : ∀ x ∈ s.reserved, s.wallet.pool[x.1]? = some x.2 ∧ x.1 ∉ s.wallet.setKeyPool
  places : (s.reserved.map Prod.fst).Nodup
  inj : ∀ (i j : ℕ) (k : κ), s.wallet.pool[i]? = some k → s.wallet.pool[j]? = some k → i = j
  known : ∀ (i : ℕ) (k : κ), s.wallet.pool[i]? = some k → k ∈ s.wallet.keys ∧ k ∉ s.kept
  keptKnown : ∀ k ∈ s.kept, k ∈ s.wallet.keys
  generated : s.wallet.keys = (List.range s.wallet.keys.length).map newKey

theorem good_empty : Good newKey {} where
  recorded := by simp
  held := by simp
  places := by simp
  inj := by simp
  known := by simp
  keptKnown := by simp
  generated := by simp

theorem Good.poolKnown (h : Good newKey s) : s.wallet.Known := fun i hi =>
  (h.recorded i hi).imp fun k hk => ⟨(h.known i k hk).1,hk⟩

theorem Good.newKey_notMem (h : Good newKey s) (hnew : Function.Injective newKey) :
    newKey s.wallet.keys.length ∉ s.wallet.keys := by
  intro hmem
  rw [h.generated,mem_map] at hmem
  obtain ⟨n,hn,heq⟩ := hmem
  rw [hnew heq,length_map,length_range,mem_range] at hn
  exact lt_irrefl _ hn

theorem Good.file (hnew : Function.Injective newKey) (h : Good newKey s) {n}
    (hn : n ∉ s.reserved.map Prod.fst) :
    Good newKey { s with wallet := s.wallet.file newKey n } := by
  have hfresh := h.newKey_notMem hnew
  have hne : ∀ x ∈ s.reserved, n ≠ x.1 := fun x hx heq => hn (mem_map.mpr ⟨x,hx,heq.symm⟩)
  have hpool : ∀ (i : ℕ) (k : κ), (s.wallet.file newKey n).pool[i]? = some k →
      (i = n ∧ k = newKey s.wallet.keys.length) ∨ (s.wallet.pool[i]? = some k ∧ k ∈ s.wallet.keys) := by
    intro i k hk
    rw [KeyPool.getElem?_file] at hk
    split_ifs at hk with hi
    · exact .inl ⟨hi.symm,(Option.some.inj hk).symm⟩
    · exact .inr ⟨hk,(h.known i k hk).1⟩
  refine ⟨fun i hi => ?_,fun x hx => ⟨?_,?_⟩,h.places,fun i j k hi hj => ?_,fun i k hk => ?_,fun k hk => ?_,?_⟩
  · obtain ⟨k,-,hk⟩ := h.poolKnown.file n i hi
    exact ⟨k,hk⟩
  · rw [KeyPool.getElem?_file,if_neg (hne x hx)]
    exact (h.held x hx).1
  · rw [KeyPool.mem_file,not_or]
    exact ⟨(hne x hx).symm,(h.held x hx).2⟩
  · rcases hpool i k hi with ⟨rfl,rfl⟩ | ⟨hi,hik⟩ <;> rcases hpool j _ hj with ⟨rfl,heq⟩ | ⟨hj,hjk⟩
    · rfl
    · exact absurd hjk hfresh
    · exact absurd (heq ▸ hik) hfresh
    · exact h.inj i j k hi hj
  · rcases hpool i k hk with ⟨-,rfl⟩ | ⟨hk,hmem⟩
    · exact ⟨by simp [KeyPool.file],fun hkept => hfresh (h.keptKnown _ hkept)⟩
    · exact ⟨by simp [KeyPool.file,hmem],(h.known i k hk).2⟩
  · simp [KeyPool.file,h.keptKnown k hk]
  · simp only [KeyPool.file,length_append,length_singleton,range_succ,map_append,map_singleton]
    rw [← h.generated]

theorem Good.foldl_file (hnew : Function.Injective newKey) (l : List ℕ) (h : Good newKey s)
    (hl : ∀ n ∈ l, n ∉ s.reserved.map Prod.fst) :
    Good newKey { s with wallet := l.foldl (KeyPool.file newKey) s.wallet } := by
  induction l generalizing s with
  | nil => exact h
  | cons n l ih =>
    rw [forall_mem_cons] at hl
    exact ih (h.file hnew hl.1) hl.2

theorem Good.clear (h : Good newKey s) : Good newKey { s with wallet := { s.wallet with
      pool := s.wallet.setKeyPool.toList.foldl (fun p nIndex => p.erase nIndex) s.wallet.pool
      setKeyPool := ∅ } } := by
  have hpool : ∀ (i : ℕ) (k : κ), (s.wallet.setKeyPool.toList.foldl (fun p nIndex => p.erase nIndex)
      s.wallet.pool)[i]? =
      some k → s.wallet.pool[i]? = some k := by
    intro i k hk
    rw [KeyPool.getElem?_foldl_erase] at hk
    split_ifs at hk
    exact hk
  refine ⟨by simp,fun x hx => ⟨?_,by simp⟩,h.places,fun i j k hi hj => ?_,fun i k hk => ?_,h.keptKnown,h.generated⟩
  · rw [KeyPool.getElem?_foldl_erase,if_neg]
    · exact (h.held x hx).1
    · rw [Std.ExtTreeSet.mem_toList]
      exact (h.held x hx).2
  · exact h.inj i j k (hpool i k hi) (hpool j k hj)
  · exact h.known i k (hpool i k hk)

theorem Good.take (h : Good newKey s) {i k} (hi : i ∈ s.wallet.setKeyPool)
    (hk : s.wallet.pool[i]? = some k) :
    Good newKey { s with
      wallet := { s.wallet with setKeyPool := s.wallet.setKeyPool.erase i }
      reserved := s.reserved++[(i,k)] } := by
  have hnot : i ∉ s.reserved.map Prod.fst := by
    intro hmem
    obtain ⟨x,hx,rfl⟩ := mem_map.mp hmem
    exact (h.held x hx).2 hi
  refine ⟨fun j hj => ?_,fun x hx => ?_,?_,h.inj,h.known,h.keptKnown,h.generated⟩
  · exact h.recorded j (Std.ExtTreeSet.mem_of_mem_erase hj)
  · rcases mem_append.mp hx with hx | hx
    · exact ⟨(h.held x hx).1,fun hmem => (h.held x hx).2 (Std.ExtTreeSet.mem_of_mem_erase hmem)⟩
    · obtain rfl := mem_singleton.mp hx
      exact ⟨hk,by simp⟩
  · rw [map_append,nodup_append]
    refine ⟨h.places,by simp,fun a ha b hb => ?_⟩
    obtain rfl : b = i := by simpa using hb
    exact fun heq => hnot (heq ▸ ha)

variable {l : List (ℕ × κ)} {j : ℕ} {x y : ℕ × κ}

theorem mem_eraseIdx_ne (hl : (l.map Prod.fst).Nodup) (hx : l[j]? = some x)
    (hy : y ∈ l.eraseIdx j) : y ∈ l ∧ y.1 ≠ x.1 := by
  obtain ⟨n,hn,hget⟩ := mem_eraseIdx_iff_getElem?.mp hy
  refine ⟨mem_of_getElem? hget,fun heq => hn ?_⟩
  have hx' : (l.map Prod.fst)[j]? = some x.1 := by simp [hx]
  have hy' : (l.map Prod.fst)[n]? = some x.1 := by simp [hget,heq]
  exact (getElem?_inj (List.getElem?_eq_some_iff.mp hy').1 hl).mp (hy'.trans hx'.symm)

theorem Good.keep (h : Good newKey s) (hx : s.reserved[j]? = some x) :
    Good newKey ⟨s.wallet.keepKey x.1,s.reserved.eraseIdx j,s.kept++[x.2]⟩ := by
  have hheld := h.held x (mem_of_getElem? hx)
  have hpool : ∀ (i : ℕ) (k : κ), (s.wallet.keepKey x.1).pool[i]? = some k →
      x.1 ≠ i ∧ s.wallet.pool[i]? = some k := by
    intro i k hk
    rw [KeyPool.keepKey,ExtTreeMap.getElem?_erase] at hk
    split_ifs at hk with hi
    exact ⟨by simpa using hi,hk⟩
  have hkeep : ∀ i : ℕ, x.1 ≠ i → (s.wallet.keepKey x.1).pool[i]? = s.wallet.pool[i]? := by
    intro i hi
    simp [KeyPool.keepKey,ExtTreeMap.getElem?_erase,hi]
  refine ⟨fun i hi => ?_,fun y hy => ?_,?_,fun i j k hi hj => ?_,fun i k hk => ⟨?_,?_⟩,
    fun k hk => ?_,h.generated⟩
  · obtain ⟨k,hk⟩ := h.recorded i hi
    exact ⟨k,by rw [hkeep i fun heq => hheld.2 (heq ▸ hi)]; exact hk⟩
  · obtain ⟨hmem,hne⟩ := mem_eraseIdx_ne h.places hx hy
    exact ⟨by rw [hkeep _ hne.symm]; exact (h.held y hmem).1,(h.held y hmem).2⟩
  · rw [← eraseIdx_map]
    exact h.places.eraseIdx j
  · exact h.inj i j k (hpool i k hi).2 (hpool j k hj).2
  · exact (h.known i k (hpool i k hk).2).1
  · obtain ⟨hne,hk⟩ := hpool i k hk
    rw [mem_append,mem_singleton,not_or]
    refine ⟨(h.known i k hk).2,?_⟩
    rintro rfl
    exact hne (h.inj _ _ _ hheld.1 hk)
  · rcases mem_append.mp hk with hk | hk
    · exact h.keptKnown k hk
    · rw [mem_singleton.mp hk]
      exact (h.known _ _ hheld.1).1

theorem Good.giveBack (h : Good newKey s) (hx : s.reserved[j]? = some x) :
    Good newKey { s with wallet := s.wallet.returnKey x.1, reserved := s.reserved.eraseIdx j } := by
  have hheld := h.held x (mem_of_getElem? hx)
  refine ⟨fun i hi => ?_,fun y hy => ?_,?_,h.inj,h.known,h.keptKnown,h.generated⟩
  · simp only [KeyPool.returnKey,Std.ExtTreeSet.mem_insert,Nat.compare_eq_eq] at hi
    rcases hi with rfl | hi
    · exact ⟨x.2,hheld.1⟩
    · exact h.recorded i hi
  · obtain ⟨hmem,hne⟩ := mem_eraseIdx_ne h.places hx hy
    refine ⟨(h.held y hmem).1,?_⟩
    simp only [KeyPool.returnKey,Std.ExtTreeSet.mem_insert,Nat.compare_eq_eq,not_or]
    exact ⟨hne.symm,(h.held y hmem).2⟩
  · rw [← eraseIdx_map]
    exact h.places.eraseIdx j

variable [DecidableEq κ]

theorem Good.safe (h : Good newKey s) : s.Safe newKey nKeypool where
  distinct := by
    refine Nodup.map_on (fun x hx y hy hxy => ?_) h.places.of_map
    have hplace : x.1 = y.1 := h.inj x.1 y.1 x.2 (h.held x hx).1 (by rw [hxy]; exact (h.held y hy).1)
    exact inj_on_of_nodup_map h.places hx hy hplace
  unkept := by
    intro k hk
    obtain ⟨x,hx,rfl⟩ := mem_map.mp hk
    exact (h.known _ _ (h.held x hx).1).2
  recorded := fun i hi => Option.isSome_iff_exists.mpr (h.recorded i hi)
  reserves := by
    rcases KeyPool.reserveKeyFromKeyPool_of_known newKey nKeypool h.poolKnown with
      ⟨-,hr⟩ | ⟨i,k,-,-,hr⟩
    · exact ⟨_,by rw [hr]⟩
    · exact ⟨_,by rw [hr]⟩

open KeyPoolRun

/-- Calls that file no key under the number of a reservation keep the invariant. -/
theorem Good.call (hnew : Function.Injective newKey) (h : Good newKey s)
    (hc : s.Unreserved nKeypool c) :
    Good newKey (s.call newKey nKeypool c) := by
  cases c with
  | topUpKeyPool nSize =>
    have hfold := h.foldl_file hnew _ hc
    rwa [newIndices,← KeyPool.topUpKeyPool_eq] at hfold
  | newKeyPool =>
    simp only [call,KeyPool.newKeyPool]
    split_ifs with hl
    · exact h.clear
    · refine h.clear.foldl_file hnew _ ?_
      simpa [Unreserved,newIndices,hl] using hc
  | reserveKeyFromKeyPool =>
    have hready : Good newKey { s with wallet := s.wallet.ready newKey nKeypool } := h.foldl_file hnew _ hc
    rcases KeyPool.reserveKeyFromKeyPool_of_known newKey nKeypool h.poolKnown with
      ⟨-,hr⟩ | ⟨i,k,hi,hk,hr⟩
    · simp only [call,hr]
      exact hready
    · simp only [call,hr]
      exact hready.take hi hk
  | keepKey j =>
    cases hx : s.reserved[j]? with
    | none => simpa only [call,hx] using h
    | some x => simpa only [call,hx] using h.keep hx
  | returnKey j =>
    cases hx : s.reserved[j]? with
    | none => simpa only [call,hx] using h
    | some x => simpa only [call,hx] using h.giveBack hx
  | lock => exact ⟨h.recorded,h.held,h.places,h.inj,h.known,h.keptKnown,h.generated⟩
  | unlock => exact ⟨h.recorded,h.held,h.places,h.inj,h.known,h.keptKnown,h.generated⟩

theorem Good.settle (hnew : Function.Injective newKey) (settle : List KeyPoolCall)
    (h : Good newKey s)
    (hs : ∀ c ∈ settle, c.settles) :
    Good newKey (settle.foldl (KeyPoolRun.call newKey nKeypool) s) := by
  induction settle generalizing s with
  | nil => exact h
  | cons c settle ih =>
    rw [forall_mem_cons] at hs
    refine ih (h.call hnew ?_) hs.2
    cases c with
    | keepKey j => exact fun i hi => absurd hi not_mem_nil
    | returnKey j => exact fun i hi => absurd hi not_mem_nil
    | _ => simp [KeyPoolCall.settles] at hs

theorem not_safe_keep (hx : s.reserved[j]? = some x) (hfree : x.1 ∈ s.wallet.setKeyPool) :
    ¬ (s.call newKey nKeypool (.keepKey j)).Safe newKey nKeypool := by
  intro hsafe
  have hrec := hsafe.recorded x.1 (by simpa only [call,hx,KeyPool.keepKey] using hfree)
  simp [call,hx,KeyPool.keepKey] at hrec

/-- Two reservations with one number: one takes the record, the other frees the number. -/
theorem not_safe_keep_return (hs : s.reserved = l++[y]) (hx : l[j]? = some x)
    (hxy : x.1 = y.1) :
    ¬ ((s.call newKey nKeypool (.keepKey j)).call newKey nKeypool (.returnKey (l.length-1))).Safe
      newKey nKeypool := by
  intro hsafe
  have hj := (List.getElem?_eq_some_iff.mp hx).1
  have hx' : s.reserved[j]? = some x := by rw [hs,getElem?_append_left hj,hx]
  have hkept : s.call newKey nKeypool (.keepKey j) = ⟨s.wallet.keepKey x.1,l.eraseIdx j++[y],s.kept++[x.2]⟩ := by
    simp only [call,hx']
    rw [hs,eraseIdx_append_of_lt_length hj]
  have hlast : (l.eraseIdx j++[y])[l.length-1]? = some y := by
    rw [getElem?_append_right (by rw [length_eraseIdx_of_lt hj])]
    simp [length_eraseIdx_of_lt hj]
  rw [hkept] at hsafe
  simp only [call,hlast] at hsafe
  have hrec := hsafe.recorded y.1 (by simp [KeyPool.returnKey])
  simp [KeyPool.returnKey,KeyPool.keepKey,hxy] at hrec

/-- A key filed under the number of a reservation is missing in the end, if the holders
settle their reservations in some way. -/
theorem Good.exists_unsafe (h : Good newKey s) (hc : ¬ s.Unreserved nKeypool c) :
    ∃ settle : List KeyPoolCall, (∀ c ∈ settle, c.settles) ∧
      ¬ (settle.foldl (KeyPoolRun.call newKey nKeypool) (s.call newKey nKeypool c)).Safe newKey
        nKeypool := by
  unfold Unreserved at hc
  push Not at hc
  obtain ⟨i,hi,hres⟩ := hc
  obtain ⟨x,hx,rfl⟩ := mem_map.mp hres
  obtain ⟨j,hj⟩ := getElem?_of_mem hx
  cases c with
  | topUpKeyPool nSize =>
    refine ⟨[.keepKey j],by simp [KeyPoolCall.settles],not_safe_keep (by simpa only [KeyPoolRun.call] using hj) ?_⟩
    simp only [KeyPoolRun.call,KeyPool.topUpKeyPool_eq]
    exact (KeyPool.mem_foldl_file _ _).mpr (.inl hi)
  | newKeyPool =>
    have hl : s.wallet.fLocked = false := by
      by_contra hl
      simp [newIndices,hl] at hi
    refine ⟨[.keepKey j],by simp [KeyPoolCall.settles],not_safe_keep (by simpa only [KeyPoolRun.call] using hj) ?_⟩
    simp only [newIndices,hl] at hi
    simp only [KeyPoolRun.call,KeyPool.newKeyPool,hl]
    exact (KeyPool.mem_foldl_file _ _).mpr (.inl hi)
  | reserveKeyFromKeyPool =>
    have hfree : x.1 ∈ (s.wallet.ready newKey nKeypool).setKeyPool := (KeyPool.mem_foldl_file _ _).mpr (.inl hi)
    rcases KeyPool.reserveKeyFromKeyPool_of_known newKey nKeypool h.poolKnown with
      ⟨hmin,-⟩ | ⟨m,k,-,-,hr⟩
    · rw [Std.ExtTreeSet.min?_eq_none_iff.mp hmin] at hfree
      exact absurd hfree Std.ExtTreeSet.not_mem_empty
    · have hj' := (List.getElem?_eq_some_iff.mp hj).1
      by_cases hm : m = x.1
      · refine ⟨[.keepKey j,.returnKey (s.reserved.length-1)],by simp [KeyPoolCall.settles],?_⟩
        exact not_safe_keep_return (l := s.reserved) (y := (m,k)) (by simp only [KeyPoolRun.call,hr]) hj hm.symm
      · refine ⟨[.keepKey j],by simp [KeyPoolCall.settles],not_safe_keep (x := x) ?_ ?_⟩
        · simp only [KeyPoolRun.call,hr,getElem?_append_left hj',hj]
        · simp only [KeyPoolRun.call,hr,Std.ExtTreeSet.mem_erase]
          exact ⟨by simpa using hm,hfree⟩
  | _ => simp [newIndices] at hi

end KeyPoolRun

/-- However the holders settle their reservations after any of the calls, the pool is safe:
exactly if no call files a new key under the number of an outstanding reservation. -/
theorem keyPool_safe_iff {κ : Type} [DecidableEq κ] {newKey : ℕ → κ}
    (hnew : Function.Injective newKey) (nKeypool : ℕ) (cs : List KeyPoolCall) :
    (∀ cs₁, cs₁ <+: cs → ∀ settle : List KeyPoolCall, (∀ c ∈ settle, c.settles) →
      ((cs₁++settle).foldl (KeyPoolRun.call newKey nKeypool) {}).Safe newKey nKeypool) ↔
    Runs.Always (KeyPoolRun.call newKey nKeypool) (KeyPoolRun.Unreserved nKeypool) {} cs := by
  induction cs using List.reverseRecOn with
  | nil =>
    refine ⟨fun _ => trivial,fun _ cs₁ hpre settle hs => ?_⟩
    rw [prefix_nil.mp hpre]
    exact (KeyPoolRun.good_empty.settle hnew settle hs).safe
  | append_singleton cs c ih =>
    rw [Runs.always_concat,← ih]
    constructor
    · intro hsafe
      have hcs := fun cs₁ (hpre : cs₁ <+: cs) => hsafe cs₁ (hpre.trans (prefix_append cs [c]))
      refine ⟨hcs,?_⟩
      by_contra hun
      have hgood := (ih.mp hcs).invariant (I := KeyPoolRun.Good newKey) (fun s m hs hm => hs.call hnew hm)
        KeyPoolRun.good_empty
      obtain ⟨settle,hs,hfails⟩ := hgood.exists_unsafe hun
      have hlast := hsafe (cs++[c]) prefix_rfl settle hs
      rw [foldl_append,foldl_concat] at hlast
      exact hfails hlast
    · rintro ⟨hcs,hc⟩ cs₁ hpre settle hs
      rcases prefix_concat_iff.mp hpre with rfl | hpre
      · have hgood := (ih.mp hcs).invariant (I := KeyPoolRun.Good newKey) (fun s m hs hm => hs.call hnew hm)
          KeyPoolRun.good_empty
        rw [foldl_append,foldl_concat]
        exact ((hgood.call hnew hc).settle hnew settle hs).safe
      · exact hcs cs₁ hpre settle hs

theorem keyPool_safe_iff_two : Runs.Always (KeyPoolRun.call id 2) (KeyPoolRun.Unreserved 2) {}
      [.reserveKeyFromKeyPool,.reserveKeyFromKeyPool,.keepKey 1,.returnKey 0,.newKeyPool,
        .reserveKeyFromKeyPool] ∧
    ([.reserveKeyFromKeyPool,.reserveKeyFromKeyPool,.keepKey 1,.returnKey 0,.newKeyPool,
      .reserveKeyFromKeyPool].foldl
      (KeyPoolRun.call id 2) {}).Safe id 2 := by
  have hrun : Runs.Always (KeyPoolRun.call id 2) (KeyPoolRun.Unreserved 2) {}
      [.reserveKeyFromKeyPool,.reserveKeyFromKeyPool,.keepKey 1,.returnKey 0,.newKeyPool,.reserveKeyFromKeyPool] := by
    decide +kernel
  have hsafe := (keyPool_safe_iff Function.injective_id 2 _).mpr hrun _ prefix_rfl [] (by simp)
  rw [append_nil] at hsafe
  exact ⟨hrun,hsafe⟩

/-- With an empty pool allowed, two reservations get the number 1 one after the other; the
first is given back, and the key of the second is reserved again. In a locked wallet this
happens to a larger pool as well. And if the first is kept, reserving throws. -/
theorem key_reserved_twice :
    ([.reserveKeyFromKeyPool,.reserveKeyFromKeyPool,.returnKey 0,.reserveKeyFromKeyPool].foldl
      (KeyPoolRun.call id 0) {}).reserved = [(1,1),(1,1)] ∧
    ([.topUpKeyPool 0,.lock,.reserveKeyFromKeyPool,.reserveKeyFromKeyPool,.unlock,
      .reserveKeyFromKeyPool,.returnKey 0,
      .reserveKeyFromKeyPool].foldl (KeyPoolRun.call id 1) {}).reserved = [(2,1),(1,2),(1,2)] ∧
    (([.reserveKeyFromKeyPool,.reserveKeyFromKeyPool,.keepKey 0,.returnKey 0].foldl
      (KeyPoolRun.call id 0)
      {}).wallet.reserveKeyFromKeyPool id 0).1 =
        .error "ReserveKeyFromKeyPool() : read failed" := by
  decide +kernel

end DarkSilk
