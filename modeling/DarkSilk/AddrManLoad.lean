import DarkSilk.AddrManFile

/-! What reading a file makes of an address manager. Entries and slots are put in place one
by one over what the manager held before; the manager is the written one up to the numbers
of the entries exactly if nothing of its former entries shows through. -/
namespace DarkSilk

open SlotTable MapSum Function
open Option hiding map_map mem_map
open List hiding getElem?_modify
open Stormnode (CService)

namespace AddrMan

section

variable {α β : Type} {L : List α} {a : α} {k : ℤ}

/-- Entries are read under the numbers from zero on. -/
def entryAt (L : List α) (k : ℤ) : Option α := if 0 ≤ k then L[k.toNat]? else none

theorem entryAt_natCast (L : List α) (n : ℕ) : entryAt L n = L[n]? := if_pos (Int.natCast_nonneg n)

theorem entryAt_eq_some : entryAt L k = some a ↔ ∃ n : ℕ, k = n ∧ L[n]? = some a := by
  constructor
  · intro h
    unfold entryAt at h
    split_ifs at h with hk
    exact ⟨k.toNat,(Int.toNat_of_nonneg hk).symm,h⟩
  · rintro ⟨n,rfl,h⟩
    rw [entryAt_natCast,h]

theorem entryAt_eq_none : entryAt L k = none ↔ ¬ (0 ≤ k ∧ k < L.length) := by
  unfold entryAt
  split_ifs with hk
  · rw [getElem?_eq_none_iff]
    omega
  · simp [hk]

theorem mem_of_entryAt (h : entryAt L k = some a) : a ∈ L := by
  obtain ⟨n,-,hn⟩ := entryAt_eq_some.mp h
  exact mem_of_getElem? hn

theorem lt_of_entryAt (h : entryAt L k = some a) : 0 ≤ k ∧ k < L.length := by
  by_contra hk
  rw [entryAt_eq_none.mpr hk] at h
  cases h

theorem exists_entryAt (h : a ∈ L) : ∃ k, entryAt L k = some a := by
  obtain ⟨n,hn⟩ := mem_iff_getElem?.mp h
  exact ⟨n,(entryAt_natCast L n).trans hn⟩

theorem entryAt_map (f : α → β) (L : List α) (k) : entryAt (L.map f) k = (entryAt L k).map f := by
  unfold entryAt
  split_ifs
  · exact getElem?_map
  · rfl

theorem entryAt_append (L L' : List α) (k) :
    entryAt (L++L') k = if k < L.length then entryAt L k else entryAt L' (k-L.length) := by
  unfold entryAt
  grind

theorem entryAt_concat (L : List α) (a k) :
    entryAt (L++[a]) k = if (L.length : ℤ) = k then some a else entryAt L k := by
  unfold entryAt
  grind

end

variable {P : Params} {B s A V : CAddrMan} {d : Dump} {idx : ℤ → Int32} {k : ℤ} {e : ℤ × CAddrInfo}

variable {L : List CAddrInfo} {mem : ℤ → CAddrInfo → CAddrInfo}

/-- The entries of a list were read, each with its number and what the memory adds to it. -/
structure Loaded (B : CAddrMan) (mem : ℤ → CAddrInfo → CAddrInfo) (L : List CAddrInfo)
    (s : CAddrMan) : Prop where
  mapInfo : ∀ k : ℤ, s.mapInfo[k]? = match entryAt L k with
    | some info => some (mem k info)
    | none => B.mapInfo[k]?
  addr : ∀ (k : ℤ) info, entryAt L k = some info → s.mapAddr[info.ip]? = some k
  others : ∀ a : CNetAddr, (∀ info ∈ L, info.ip ≠ a) → s.mapAddr[a]? = B.mapAddr[a]?
  vRandom : s.vRandom = (List.range L.length).map Nat.cast

variable {info : CAddrInfo} {n : ℕ} {T : List CAddrInfo}

theorem Loaded.append (h : Loaded B mem L s) (hip : ∀ i ∈ L, i.ip ≠ info.ip) {t}
    (hinfo : t.mapInfo = s.mapInfo.insert L.length (mem L.length info))
    (haddr : t.mapAddr = s.mapAddr.insert info.ip L.length)
    (hrandom : t.vRandom = s.vRandom++[(L.length : ℤ)]) :
    Loaded B mem (L++[info]) t where
  mapInfo := by
    intro k
    rw [hinfo,getElem?_insert_eq,entryAt_concat]
    split_ifs with hk
    · rw [hk]
    · exact h.mapInfo k
  addr := by
    intro k i hi
    rw [haddr,getElem?_insert_eq]
    rw [entryAt_concat] at hi
    split_ifs at hi with hk
    · rw [← some.inj hi,if_pos rfl,hk]
    · rw [if_neg (hip i (mem_of_entryAt hi)).symm,h.addr k i hi]
  others := by
    intro a ha
    rw [haddr,getElem?_insert_eq,if_neg (ha info (by simp)),h.others a fun i hi => ha i (mem_append_left _ hi)]
  vRandom := by
    rw [hrandom,h.vRandom,length_append,length_singleton,range_succ,map_append]
    rfl

def keptOf (B : CAddrMan) (n : ℕ) (k : ℤ) (info : CAddrInfo) : CAddrInfo :=
  if k < n then
    let old := (B.mapInfo[k]?).getD .blank
    { info with nRefCount := old.nRefCount, fInTried := old.fInTried, nRandomPos := k.toNat }
  else { info with nRandomPos := k.toNat, fInTried := true }

structure SameRest (s t : CAddrMan) : Prop where
  nKey : t.nKey = s.nKey
  nTried : t.nTried = s.nTried
  nNew : t.nNew = s.nNew
  vvNew : t.vvNew = s.vvNew

open CAddrMan

theorem loadNew_usable (e : CAddrInfo × ℕ) :
    loadNew P true s e = { s with
      mapInfo := s.mapInfo.insert e.2 { e.1 with
        nRefCount := ((s.mapInfo[(e.2 : ℤ)]?).getD .blank).nRefCount
        fInTried := ((s.mapInfo[(e.2 : ℤ)]?).getD .blank).fInTried
        nRandomPos := s.vRandom.length }
      mapAddr := s.mapAddr.insert e.1.ip e.2
      vRandom := s.vRandom++[(e.2 : ℤ)] } := by
  simp only [loadNew,Bool.not_true,Bool.false_and,Bool.false_eq_true,if_false]

theorem loadNew_foldl (L) (hips : (L.map fun i => i.ip).Nodup) (hB : s.mapInfo = B.mapInfo)
    (hA : s.mapAddr = B.mapAddr) (hR : s.vRandom = []) (hn : L.length ≤ n) :
    Loaded B (keptOf B n) L (L.zipIdx.foldl (loadNew P true) s) ∧
      SameRest s (L.zipIdx.foldl (loadNew P true) s) ∧
      (L.zipIdx.foldl (loadNew P true) s).vvTried = s.vvTried := by
  induction L using reverseRecOn with
  | nil =>
    refine ⟨⟨fun k => ?_,fun k i h => ?_,fun a _ => congrArg (·[a]?) hA,hR⟩,⟨rfl,rfl,rfl,rfl⟩,rfl⟩
    · rw [entryAt_eq_none.mpr (by simp)]
      exact congrArg (·[k]?) hB
    · cases mem_of_entryAt h
  | append_singleton L info ih =>
    rw [map_append,nodup_append] at hips
    rw [length_append,length_singleton] at hn
    obtain ⟨hL,hrest,htried⟩ := ih hips.1 (by omega)
    rw [zipIdx_append,foldl_append]
    generalize L.zipIdx.foldl (loadNew P true) s = t at hL hrest htried
    rw [zero_add,zipIdx_singleton,foldl_cons,foldl_nil,loadNew_usable]
    have hold : t.mapInfo[(L.length : ℤ)]? = B.mapInfo[(L.length : ℤ)]? := by
      rw [hL.mapInfo,entryAt_natCast,getElem?_eq_none le_rfl]
    have hlen : t.vRandom.length = L.length := by rw [hL.vRandom,length_map,length_range]
    refine ⟨hL.append ?_ ?_ rfl rfl,⟨hrest.nKey,hrest.nTried,hrest.nNew,hrest.vvNew⟩,htried⟩
    · intro i hi heq
      exact hips.2.2 i.ip (mem_map_of_mem hi) info.ip (by simp) heq
    · rw [hold,hlen,keptOf,if_pos (by omega),Int.toNat_natCast]

structure TriedBy (P : Params) (nKey : UInt256) (n : ℕ) (T : List CAddrInfo)
    (vvTried : TriedSlot → Option ℤ) :
    Prop where
  slot : ∀ (k : ℤ) info, entryAt T k = some info → vvTried (triedSlot P nKey info.toCService) = some (n+k)
  others : ∀ x, (∀ info ∈ T, triedSlot P nKey info.toCService ≠ x) → vvTried x = none

theorem TriedBy.append {nKey t} (h : TriedBy P nKey n T t)
    (hx : ∀ i ∈ T, triedSlot P nKey i.toCService ≠ triedSlot P nKey info.toCService) :
    TriedBy P nKey n (T++[info]) (update t (triedSlot P nKey info.toCService) (some (n+T.length)))
      where
  slot := by
    intro k i hi
    rw [entryAt_concat] at hi
    split_ifs at hi with hk
    · rw [← some.inj hi,update_self,hk]
    · rw [update_of_ne (hx i (mem_of_entryAt hi)),h.slot k i hi]
  others := by
    intro x hne
    rw [update_of_ne (hne info (by simp)).symm]
    exact h.others x fun i hi => hne i (mem_append_left _ hi)

theorem loadTried_foldl {N} (hips : ((N++T).map fun i => i.ip).Nodup)
    (hslots : (T.map fun i => triedSlot P s.nKey i.toCService).Nodup)
    (hN : Loaded B (keptOf B N.length) N s)
    (hnone : ∀ x, s.vvTried x = none) (hcount : s.nIdCount = N.length)
    (hfits : N.length+T.length < 2^31) :
    ∃ t, T.foldl (loadTried P) (s,0) = (t,0) ∧ Loaded B (keptOf B N.length) (N++T) t ∧
      SameRest s t ∧
      t.nIdCount = N.length+T.length ∧ TriedBy P s.nKey N.length T t.vvTried := by
  induction T using reverseRecOn with
  | nil =>
    refine ⟨s,rfl,by rwa [append_nil],⟨rfl,rfl,rfl,rfl⟩,by simpa using hcount,fun k i h => ?_,fun x _ => hnone x⟩
    cases mem_of_entryAt h
  | append_singleton T info ih =>
    rw [← append_assoc,map_append,nodup_append] at hips
    rw [map_append,nodup_append] at hslots
    rw [length_append,length_singleton] at hfits
    obtain ⟨t,ht,hL,hrest,hid,htried⟩ := ih hips.1 hslots.1 (by omega)
    have hne : ∀ i ∈ T, triedSlot P s.nKey i.toCService ≠ triedSlot P s.nKey info.toCService := by
      intro i hi heq
      exact hslots.2.2 _ (mem_map_of_mem hi) _ (by simp) heq
    have hfree : t.vvTried (triedSlot P t.nKey info.toCService) = none := by
      rw [hrest.nKey]
      exact htried.others _ hne
    have hlen : t.vRandom.length = (N++T).length := by rw [hL.vRandom,length_map,length_range]
    have hid' : t.nIdCount = (N++T).length := by rw [hid,length_append,Nat.cast_add]
    rw [foldl_append,ht,foldl_cons,foldl_nil,loadTried]
    rw [if_pos hfree]
    refine ⟨_,rfl,?_,⟨hrest.nKey,hrest.nTried,hrest.nNew,hrest.vvNew⟩,?_,?_⟩
    · rw [← append_assoc]
      refine hL.append ?_ ?_ ?_ ?_
      · intro i hi heq
        exact hips.2.2 i.ip (mem_map_of_mem hi) info.ip (by simp) heq
      · dsimp only
        rw [hid',hlen,keptOf,if_neg (by simp),Int.toNat_natCast]
      · dsimp only
        rw [hid']
      · dsimp only
        rw [hid']
    · dsimp only
      rw [nextId_of_fits (by omega) (by omega),hid,length_append,length_singleton]
      omega
    · dsimp only
      rw [slotMark_of_nonneg (by omega),hid,hrest.nKey]
      exact htried.append hne

def CAddrMan.entries (A : CAddrMan) : List (ℤ × CAddrInfo) := A.newEntries++A.triedEntries

theorem entries_perm : A.entries.Perm A.mapInfo.toList := by
  have h := filter_append_perm (fun e : ℤ × CAddrInfo => !e.2.fInTried) A.mapInfo.toList
  simp only [Bool.not_not] at h
  exact h

theorem mem_entries {nId} : (nId,info) ∈ A.entries ↔ A.mapInfo[nId]? = some info := by
  rw [entries_perm.mem_iff,Std.ExtTreeMap.mem_toList_iff_getElem?_eq_some]

theorem nodup_entries : A.entries.Nodup := entries_perm.nodup_iff.mpr (nodup_toList A.mapInfo)

theorem getElem?_of_entryAt (h : entryAt A.entries k = some e) : A.mapInfo[e.1]? = some e.2 :=
  mem_entries.mp (mem_of_entryAt h)

theorem CAddrMan.Consistent.nodup_ips (h : A.Consistent P) :
    (A.entries.map fun e => e.2.ip).Nodup := by
  refine Nodup.map_on ?_ nodup_entries
  rintro ⟨nId,info⟩ he ⟨nId',info'⟩ he' heq
  have hi := mem_entries.mp he
  have hi' := mem_entries.mp he'
  have ha := (h.indexes.addr info.ip nId).mpr ⟨info,hi,rfl⟩
  rw [(h.indexes.addr info.ip nId').mpr ⟨info',hi',heq.symm⟩] at ha
  cases ha
  rw [hi] at hi'
  rw [some.inj hi']

theorem CAddrMan.Consistent.nodup_slots (h : A.Consistent P) :
    (A.triedEntries.map fun e => triedSlot P A.nKey e.2.toCService).Nodup := by
  refine Nodup.map_on ?_ ((nodup_toList A.mapInfo).filter _)
  rintro ⟨nId,info⟩ he ⟨nId',info'⟩ he' heq
  obtain ⟨hi,htried⟩ := mem_triedEntries.mp he
  obtain ⟨hi',htried'⟩ := mem_triedEntries.mp he'
  have hx := (h.tables.tried _ nId).mpr ⟨info,hi,htried,rfl⟩
  rw [(h.tables.tried _ nId').mpr ⟨info',hi',htried',heq⟩] at hx
  cases hx
  rw [hi] at hi'
  rw [some.inj hi']

structure Entered (P : Params) (A B s : CAddrMan) : Prop where
  loaded : Loaded B (keptOf B A.newEntries.length) (A.entries.map fun e => e.2.raw) s
  nKey : s.nKey = A.nKey
  nTried : s.nTried = A.triedEntries.length
  nNew : s.nNew = A.newEntries.length
  nIdCount : s.nIdCount = A.entries.length
  vvNew : ∀ x, s.vvNew x = none
  vvTried : TriedBy P A.nKey A.newEntries.length (A.triedEntries.map fun e => e.2.raw) s.vvTried

theorem Dumped.usable (h : Dumped A d idx) :
    (d.nVersion = 1 && d.nUBuckets.toInt = ADDRMAN_NEW_BUCKET_COUNT : Bool) := by
  rw [h.nVersion,h.nUBuckets,decide_eq_true rfl,decide_eq_true rfl,Bool.and_self]

theorem CAddrMan.Consistent.entered (h : A.Consistent P) (hd : Dumped A d idx) (B) :
    Entered P A B (B.loadEntries P d) := by
  have hraw : ∀ l : List (ℤ × CAddrInfo), ((l.map fun e => e.2.raw).map fun i => i.ip) =
      l.map fun e => e.2.ip := by
    intro l
    rw [map_map]
    rfl
  have hips := h.nodup_ips
  rw [entries,← hraw,map_append,← hd.newInfos,← hd.triedInfos] at hips
  have hlen : d.newInfos.length = A.newEntries.length := by rw [hd.newInfos,length_map]
  have hlen' : d.triedInfos.length = A.triedEntries.length := by rw [hd.triedInfos,length_map]
  have hslots : (d.triedInfos.map fun i => triedSlot P A.nKey i.toCService).Nodup := by
    rw [hd.triedInfos,map_map]
    exact h.nodup_slots
  have hnewLe := h.newEntries_le
  have htriedLe := h.triedEntries_le
  simp only [loadEntries,hd.usable,hd.nNew,hd.nTried,hd.nKey]
  obtain ⟨hL,hrest,htried⟩ := loadNew_foldl (P := P) (B := B)
    (s := { B.clear A.nKey with nNew := A.newEntries.length, nTried := A.triedEntries.length }) d.newInfos
    ((map_append ▸ hips).of_append_left) rfl rfl rfl le_rfl
  generalize d.newInfos.zipIdx.foldl (loadNew P true) _ = s at hL hrest htried
  obtain ⟨t,ht,hLt,hrestt,hid,hby⟩ := loadTried_foldl (P := P) (s := { s with nIdCount := A.newEntries.length })
    (T := d.triedInfos) hips (by rw [show s.nKey = A.nKey from hrest.nKey]; exact hslots)
    ⟨hL.mapInfo,hL.addr,hL.others,hL.vRandom⟩ (fun x => congrFun htried x) (congrArg Nat.cast hlen.symm) (by omega)
  rw [ht]
  refine ⟨?_,?_,?_,?_,?_,?_,?_⟩
  · have hE : (A.entries.map fun e => e.2.raw) = d.newInfos++d.triedInfos := by
      rw [entries,map_append,hd.newInfos,hd.triedInfos]
    rw [hE,← hlen]
    exact ⟨hLt.mapInfo,hLt.addr,hLt.others,hLt.vRandom⟩
  · exact hrestt.nKey.trans hrest.nKey
  · exact (sub_zero _).trans (hrestt.nTried.trans hrest.nTried)
  · exact hrestt.nNew.trans hrest.nNew
  · exact hid.trans (by rw [entries,length_append,hlen,hlen',Nat.cast_add])
  · intro x
    exact (congrFun hrestt.vvNew x).trans (congrFun hrest.vvNew x)
  · rw [← hd.triedInfos,← hlen]
    exact (show s.nKey = A.nKey from hrest.nKey) ▸ hby

variable {t : CAddrMan}

def CAddrInfo.unreferenced (info : CAddrInfo) : CAddrInfo := { info with nRefCount := 0 }

/-- References were put into slots: all else stays, and they are counted. -/
structure Placed (s t : CAddrMan) : Prop where
  nKey : t.nKey = s.nKey
  nTried : t.nTried = s.nTried
  nNew : t.nNew = s.nNew
  nIdCount : t.nIdCount = s.nIdCount
  vRandom : t.vRandom = s.vRandom
  mapAddr : t.mapAddr = s.mapAddr
  vvTried : t.vvTried = s.vvTried
  infos : SameBy CAddrInfo.unreferenced s.mapInfo t.mapInfo
  refs : ∀ (k : ℤ) info info', s.mapInfo[k]? = some info → t.mapInfo[k]? = some info' →
    info'.nRefCount = info.nRefCount+((held t.vvNew k).card : ℤ)

theorem Placed.refl (hnone : ∀ x, s.vvNew x = none) : Placed s s := by
  refine ⟨rfl,rfl,rfl,rfl,rfl,rfl,rfl,fun _ => rfl,fun k info info' hi hi' => ?_⟩
  have hempty : held s.vvNew k = ∅ := held_eq_empty.mpr fun x => by simp [hnone x]
  rw [← some.inj (hi.symm.trans hi'),hempty,Finset.card_empty,Nat.cast_zero,add_zero]

open CAddrInfo

theorem Placed.ref (h : Placed s t) {x} (hx : t.vvNew x = none) {nId} (hn : 0 ≤ nId) :
    Placed s (t.ref x nId) := by
  refine ⟨h.nKey,h.nTried,h.nNew,h.nIdCount,h.vRandom,h.mapAddr,h.vvTried,fun k => ?_,
    fun k info info' hi hi' => ?_⟩
  · have hmod : SameBy unreferenced t.mapInfo (t.ref x nId).mapInfo := sameBy_modify fun _ _ => rfl
    exact (hmod k).trans (h.infos k)
  · have hcard := card_held_put (a := nId) (b := k) hx
    simp only [CAddrMan.ref,CAddrMan.update,getElem?_modify] at hi'
    simp only [CAddrMan.ref,slotMark_of_nonneg hn,hcard]
    split_ifs at hi' ⊢ with hk
    · obtain ⟨i,hit,rfl⟩ := map_eq_some_iff.mp hi'
      have hrefs := h.refs k info i hi hit
      push_cast
      omega
    · have hrefs := h.refs k info info' hi hi'
      rw [hrefs,Nat.add_zero]

theorem Placed.loadIndex (h : Placed s t) (b nIndex) : Placed s (loadIndex P true b t nIndex) := by
  rw [CAddrMan.loadIndex]
  split
  · rename_i hn
    split
    · exact h
    · dsimp only
      split
      · rename_i hif
        simp only [Bool.and_eq_true,decide_eq_true_eq] at hif hn
        exact h.ref hif.1.2 hn.1
      · exact h
  · exact h

theorem Placed.loadBucket (h : Placed s t) (b l) :
    Placed s (loadBucket P true t (l,b)) := by
  rw [CAddrMan.loadBucket]
  induction l generalizing t with
  | nil => exact h
  | cons n l ih => exact ih (h.loadIndex b n)

theorem Placed.loadBuckets (h : Placed s t) (l : List (List Int32 × ℕ)) :
    Placed s (l.foldl (CAddrMan.loadBucket P true) t) := by
  induction l generalizing t with
  | nil => exact h
  | cons e l ih => exact ih (h.loadBucket e.2 e.1)

/-- Nothing of what a manager held shows through what is read from another one's file: it has
no entry with another number than those in the file, no reference and no mark where new
entries are read, and no other address. -/
structure Fresh (A B : CAddrMan) : Prop where
  numbers : ∀ (k : ℤ) info, B.mapInfo[k]? = some info → 0 ≤ k ∧ k < A.nNew+A.nTried
  clean : ∀ (k : ℤ) info, B.mapInfo[k]? = some info → k < A.nNew → info.nRefCount = 0 ∧ info.fInTried = false
  addrs : ∀ a : CNetAddr, (B.mapAddr[a]?).isSome → (A.mapAddr[a]?).isSome

theorem CAddrMan.Consistent.length_newEntries (h : A.Consistent P) :
    (A.newEntries.length : ℤ) = A.nNew := by
  rw [h.counts.length_newEntries,add_zero]

theorem CAddrMan.Consistent.length_triedEntries (h : A.Consistent P) :
    (A.triedEntries.length : ℤ) = A.nTried :=
  h.counts.length_triedEntries

theorem CAddrMan.Consistent.length_entries (h : A.Consistent P) :
    (A.entries.length : ℤ) = A.nNew+A.nTried := by
  rw [entries,length_append,← h.length_newEntries,← h.length_triedEntries]
  rfl

variable {i j : CAddrInfo} {l : List NewSlot} {y : NewSlot}

theorem fInTried_entries (he : entryAt A.entries k = some e) :
    e.2.fInTried = decide (A.newEntries.length ≤ k) := by
  obtain ⟨nId,info⟩ := e
  rw [entries,entryAt_append] at he
  split_ifs at he with hk
  · rw [(mem_newEntries.mp (mem_of_entryAt he)).2,decide_eq_false (by omega)]
  · rw [(mem_triedEntries.mp (mem_of_entryAt he)).2,decide_eq_true (by omega)]

def CAddrInfo.numbered (info : CAddrInfo) (k : ℤ) : CAddrInfo :=
  { info with nLastTry := 0, nRefCount := 0, nRandomPos := k.toNat }

theorem Entered.mapInfo (h : A.Consistent P) (hs : Entered P A B s) (hB : Fresh A B) (k : ℤ) :
    s.mapInfo[k]? = (entryAt A.entries k).map fun e => e.2.numbered k := by
  rw [hs.loaded.mapInfo,entryAt_map]
  cases he : entryAt A.entries k with
  | none =>
    have hk := entryAt_eq_none.mp he
    have hlen := h.length_entries
    cases hb : B.mapInfo[k]? with
    | none => rfl
    | some info =>
      have hlt := hB.numbers k info hb
      omega
  | some e =>
    have htried := fInTried_entries he
    have hlen := h.length_newEntries
    simp only [map_some,keptOf]
    by_cases hk : k < A.newEntries.length
    · rw [decide_eq_false (by omega)] at htried
      rw [if_pos hk]
      cases hb : B.mapInfo[k]? with
      | none => simp [raw,numbered,blank,init,htried]
      | some info =>
        obtain ⟨href,hf⟩ := hB.clean k info hb (by omega)
        simp [raw,numbered,href,hf,htried]
    · rw [decide_eq_true (by omega)] at htried
      rw [if_neg hk]
      simp [raw,numbered,htried]

theorem entryAt_entries_inj {k' e'} (he : entryAt A.entries k = some e)
    (he' : entryAt A.entries k' = some e') (hid : e.1 = e'.1) : k = k' := by
  have hi := getElem?_of_entryAt he
  rw [hid,getElem?_of_entryAt he'] at hi
  obtain rfl : e = e' := Prod.ext hid (some.inj hi).symm
  obtain ⟨n,rfl,hn⟩ := entryAt_eq_some.mp he
  obtain ⟨n',rfl,hn'⟩ := entryAt_eq_some.mp he'
  rw [(getElem?_inj (List.getElem?_eq_some_iff.mp hn).1 nodup_entries).mp (hn.trans hn'.symm)]

theorem Entered.mapAddr (h : A.Consistent P) (hs : Entered P A B s) (hB : Fresh A B) (a : CNetAddr)
    (k) :
    s.mapAddr[a]? = some k ↔ ∃ e, entryAt A.entries k = some e ∧ e.2.ip = a := by
  have hadd : ∀ (k : ℤ) e, entryAt A.entries k = some e → s.mapAddr[e.2.ip]? = some k := by
    intro k e he
    exact hs.loaded.addr k e.2.raw (by rw [entryAt_map,he,map_some])
  constructor
  · intro hk
    by_cases hin : ∃ e ∈ A.entries, e.2.ip = a
    · obtain ⟨e,he,rfl⟩ := hin
      obtain ⟨j,hj⟩ := exists_entryAt he
      rw [hadd j e hj] at hk
      exact ⟨e,some.inj hk ▸ hj,rfl⟩
    · exfalso
      rw [hs.loaded.others a ?_] at hk
      · have hsome := hB.addrs a (by rw [hk]; rfl)
        obtain ⟨nId,hn⟩ := isSome_iff_exists.mp hsome
        obtain ⟨info,hi,rfl⟩ := (h.indexes.addr a nId).mp hn
        exact hin ⟨(nId,info),mem_entries.mpr hi,rfl⟩
      · intro i hi
        obtain ⟨e,he,rfl⟩ := mem_map.mp hi
        exact fun hip => hin ⟨e,he,hip⟩
  · rintro ⟨e,he,rfl⟩
    exact hadd k e he

theorem unreferenced_service (h : i.unreferenced = j.unreferenced) :
    i.toCService = j.toCService := by
  have hs : i.unreferenced.toCService = j.unreferenced.toCService := by rw [h]
  exact hs

theorem unreferenced_fInTried (h : i.unreferenced = j.unreferenced) : i.fInTried = j.fInTried := by
  have hs : i.unreferenced.fInTried = j.unreferenced.fInTried := by rw [h]
  exact hs

def loadSlot (P : Params) (A : CAddrMan) (idx : ℤ → Int32) (s : CAddrMan) (x : NewSlot) :
    CAddrMan :=
  match A.vvNew x with
  | none => s
  | some nId => CAddrMan.loadIndex P true x.1 s (idx nId)

/-- The slots of a list hold what they held in the written manager, and the others nothing. -/
def SlotsOf (A : CAddrMan) (l : List NewSlot) (t : CAddrMan) : Prop :=
  ∀ x (k : ℤ), t.vvNew x = some k ↔ x ∈ l ∧ ∃ e, entryAt A.entries k = some e ∧ A.vvNew x = some e.1

theorem Placed.loadSlot (h : Placed s t) (x : NewSlot) : Placed s (loadSlot P A idx t x) := by
  rw [AddrMan.loadSlot]
  split
  · exact h
  · exact h.loadIndex _ _

theorem loadSlot_eq (h : A.Consistent P) (hs : Entered P A B s) (hB : Fresh A B) (hp : Placed s t)
    (hl : SlotsOf A l t) (hidx : ∀ (k : ℕ) e, A.newEntries[k]? = some e → (idx e.1).toInt = k)
    (hy : y ∉ l) {nId} (hn : A.vvNew y = some nId) :
    ∃ (k : ℤ) (info : CAddrInfo), 0 ≤ k ∧ entryAt A.entries k = some (nId,info) ∧
      loadSlot P A idx t y = t.ref y k := by
  obtain ⟨info,hi,hnew,hpos⟩ := h.tables.new y nId hn
  obtain ⟨k,hk⟩ := mem_iff_getElem?.mp (mem_newEntries.mpr ⟨hi,hnew⟩)
  have hlt := (List.getElem?_eq_some_iff.mp hk).1
  have he : entryAt A.entries k = some (nId,info) := by
    rw [entries,entryAt_append,if_pos (Int.ofNat_lt.mpr hlt),entryAt_natCast,hk]
  refine ⟨k,info,Int.natCast_nonneg k,he,?_⟩
  have hsk : s.mapInfo[(k : ℤ)]? = some (info.numbered k) := by rw [hs.mapInfo h hB,he,map_some]
  obtain ⟨i,hik,hsame⟩ := hp.infos.symm.exists hsk
  have haddr : i.toCService = (info.numbered k).toCService := unreferenced_service hsame
  have hfree : t.vvNew y = none := by
    cases hty : t.vvNew y with
    | none => rfl
    | some j => exact absurd ((hl y j).mp hty).1 hy
  -- this slot is one of at most eight and not among those that hold the entry already
  have hfew : i.nRefCount < ADDRMAN_NEW_BUCKETS_PER_ADDRESS := by
    have hcard : (held t.vvNew (k : ℤ)).card < (held A.vvNew nId).card := by
      refine card_held_lt (fun x hx => ?_) (by simp [hfree]) hn
      obtain ⟨-,e,he',hx'⟩ := (hl x k).mp hx
      rw [he] at he'
      rw [hx',← some.inj he']
    obtain ⟨hrefs,hmax⟩ := h.tables.references nId info hi
    have hcount : i.nRefCount = 0+((held t.vvNew (k : ℤ)).card : ℤ) := hp.refs k _ i hsk hik
    omega
  have hslot : ((Fin.ofNat _ y.1.val,getBucketPosition P t.nKey i.toCService true y.1.val) : NewSlot) = y := by
    rw [hp.nKey,hs.nKey,haddr,numbered,← hpos,Fin.ofNat_eq_cast,Fin.cast_val_eq_self]
  have hguard : (0 ≤ (idx nId).toInt && (idx nId).toInt < t.nNew : Bool) := by
    rw [hidx k _ hk,hp.nNew,hs.nNew]
    simpa using hlt
  rw [loadSlot,hn]
  simp only [loadIndex]
  rw [if_pos hguard,hidx k _ hk,hik]
  simp only [hslot,hfree]
  rw [if_pos (by simpa using hfew)]

theorem SlotsOf.loadSlot (h : A.Consistent P) (hs : Entered P A B s) (hB : Fresh A B)
    (hp : Placed s t) (hl : SlotsOf A l t)
    (hidx : ∀ (k : ℕ) e, A.newEntries[k]? = some e → (idx e.1).toInt = k) (hy : y ∉ l) :
    SlotsOf A (l++[y]) (loadSlot P A idx t y) := by
  intro x k
  cases hn : A.vvNew y with
  | none =>
    rw [AddrMan.loadSlot,hn,hl x k,mem_append,mem_singleton]
    constructor
    · exact fun ⟨hx,he⟩ => ⟨.inl hx,he⟩
    · rintro ⟨hx | rfl,e,he,hxe⟩
      · exact ⟨hx,e,he,hxe⟩
      · rw [hn] at hxe
        cases hxe
  | some nId =>
    obtain ⟨j,info,hj,he,heq⟩ := loadSlot_eq h hs hB hp hl hidx hy hn
    have hvv : (t.ref y j).vvNew = update t.vvNew y (some j) := by rw [← slotMark_of_nonneg hj]; rfl
    rw [heq,hvv,mem_append,mem_singleton]
    by_cases hx : x = y
    · subst hx
      rw [update_self]
      constructor
      · intro hj
        exact ⟨.inr rfl,(nId,info),some.inj hj ▸ he,hn⟩
      · rintro ⟨-,e,he',hxe⟩
        rw [hn] at hxe
        rw [entryAt_entries_inj he he' (some.inj hxe)]
    · rw [update_of_ne hx,hl x k]
      simp only [hx,or_false]

theorem loadSlots_foldl (h : A.Consistent P) (hs : Entered P A B s) (hB : Fresh A B)
    (hidx : ∀ (k : ℕ) e, A.newEntries[k]? = some e → (idx e.1).toInt = k) (l) (hnd : l.Nodup) :
    Placed s (l.foldl (loadSlot P A idx) s) ∧ SlotsOf A l (l.foldl (loadSlot P A idx) s) := by
  induction l using reverseRecOn with
  | nil => exact ⟨Placed.refl hs.vvNew,fun x k => by simp [hs.vvNew x]⟩
  | append_singleton l y ih =>
    rw [nodup_append] at hnd
    obtain ⟨hp,hl⟩ := ih hnd.1
    rw [foldl_append,foldl_cons,foldl_nil]
    exact ⟨hp.loadSlot y,SlotsOf.loadSlot h hs hB hp hl hidx fun hy => hnd.2.2 y hy y (by simp) rfl⟩

def allSlots : List NewSlot := newBuckets.flatMap fun b => positions.map fun i => (b,i)

theorem mem_allSlots (x : NewSlot) : x ∈ allSlots := by
  rw [allSlots,mem_flatMap,newBuckets_eq,positions_eq]
  exact ⟨x.1,mem_finRange x.1,mem_map.mpr ⟨x.2,mem_finRange x.2,rfl⟩⟩

theorem nodup_allSlots : allSlots.Nodup := by
  have h : allSlots = product newBuckets positions := rfl
  rw [h,newBuckets_eq,positions_eq]
  exact (nodup_finRange _).product (nodup_finRange _)

theorem zipIdx_newBuckets : newBuckets.zipIdx = newBuckets.map fun b => (b,b.val) := by
  rw [newBuckets_eq]
  refine ext_getElem (by simp) fun i _ _ => ?_
  simp

theorem loadBuckets_eq (hd : Dumped A d idx) :
    d.buckets.zipIdx.foldl (loadBucket P true) s = allSlots.foldl (loadSlot P A idx) s := by
  have hbucket : ∀ t b, loadBucket P true t (positions.filterMap fun i => (A.vvNew (b,i)).map idx,b.val) =
      (positions.map fun i => (b,i)).foldl (loadSlot P A idx) t := by
    intro t b
    rw [loadBucket,foldl_filterMap,foldl_map]
    refine congrFun (congrFun (congrArg foldl (funext₂ fun t i => ?_)) t) positions
    rw [loadSlot]
    cases A.vvNew (b,i) <;> rfl
  rw [hd.buckets,zipIdx_map,zipIdx_newBuckets,map_map,foldl_map,allSlots,foldl_flatMap]
  exact congrFun (congrFun (congrArg foldl (funext₂ hbucket)) s) newBuckets

def CAddrInfo.placed (info : CAddrInfo) (k : ℤ) : CAddrInfo :=
  { info with nLastTry := 0, nRandomPos := k.toNat }

structure Renumbered (A V : CAddrMan) : Prop where
  nKey : V.nKey = A.nKey
  nTried : V.nTried = A.nTried
  nNew : V.nNew = A.nNew
  nIdCount : V.nIdCount = A.entries.length
  vRandom : V.vRandom = (List.range A.entries.length).map Nat.cast
  mapInfo : ∀ k : ℤ, V.mapInfo[k]? = (entryAt A.entries k).map fun e => e.2.placed k
  mapAddr : ∀ (a : CNetAddr) (k : ℤ), V.mapAddr[a]? = some k ↔ ∃ e, entryAt A.entries k = some e ∧ e.2.ip = a
  vvNew : ∀ x (k : ℤ), V.vvNew x = some k ↔ ∃ e, entryAt A.entries k = some e ∧ A.vvNew x = some e.1
  vvTried : ∀ x (k : ℤ), V.vvTried x = some k ↔ ∃ e, entryAt A.entries k = some e ∧ A.vvTried x = some e.1

namespace Renumbered

theorem exists_entry (h : Renumbered A V) (hi : V.mapInfo[k]? = some info) :
    ∃ e, entryAt A.entries k = some e ∧ e.2.placed k = info := by
  rw [h.mapInfo,map_eq_some_iff] at hi
  exact hi

theorem getElem? (h : Renumbered A V) (he : entryAt A.entries k = some e) :
    V.mapInfo[k]? = some (e.2.placed k) := by
  rw [h.mapInfo,he,map_some]

theorem held_eq (h : Renumbered A V) (he : entryAt A.entries k = some e) :
    held V.vvNew k = held A.vvNew e.1 := by
  ext x
  rw [mem_held,mem_held,h.vvNew]
  constructor
  · rintro ⟨e',he',hx⟩
    rw [he] at he'
    rwa [some.inj he']
  · exact fun hx => ⟨e,he,hx⟩

theorem indexes (h : Renumbered A V) : Indexes V.mapInfo V.mapAddr V.vRandom V.nIdCount where
  position := by
    intro k info hi
    obtain ⟨e,he,rfl⟩ := h.exists_entry hi
    rw [h.vRandom]
    have hlt := lt_of_entryAt he
    have hpos : (List.range A.entries.length)[k.toNat]? = some k.toNat := List.getElem?_range (by omega)
    rw [getElem?_map]
    exact (congrArg (Option.map Nat.cast) hpos).trans (congrArg some (Int.toNat_of_nonneg hlt.1))
  random := by
    intro n k hn
    rw [h.vRandom] at hn
    rw [getElem?_map,map_eq_some_iff] at hn
    obtain ⟨m,hm,rfl⟩ := hn
    obtain ⟨hlt,hk⟩ := List.getElem?_eq_some_iff.mp hm
    rw [getElem_range] at hk
    rw [length_range] at hlt
    subst hk
    exact ⟨_,h.getElem? ((entryAt_natCast _ _).trans (getElem?_eq_getElem hlt)),Int.toNat_natCast _⟩
  addr := by
    intro a k
    rw [h.mapAddr]
    constructor
    · rintro ⟨e,he,ha⟩
      exact ⟨_,h.getElem? he,ha⟩
    · rintro ⟨info,hi,ha⟩
      obtain ⟨e,he,rfl⟩ := h.exists_entry hi
      exact ⟨e,he,ha⟩
  fresh := by
    intro k info hi
    obtain ⟨e,he,-⟩ := h.exists_entry hi
    rw [h.nIdCount]
    exact lt_of_entryAt he

theorem tables (h : Renumbered A V) (hA : A.Consistent P) :
    Tables P V.nKey V.mapInfo V.vvTried V.vvNew where
  references := by
    intro k info hi
    obtain ⟨⟨nId,info'⟩,he,rfl⟩ := h.exists_entry hi
    rw [h.held_eq he]
    exact hA.tables.references nId info' (getElem?_of_entryAt he)
  new := by
    intro x k hx
    obtain ⟨⟨nId,info'⟩,he,hx'⟩ := (h.vvNew x k).mp hx
    obtain ⟨info,hi,hnew,hpos⟩ := hA.tables.new x nId hx'
    rw [getElem?_of_entryAt he] at hi
    cases hi
    rw [h.nKey]
    exact ⟨_,h.getElem? he,hnew,hpos⟩
  tried := by
    intro x k
    rw [h.vvTried,h.nKey]
    constructor
    · rintro ⟨⟨nId,info'⟩,he,hx⟩
      obtain ⟨info,hi,htried,hslot⟩ := (hA.tables.tried x nId).mp hx
      rw [getElem?_of_entryAt he] at hi
      cases hi
      exact ⟨_,h.getElem? he,htried,hslot⟩
    · rintro ⟨info,hi,htried,hslot⟩
      obtain ⟨⟨nId,info'⟩,he,rfl⟩ := h.exists_entry hi
      exact ⟨_,he,(hA.tables.tried x nId).mpr ⟨info',getElem?_of_entryAt he,htried,hslot⟩⟩

theorem toList_perm (h : Renumbered A V) :
    V.mapInfo.toList.Perm (A.entries.zipIdx.map fun e => ((e.2 : ℤ),e.1.2.placed e.2)) := by
  refine (perm_ext_iff_of_nodup (nodup_toList _) ?_).mpr ?_
  · refine Nodup.of_map Prod.fst ?_
    rw [map_map]
    have hidx : (Prod.fst ∘ fun e : (ℤ × CAddrInfo) × ℕ => ((e.2 : ℤ),e.1.2.placed e.2)) =
        Nat.cast ∘ Prod.snd := rfl
    rw [hidx,← map_map,zipIdx_map_snd]
    exact Nodup.map Nat.cast_injective nodup_range'
  · rintro ⟨k,info⟩
    rw [Std.ExtTreeMap.mem_toList_iff_getElem?_eq_some,h.mapInfo,map_eq_some_iff,mem_map]
    constructor
    · rintro ⟨e,he,rfl⟩
      obtain ⟨n,rfl,hn⟩ := entryAt_eq_some.mp he
      exact ⟨(e,n),mem_zipIdx_iff_getElem?.mpr hn,rfl⟩
    · rintro ⟨⟨e,n⟩,he,heq⟩
      cases heq
      exact ⟨e,(entryAt_natCast _ n).trans (mem_zipIdx_iff_getElem?.mp he),rfl⟩

theorem entrySum_eq (h : Renumbered A V) {w : Bool → ℤ} :
    entrySum (fun _ info => w info.fInTried) V.mapInfo =
      entrySum (fun _ info => w info.fInTried) A.mapInfo := by
  have hzip : (A.entries.zipIdx.map fun e => ((e.2 : ℤ),e.1.2.placed e.2)).map (fun e => w e.2.fInTried) =
      (A.entries.zipIdx.map Prod.fst).map fun e => w e.2.fInTried := by
    rw [map_map,map_map]
    rfl
  rw [entrySum,entrySum,(h.toList_perm.map _).sum_eq,hzip,zipIdx_map_fst,(entries_perm.map _).sum_eq]

theorem consistent (h : Renumbered A V) (hA : A.Consistent P) : V.Consistent P where
  indexes := h.indexes
  tables := h.tables hA
  counts := by
    have htried := h.entrySum_eq (w := fun b => if b then 1 else 0)
    have hnew := h.entrySum_eq (w := fun b => if b then 0 else 1)
    refine ⟨?_,?_⟩
    · rw [h.nTried,htried]
      exact hA.counts.tried
    · rw [h.nNew,hnew]
      exact hA.counts.new
  referenced := by
    intro k info hi _ hnew
    obtain ⟨⟨nId,info'⟩,he,rfl⟩ := h.exists_entry hi
    exact hA.referenced nId info' (getElem?_of_entryAt he) (Set.notMem_empty nId) hnew

end Renumbered

theorem eq_of_unreferenced (h : i.unreferenced = j.unreferenced)
    (href : i.nRefCount = j.nRefCount) :
    i = j := by
  have hset : ∀ info : CAddrInfo, { info.unreferenced with nRefCount := info.nRefCount } = info := fun _ => rfl
  rw [← hset i,h,href,hset]

theorem TriedBy.entries (h : A.Consistent P) {t}
    (ht : TriedBy P A.nKey A.newEntries.length (A.triedEntries.map fun e => e.2.raw) t)
    (x : TriedSlot) (k) :
    t x = some k ↔ ∃ e, entryAt A.entries k = some e ∧ A.vvTried x = some e.1 := by
  have hslot : ∀ (j : ℤ) e, entryAt A.triedEntries j = some e →
      t (triedSlot P A.nKey e.2.toCService) = some (A.newEntries.length+j) := by
    intro j e he
    exact ht.slot j e.2.raw (by rw [entryAt_map,he,map_some])
  constructor
  · intro hk
    by_cases hin : ∃ e ∈ A.triedEntries, triedSlot P A.nKey e.2.toCService = x
    · obtain ⟨⟨nId,info⟩,he,rfl⟩ := hin
      obtain ⟨j,hj⟩ := exists_entryAt he
      have hpos := lt_of_entryAt hj
      obtain ⟨hi,htried⟩ := mem_triedEntries.mp he
      rw [hslot j _ hj] at hk
      refine ⟨(nId,info),?_,(h.tables.tried _ nId).mpr ⟨info,hi,htried,rfl⟩⟩
      rw [← some.inj hk,CAddrMan.entries,entryAt_append,if_neg (by omega),add_sub_cancel_left,hj]
    · rw [ht.others x ?_] at hk
      · cases hk
      · intro i hi
        obtain ⟨e,he,rfl⟩ := mem_map.mp hi
        exact fun hx => hin ⟨e,he,hx⟩
  · rintro ⟨⟨nId,info⟩,he,hx⟩
    obtain ⟨info',hi,htried,rfl⟩ := (h.tables.tried x nId).mp hx
    rw [getElem?_of_entryAt he] at hi
    cases hi
    have hk := fInTried_entries he
    rw [htried,eq_comm,decide_eq_true_eq] at hk
    rw [CAddrMan.entries,entryAt_append,if_neg (by omega)] at he
    rw [hslot _ _ he,add_sub_cancel]

theorem renumbered_of_fresh (h : A.Consistent P) (hs : Entered P A B s) (hB : Fresh A B)
    (hp : Placed s t) (hl : SlotsOf A allSlots t) : Renumbered A t := by
  have hvv : ∀ x (k : ℤ), t.vvNew x = some k ↔ ∃ e, entryAt A.entries k = some e ∧ A.vvNew x = some e.1 := by
    intro x k
    rw [hl x k]
    exact and_iff_right (mem_allSlots x)
  refine ⟨hp.nKey.trans hs.nKey,?_,?_,hp.nIdCount.trans hs.nIdCount,?_,fun k => ?_,?_,hvv,?_⟩
  · rw [hp.nTried,hs.nTried,h.length_triedEntries]
  · rw [hp.nNew,hs.nNew,h.length_newEntries]
  · rw [hp.vRandom,hs.loaded.vRandom,length_map]
  · have hsk := hs.mapInfo h hB k
    cases he : entryAt A.entries k with
    | none =>
      have hmap := hp.infos k
      rw [hsk,he,map_none,map_none,map_eq_none_iff] at hmap
      rw [hmap,map_none]
    | some e =>
      rw [he,map_some] at hsk
      obtain ⟨i,hik,hsame⟩ := hp.infos.symm.exists hsk
      have hheld : held t.vvNew k = held A.vvNew e.1 := by
        ext x
        rw [mem_held,mem_held,hvv]
        constructor
        · rintro ⟨e',he',hx⟩
          rw [he] at he'
          rwa [some.inj he']
        · exact fun hx => ⟨e,he,hx⟩
      have hcount : i.nRefCount = 0+((held t.vvNew k).card : ℤ) := hp.refs k _ i hsk hik
      have hrefs := (h.tables.references e.1 e.2 (getElem?_of_entryAt he)).1
      rw [hheld,zero_add,← hrefs] at hcount
      rw [hik,map_some,eq_of_unreferenced (j := e.2.placed k) hsame hcount]
  · intro a k
    rw [hp.mapAddr]
    exact hs.mapAddr h hB a k
  · intro x k
    rw [hp.vvTried]
    exact hs.vvTried.entries h x k

theorem prune_foldlM (h : V.Consistent P) (l : List ℤ) : l.foldlM prune V = some V := by
  induction l with
  | nil => rfl
  | cons nId l ih =>
    have hprune : V.prune nId = some V := by
      rw [prune]
      cases hi : V.mapInfo[nId]? with
      | none => rfl
      | some info =>
        refine if_neg fun hif => ?_
        simp only [Bool.and_eq_true,Bool.not_eq_true',decide_eq_true_eq] at hif
        have hpos := h.referenced nId info hi (Set.notMem_empty nId) hif.1
        omega
    rw [foldlM_cons,hprune]
    exact ih

theorem prune_cases {nId} (h : s.prune nId = some V) :
    V = s ∨ V.vRandom.length < s.vRandom.length := by
  rw [prune] at h
  split at h
  · exact .inl (some.inj h).symm
  · split_ifs at h
    · refine .inr ?_
      rw [delete] at h
      split at h
      · cases h
      · split_ifs at h with hif
        obtain ⟨u,hu,rfl⟩ := map_eq_some_iff.mp h
        have hlen : u.vRandom.length = s.vRandom.length := by
          rw [swapRandom] at hu
          split_ifs at hu
          · rw [← some.inj hu]
          · split at hu
            · split_ifs at hu
              rw [← some.inj hu]
              simp only [exchange,length_set]
            · cases hu
        have hne : s.vRandom ≠ [] := by
          intro hnil
          simp [hnil] at hif
        have hpos := length_pos_iff.mpr hne
        simp only [CAddrMan.dropLast,length_dropLast,hlen]
        omega
    · exact .inl (some.inj h).symm

theorem prune_foldlM_cases {l : List ℤ} (h : l.foldlM prune s = some V) :
    V = s ∨ V.vRandom.length < s.vRandom.length := by
  induction l generalizing s with
  | nil => exact .inl (some.inj h).symm
  | cons nId l ih =>
    rw [foldlM_cons] at h
    obtain ⟨t,ht,hrest⟩ := bind_eq_some_iff.mp h
    rcases prune_cases ht with rfl | hlt
    · exact ih hrest
    · rcases ih hrest with rfl | hlt'
      · exact .inr hlt
      · exact .inr (hlt'.trans hlt)

/-- What a file is to keep of an entry: all but the last try, the references and the place
in the random order. -/
def CAddrInfo.record (info : CAddrInfo) : CAddrInfo :=
  { info with nLastTry := 0, nRefCount := 0, nRandomPos := 0 }

theorem record_fInTried (h : i.record = j.record) : i.fInTried = j.fInTried := by
  have hs : i.record.fInTried = j.record.fInTried := by rw [h]
  exact hs

def CAddrMan.newAddr (s : CAddrMan) (x : NewSlot) : Option CService :=
  (s.vvNew x).bind fun nId => (s.mapInfo[nId]?).map fun info => info.toCService

/-- A manager is consistent and has the addresses of another one, with the same records and
in the same new slots. -/
structure Restored (P : Params) (A V : CAddrMan) : Prop where
  consistent : V.Consistent P
  records : ∀ a, (V.find a).map (fun e => e.2.record) = (A.find a).map fun e => e.2.record
  slots : ∀ x, V.newAddr x = A.newAddr x

theorem Indexes.find_eq {a} (h : Indexes s.mapInfo s.mapAddr s.vRandom s.nIdCount) {nId}
    (hi : s.mapInfo[nId]? = some info) (ha : info.ip = a) : s.find a = some (nId,info) := by
  rw [CAddrMan.find,(h.addr a nId).mpr ⟨info,hi,ha⟩,bind_some,hi,map_some]

theorem Renumbered.restored (h : Renumbered A V) (hA : A.Consistent P) : Restored P A V where
  consistent := h.consistent hA
  records := by
    intro a
    cases hf : A.find a with
    | some e =>
      obtain ⟨nId,info⟩ := e
      obtain ⟨hi,ha⟩ := hA.indexes.find hf
      obtain ⟨k,hk⟩ := exists_entryAt (mem_entries.mpr hi)
      rw [h.indexes.find_eq (h.getElem? hk) ha]
      rfl
    | none =>
      cases hv : V.find a with
      | none => rfl
      | some e =>
        obtain ⟨k,info⟩ := e
        obtain ⟨hi,ha⟩ := h.indexes.find hv
        obtain ⟨⟨nId,info'⟩,he,rfl⟩ := h.exists_entry hi
        rw [hA.indexes.find_eq (getElem?_of_entryAt he) ha] at hf
        cases hf
  slots := by
    intro x
    rw [newAddr,newAddr]
    cases hx : A.vvNew x with
    | none =>
      cases hv : V.vvNew x with
      | none => rfl
      | some k =>
        obtain ⟨e,-,hxe⟩ := (h.vvNew x k).mp hv
        rw [hx] at hxe
        cases hxe
    | some nId =>
      obtain ⟨info,hi,-⟩ := hA.tables.new x nId hx
      obtain ⟨k,hk⟩ := exists_entryAt (mem_entries.mpr hi)
      rw [(h.vvNew x k).mpr ⟨_,hk,hx⟩,bind_some,bind_some,h.getElem? hk,hi]
      rfl

theorem load_eq (hd : Dumped A d idx) :
    B.load P d = (((allSlots.foldl (loadSlot P A idx) (B.loadEntries P d)).mapInfo.toList.map
      Prod.fst).foldlM
      prune (allSlots.foldl (loadSlot P A idx) (B.loadEntries P d))) := by
  rw [load]
  simp only [hd.usable]
  rw [loadBuckets_eq hd]

theorem restored_of_fresh (h : A.Consistent P) (hd : Dumped A d idx) (hB : Fresh A B) :
    ∃ V, B.load P d = some V ∧ Restored P A V := by
  have hs := h.entered hd B
  obtain ⟨hp,hl⟩ := loadSlots_foldl h hs hB hd.index allSlots nodup_allSlots
  have hren := renumbered_of_fresh h hs hB hp hl
  exact ⟨_,(load_eq hd).trans (prune_foldlM (hren.consistent h) _),hren.restored h⟩

theorem Restored.exists_info (h : Restored P A V) (hA : A.Consistent P)
    (he : entryAt A.entries k = some e) :
    ∃ (nId : ℤ) (info : CAddrInfo), V.mapInfo[nId]? = some info ∧ info.ip = e.2.ip ∧
      info.record = e.2.record := by
  have hrec := h.records e.2.ip
  rw [hA.indexes.find_eq (getElem?_of_entryAt he) rfl,map_some,map_eq_some_iff] at hrec
  obtain ⟨⟨nId,info⟩,hf,heq⟩ := hrec
  obtain ⟨hi,hip⟩ := h.consistent.indexes.find hf
  exact ⟨nId,info,hi,hip,heq⟩

theorem Restored.length_le (h : Restored P A V) (hA : A.Consistent P) :
    A.entries.length ≤ V.vRandom.length := by
  have haddr : ∀ a ∈ A.entries.map (fun e => e.2.ip), ∃ nId info, V.mapAddr[a]? = some nId ∧
      V.mapInfo[nId]? = some info ∧
      info.ip = a := by
    intro a ha
    obtain ⟨e,he,rfl⟩ := mem_map.mp ha
    obtain ⟨k,hk⟩ := exists_entryAt he
    obtain ⟨nId,info,hi,hip,-⟩ := h.exists_info hA hk
    exact ⟨nId,info,(h.consistent.indexes.addr _ _).mpr ⟨info,hi,hip⟩,hi,hip⟩
  have hnd : ((A.entries.map fun e => e.2.ip).map fun a => (V.mapAddr[a]?).getD 0).Nodup := by
    refine Nodup.map_on ?_ hA.nodup_ips
    intro a ha b hb heq
    obtain ⟨n,i,hn,hi,rfl⟩ := haddr a ha
    obtain ⟨n',i',hn',hi',rfl⟩ := haddr b hb
    rw [hn,hn',getD_some,getD_some] at heq
    rw [heq,hi'] at hi
    rw [some.inj hi]
  have hsub : ((A.entries.map fun e => e.2.ip).map fun a => (V.mapAddr[a]?).getD 0) ⊆ V.vRandom := by
    intro n hn
    obtain ⟨a,ha,rfl⟩ := mem_map.mp hn
    obtain ⟨nId,info,hnId,hi,-⟩ := haddr a ha
    rw [hnId,getD_some]
    exact mem_of_getElem? (h.consistent.indexes.position nId info hi)
  have hle := (hnd.subperm hsub).length_le
  rwa [length_map,length_map] at hle

theorem fresh_of_restored (h : A.Consistent P) (hd : Dumped A d idx)
    (hV : B.load P d = some V) (hr : Restored P A V) : Fresh A B := by
  have hs := h.entered hd B
  have hp : Placed (B.loadEntries P d) (allSlots.foldl (loadSlot P A idx) (B.loadEntries P d)) := by
    rw [← loadBuckets_eq hd]
    exact (Placed.refl hs.vvNew).loadBuckets _
  rw [load_eq hd] at hV
  generalize allSlots.foldl (loadSlot P A idx) (B.loadEntries P d) = t at hp hV
  generalize B.loadEntries P d = s at hp hs
  have hrandom : t.vRandom = (List.range A.entries.length).map Nat.cast := by
    rw [hp.vRandom,hs.loaded.vRandom,length_map]
  -- nothing was left out, for which the random order would be too short
  obtain rfl : V = t := by
    rcases prune_foldlM_cases hV with heq | hlt
    · exact heq
    · have hle := hr.length_le h
      rw [hrandom,length_map,length_range] at hlt
      omega
  have hlen := h.length_entries
  have hlenNew := h.length_newEntries
  have hnumbers : ∀ (k : ℤ) info, B.mapInfo[k]? = some info → 0 ≤ k ∧ k < A.nNew+A.nTried := by
    intro k info hk
    by_contra hge
    have hnone : entryAt (A.entries.map fun e => e.2.raw) k = none :=
      entryAt_eq_none.mpr (by rw [length_map]; omega)
    have hsk := hs.loaded.mapInfo k
    rw [hnone] at hsk
    obtain ⟨i,hi,-⟩ := hp.infos.symm.exists (hsk.trans hk)
    have hpos := hr.consistent.indexes.position k i hi
    rw [hrandom] at hpos
    obtain ⟨m,hm,rfl⟩ := mem_map.mp (mem_of_getElem? hpos)
    have hlt := mem_range.mp hm
    omega
  refine ⟨hnumbers,fun k info hk hlt => ?_,fun a ha => ?_⟩
  · have hkLen : k < A.newEntries.length := by omega
    obtain ⟨e,he⟩ : ∃ e, entryAt A.entries k = some e := by
      rw [← ne_none_iff_exists',Ne,entryAt_eq_none,not_not]
      exact ⟨(hnumbers k info hk).1,by rw [CAddrMan.entries,length_append]; omega⟩
    have hsk := hs.loaded.mapInfo k
    rw [entryAt_map,he] at hsk
    simp only [map_some,keptOf,if_pos hkLen,hk,getD_some] at hsk
    obtain ⟨i,hi,hsame⟩ := hp.infos.symm.exists hsk
    have hcount := hp.refs k _ i hsk hi
    have hrefs := (hr.consistent.tables.references k i hi).1
    have hf := unreferenced_fInTried hsame
    have hserv := unreferenced_service hsame
    have hip : i.ip = e.2.ip := congrArg CService.ip hserv
    obtain ⟨nId,info',hi',hip',hrec⟩ := hr.exists_info h he
    -- the address is found at this number
    have haddr := (hr.consistent.indexes.addr e.2.ip k).mpr ⟨i,hi,hip⟩
    rw [(hr.consistent.indexes.addr e.2.ip nId).mpr ⟨info',hi',hip'⟩] at haddr
    cases haddr
    rw [hi] at hi'
    cases hi'
    have htried : i.fInTried = e.2.fInTried := record_fInTried hrec
    refine ⟨?_,?_⟩
    · dsimp only at hcount
      omega
    · rw [← hf,htried,fInTried_entries he,decide_eq_false (by omega)]
  · by_contra hno
    obtain ⟨k,hk⟩ := isSome_iff_exists.mp ha
    have hsa : s.mapAddr[a]? = some k := by
      rw [hs.loaded.others a ?_,hk]
      intro i hi hia
      obtain ⟨⟨nId,info⟩,he,rfl⟩ := mem_map.mp hi
      exact hno (by rw [(h.indexes.addr a nId).mpr ⟨info,mem_entries.mp he,hia⟩]; rfl)
    rw [← hp.mapAddr] at hsa
    obtain ⟨info,hi,hia⟩ := (hr.consistent.indexes.addr a k).mp hsa
    have hrec := hr.records a
    rw [hr.consistent.indexes.find_eq hi hia,map_some,eq_comm,map_eq_some_iff] at hrec
    obtain ⟨⟨nId,info'⟩,hf,-⟩ := hrec
    obtain ⟨hi',hia'⟩ := h.indexes.find hf
    exact hno (by rw [(h.indexes.addr a nId).mpr ⟨info',hi',hia'⟩]; rfl)

theorem CAddrMan.Consistent.unserialize_serialize (h : A.Consistent P) (nVersion) :
    ∃ bytes, A.serialize nVersion = some bytes ∧
      ∀ B, (∃ V, B.unserialize P bytes = some V ∧ Restored P A V) ↔ Fresh A B := by
  obtain ⟨d,idx,hdump,hd⟩ := h.dump
  have hread : Dump.unserialize.run (d.serialize nVersion) = some (d,[]) := by
    have hrun := reads_dump nVersion hd.fits []
    rwa [append_nil] at hrun
  refine ⟨d.serialize nVersion,by rw [serialize,hdump,map_some],fun B => ?_⟩
  rw [unserialize,hread,bind_some]
  constructor
  · rintro ⟨V,hV,hr⟩
    exact fresh_of_restored h hd hV hr
  · exact restored_of_fresh h hd

end AddrMan

open AddrMan

/-- Reading the file of a consistent manager restores it exactly if nothing of what the
reading manager held shows through. -/
theorem addrMan_restored_iff_fresh {P : Params} {A : CAddrMan} (hA : A.Consistent P)
    (nVersion : Int32) (B : CAddrMan) :
    (∃ bytes V, A.serialize nVersion = some bytes ∧ B.unserialize P bytes = some V ∧
      Restored P A V) ↔ Fresh A B := by
  obtain ⟨bytes,hbytes,hload⟩ := hA.unserialize_serialize nVersion
  constructor
  · rintro ⟨bytes',V,hb,hV,hr⟩
    rw [hbytes] at hb
    cases hb
    exact (hload B).mp ⟨V,hV,hr⟩
  · intro hB
    obtain ⟨V,hV,hr⟩ := (hload B).mpr hB
    exact ⟨bytes,V,hbytes,hV,hr⟩

namespace Sample

theorem exists_heard :
    ∃ A, (CAddrMan.empty 0).call params heard = some A ∧ A.Consistent params ∧ A.nNew = 1 ∧
      A.nTried = 0 := by
  obtain ⟨A,hA,hC⟩ := (consistent_empty (P := params) 0).call le_rfl heard fun _ => by decide
  have hcounts : ((CAddrMan.empty 0).call params heard).map (fun s => (s.nNew,s.nTried)) =
      some (1,0) := by decide +kernel
  rw [hA,map_some] at hcounts
  obtain ⟨hnew,htried⟩ := Prod.mk.inj (some.inj hcounts)
  exact ⟨A,hA,hC,hnew,htried⟩

theorem fresh_empty (A nKey) : Fresh A (CAddrMan.empty nKey) := by
  refine ⟨fun k info hk => ?_,fun k info hk => ?_,fun a ha => ?_⟩
  · simp [CAddrMan.empty] at hk
  · simp [CAddrMan.empty] at hk
  · simp [CAddrMan.empty] at ha

end Sample

open Sample

theorem addrMan_restored_iff_fresh_heard :
    ∃ A, (CAddrMan.empty 0).call params heard = some A ∧ A.nNew = 1 ∧ A.Consistent params ∧
      Fresh A (CAddrMan.empty 7) ∧
      ∃ bytes V, A.serialize 60029 = some bytes ∧ (CAddrMan.empty 7).unserialize params bytes =
        some V ∧
        Restored params A V := by
  obtain ⟨A,hA,hC,hnew,-⟩ := exists_heard
  exact ⟨A,hA,hnew,hC,fresh_empty A 7,(addrMan_restored_iff_fresh hC 60029 (CAddrMan.empty 7)).mpr
    (fresh_empty A 7)⟩

/-- A file that is read a second time is not restored: the references are counted on top of
those of the first time. -/
theorem addrMan_read_twice :
    ∃ A bytes B, (CAddrMan.empty 0).call params heard = some A ∧ A.Consistent params ∧
      A.serialize 60029 = some bytes ∧
      (CAddrMan.empty 7).unserialize params bytes = some B ∧
      ¬ ∃ V, B.unserialize params bytes = some V ∧ Restored params A V := by
  obtain ⟨A,hA,hC,hnew,htried⟩ := exists_heard
  obtain ⟨bytes,hbytes,hload⟩ := hC.unserialize_serialize 60029
  obtain ⟨B,hB,hr⟩ := (hload (CAddrMan.empty 7)).mpr (fresh_empty A 7)
  refine ⟨A,bytes,B,hA,hC,hbytes,hB,fun hV => ?_⟩
  have hfresh := (hload B).mp hV
  have hlen := hC.length_entries
  rw [hnew,htried] at hlen
  obtain ⟨e,hmem⟩ := exists_mem_of_length_pos (show 0 < A.entries.length by omega)
  obtain ⟨k,he⟩ := exists_entryAt hmem
  obtain ⟨nId,info,hi,-,-⟩ := hr.exists_info hC he
  -- the entry read the first time has references
  have hlt := hfresh.numbers nId info hi
  rw [hnew,htried,add_zero] at hlt
  obtain ⟨href,hf⟩ := hfresh.clean nId info hi (hnew ▸ hlt.2)
  have hpos := hr.consistent.referenced nId info hi (Set.notMem_empty nId) hf
  omega

end DarkSilk
