import DarkSilk.AddrMan

/-! The indexes of the address manager agree after every sequence of calls. Inside a call
they agree up to one entry that is not in a slot yet and to a count that is not adjusted
yet; each step is shown to keep this. -/
namespace DarkSilk

open SlotTable MapSum Option Function
open List hiding getElem?_modify
open Stormnode (CService)

namespace AddrMan

variable {m : Std.ExtTreeMap ℤ CAddrInfo} {s : CAddrMan} {nId : ℤ} {info : CAddrInfo} {f : CAddrInfo → CAddrInfo}
  {nKey : UInt256} {vvTried : TriedSlot → Option ℤ} {vvNew : NewSlot → Option ℤ}

section

variable (P : Params)

/-- The numbers, the addresses and the random order describe the same entries. -/
structure Indexes (mapInfo : Std.ExtTreeMap ℤ CAddrInfo) (mapAddr : Std.ExtTreeMap CNetAddr ℤ)
    (vRandom : List ℤ)
    (nIdCount : ℤ) : Prop where
  position : ∀ (nId : ℤ) (info : CAddrInfo), mapInfo[nId]? = some info → vRandom[info.nRandomPos]? = some nId
  random : ∀ (n : ℕ) (nId : ℤ), vRandom[n]? = some nId → ∃ info, mapInfo[nId]? = some info ∧ info.nRandomPos = n
  addr : ∀ (a : CNetAddr) (nId : ℤ), mapAddr[a]? = some nId ↔ ∃ info, mapInfo[nId]? = some info ∧ info.ip = a
  fresh : ∀ (nId : ℤ) (info : CAddrInfo), mapInfo[nId]? = some info → 0 ≤ nId ∧ nId < nIdCount

structure Tables (nKey : UInt256) (mapInfo : Std.ExtTreeMap ℤ CAddrInfo)
    (vvTried : TriedSlot → Option ℤ)
    (vvNew : NewSlot → Option ℤ) : Prop where
  references : ∀ (nId : ℤ) (info : CAddrInfo), mapInfo[nId]? = some info →
    info.nRefCount = ((held vvNew nId).card : ℤ) ∧ info.nRefCount ≤ ADDRMAN_NEW_BUCKETS_PER_ADDRESS
  new : ∀ x (nId : ℤ), vvNew x = some nId → ∃ info, mapInfo[nId]? = some info ∧ info.fInTried = false ∧
    x.2 = getBucketPosition P nKey info.toCService true x.1
  tried : ∀ x (nId : ℤ), vvTried x = some nId ↔ ∃ info, mapInfo[nId]? = some info ∧ info.fInTried = true ∧
    x = triedSlot P nKey info.toCService

structure Counts (mapInfo : Std.ExtTreeMap ℤ CAddrInfo) (nTried nNew : ℤ) : Prop where
  tried : nTried = entrySum (fun _ info => if info.fInTried then 1 else 0) mapInfo
  new : nNew = entrySum (fun _ info => if info.fInTried then 0 else 1) mapInfo

/-- All indexes agree, but for so many new entries that are not counted yet and some entries
that need not be in a slot. -/
structure Agrees (d : ℤ) (e : Set ℤ) (s : CAddrMan) : Prop where
  indexes : Indexes s.mapInfo s.mapAddr s.vRandom s.nIdCount
  tables : Tables P s.nKey s.mapInfo s.vvTried s.vvNew
  counts : Counts s.mapInfo s.nTried (s.nNew+d)
  referenced : ∀ (nId : ℤ) (info : CAddrInfo), s.mapInfo[nId]? = some info → nId ∉ e →
    info.fInTried = false → 0 < info.nRefCount

def CAddrMan.Consistent (s : CAddrMan) : Prop := Agrees P 0 ∅ s

end

section

variable {P : Params} {m' : Std.ExtTreeMap ℤ CAddrInfo} {β : Type} {g : CAddrInfo → β}

def SameBy (g : CAddrInfo → β) (m m' : Std.ExtTreeMap ℤ CAddrInfo) : Prop :=
  ∀ nId : ℤ, (m'[nId]?).map g = (m[nId]?).map g

def CAddrInfo.seen (info : CAddrInfo) : CService × ℤ × Bool :=
  (info.toCService,info.nRefCount,info.fInTried)

def CAddrInfo.located (info : CAddrInfo) : CNetAddr × ℕ := (info.ip,info.nRandomPos)

theorem SameBy.symm (h : SameBy g m m') : SameBy g m' m := fun nId => (h nId).symm

theorem SameBy.exists (h : SameBy g m m') {info'} (h' : m'[nId]? = some info') :
    ∃ info, m[nId]? = some info ∧ g info = g info' := by
  have hmap := h nId
  rw [h',map_some,eq_comm,map_eq_some_iff] at hmap
  exact hmap

theorem SameBy.exists_imp (h : SameBy g m m') {p : CAddrInfo → Prop}
    (hp : ∀ info info', g info' = g info → p info → p info') :
    (∃ info, m[nId]? = some info ∧ p info) → ∃ info', m'[nId]? = some info' ∧ p info' := by
  rintro ⟨info,hi,hpi⟩
  obtain ⟨info',hi',heq⟩ := h.symm.exists hi
  exact ⟨info',hi',hp info info' heq hpi⟩

theorem SameBy.of_factors {γ : Type} {k} (φ : β → γ) (hk : ∀ info, k info = φ (g info))
    (h : SameBy g m m') : SameBy k m m' := by
  intro nId
  have hmap := congrArg (Option.map φ) (h nId)
  simpa only [Option.map_map,comp_def,← hk] using hmap

theorem sameBy_modify (hf : ∀ info, m[nId]? = some info → g (f info) = g info) :
    SameBy g m (m.modify nId f) := by
  intro j
  rw [getElem?_modify]
  split_ifs with hj
  · subst hj
    cases hi : m[nId]? with
    | none => rfl
    | some info => exact congrArg some (hf info hi)
  · rfl

open CAddrInfo

theorem Indexes.congr {mapAddr vRandom} {nIdCount : ℤ} (h : Indexes m mapAddr vRandom nIdCount)
    (hm : SameBy located m m') :
    Indexes m' mapAddr vRandom nIdCount where
  position := by
    intro nId info' h'
    obtain ⟨info,hi,heq⟩ := hm.exists h'
    rw [← (Prod.mk.inj heq).2]
    exact h.position nId info hi
  random := by
    intro n nId hn
    obtain ⟨info,hi,hpos⟩ := h.random n nId hn
    obtain ⟨info',hi',heq⟩ := hm.symm.exists hi
    exact ⟨info',hi',(Prod.mk.inj heq).2.trans hpos⟩
  addr := by
    intro a nId
    rw [h.addr]
    exact ⟨hm.exists_imp fun _ _ heq ha => (Prod.mk.inj heq).1.trans ha,
      hm.symm.exists_imp fun _ _ heq ha => (Prod.mk.inj heq).1.trans ha⟩
  fresh := by
    intro nId info' h'
    obtain ⟨info,hi,-⟩ := hm.exists h'
    exact h.fresh nId info hi

theorem seen_inj {info' : CAddrInfo} (h : info.seen = info'.seen) :
    info.toCService = info'.toCService ∧ info.nRefCount = info'.nRefCount ∧
      info.fInTried = info'.fInTried := by
  simpa only [seen,Prod.mk.injEq] using h

theorem Tables.congr (h : Tables P nKey m vvTried vvNew)
    (hm : SameBy seen m m') : Tables P nKey m' vvTried vvNew where
  references := by
    intro nId info' h'
    obtain ⟨info,hi,heq⟩ := hm.exists h'
    rw [← (seen_inj heq).2.1]
    exact h.references nId info hi
  new x nId hx := hm.exists_imp (fun _ _ heq => by grind [seen_inj heq]) (h.new x nId hx)
  tried := by
    intro x nId
    rw [h.tried]
    exact ⟨hm.exists_imp fun _ _ heq => by grind [seen_inj heq],
      hm.symm.exists_imp fun _ _ heq => by grind [seen_inj heq]⟩

theorem Counts.congr {nTried nNew} (h : Counts m nTried nNew) (hm : SameBy seen m m') :
    Counts m' nTried nNew where
  tried := h.tried.trans (entrySum_congr (fun _ v => if v.2.2 then (1 : ℤ) else 0) hm).symm
  new := h.new.trans (entrySum_congr (fun _ v => if v.2.2 then (0 : ℤ) else 1) hm).symm

end

section

variable {mapAddr : Std.ExtTreeMap CNetAddr ℤ} {vRandom : List ℤ} {nIdCount : ℤ}

def CAddrInfo.base (info : CAddrInfo) : CAddrInfo := { info with nRandomPos := 0 }

theorem SameBy.seen {m'} (h : SameBy CAddrInfo.base m m') : SameBy CAddrInfo.seen m m' :=
  SameBy.of_factors CAddrInfo.seen (fun _ => by rfl) h

theorem Indexes.pos_lt (h : Indexes m mapAddr vRandom nIdCount)
    (hi : m[nId]? = some info) : info.nRandomPos < vRandom.length :=
  (List.getElem?_eq_some_iff.mp (h.position nId info hi)).1

theorem Indexes.pos_unique (h : Indexes m mapAddr vRandom nIdCount) {n n' : ℕ}
    (hn : vRandom[n]? = some nId) (hn' : vRandom[n']? = some nId) : n = n' := by
  obtain ⟨info,hi,rfl⟩ := h.random n nId hn
  obtain ⟨info',hi',rfl⟩ := h.random n' nId hn'
  rw [some.inj (hi.symm.trans hi')]

structure Swapped (s t : CAddrMan) (p q : ℕ) : Prop where
  indexes : Indexes t.mapInfo t.mapAddr t.vRandom t.nIdCount
  entries : SameBy CAddrInfo.base s.mapInfo t.mapInfo
  nKey : t.nKey = s.nKey
  vvTried : t.vvTried = s.vvTried
  vvNew : t.vvNew = s.vvNew
  nTried : t.nTried = s.nTried
  nNew : t.nNew = s.nNew
  length : t.vRandom.length = s.vRandom.length
  second : t.vRandom[q]? = s.vRandom[p]?

open CAddrMan

theorem swapRandom_spec (h : Indexes s.mapInfo s.mapAddr s.vRandom s.nIdCount) {p q : ℕ}
    (hp : p < s.vRandom.length)
    (hq : q < s.vRandom.length) : ∃ t, s.swapRandom p q = some t ∧ Swapped s t p q := by
  by_cases hpq : p = q
  · subst hpq
    exact ⟨s,by rw [swapRandom,if_pos rfl],h,fun _ => rfl,rfl,rfl,rfl,rfl,rfl,rfl,rfl⟩
  obtain ⟨a,ha⟩ : ∃ a, s.vRandom[p]? = some a := ⟨_,getElem?_eq_getElem hp⟩
  obtain ⟨b,hb⟩ : ∃ b, s.vRandom[q]? = some b := ⟨_,getElem?_eq_getElem hq⟩
  obtain ⟨infoA,hA,hposA⟩ := h.random p a ha
  obtain ⟨infoB,hB,hposB⟩ := h.random q b hb
  have hab : a ≠ b := fun heq => hpq (h.pos_unique ha (heq ▸ hb))
  refine ⟨s.exchange p q a b,by simp [swapRandom,hpq,ha,hb,Std.ExtTreeMap.contains_eq_isSome_getElem?,hA,hB],?_⟩
  have hget : ∀ j : ℤ, (s.exchange p q a b).mapInfo[j]? = if b = j then some { infoB with nRandomPos := p }
        else if a = j then some { infoA with nRandomPos := q } else s.mapInfo[j]? := by
    intro j
    rw [exchange,getElem?_modify,getElem?_modify]
    split_ifs with hbj haj haj
    · exact absurd (haj.trans hbj.symm) hab
    · rw [← hbj,hB]
      rfl
    · rw [← haj,hA]
      rfl
    · rfl
  have hset : ∀ n : ℕ, (s.exchange p q a b).vRandom[n]? =
      if q = n then some a else if p = n then some b else s.vRandom[n]? := by
    intro n
    rw [exchange,getElem?_set,getElem?_set,length_set]
    simp only [hp,hq,if_true]
  have hbase : SameBy CAddrInfo.base s.mapInfo (s.exchange p q a b).mapInfo := by
    intro j
    rw [hget]
    split_ifs with hbj haj
    · rw [← hbj,hB]
      rfl
    · rw [← haj,hA]
      rfl
    · rfl
  refine ⟨⟨?_,?_,?_,?_⟩,hbase,rfl,rfl,rfl,rfl,rfl,by simp [exchange],?_⟩
  · intro j info hj
    rw [hget] at hj
    rw [hset]
    split_ifs at hj with hbj haj
    · cases hj
      simp [Ne.symm hpq,hbj]
    · cases hj
      simp [haj]
    · have hnq : q ≠ info.nRandomPos := by
        rintro rfl
        exact hbj (some.inj (hb.symm.trans (h.position j info hj)))
      have hnp : p ≠ info.nRandomPos := by
        rintro rfl
        exact haj (some.inj (ha.symm.trans (h.position j info hj)))
      rw [if_neg hnq,if_neg hnp]
      exact h.position j info hj
  · intro n j hn
    rw [hset] at hn
    split_ifs at hn with hqn hpn
    · cases hn
      exact ⟨_,by rw [hget,if_neg hab.symm,if_pos rfl],hqn⟩
    · cases hn
      exact ⟨_,by rw [hget,if_pos rfl],hpn⟩
    · obtain ⟨info,hi,hpos⟩ := h.random n j hn
      have hjb : b ≠ j := fun heq => hqn (h.pos_unique (heq ▸ hb) hn)
      have hja : a ≠ j := fun heq => hpn (h.pos_unique (heq ▸ ha) hn)
      exact ⟨info,by rw [hget,if_neg hjb,if_neg hja,hi],hpos⟩
  · intro x j
    rw [exchange,h.addr]
    exact ⟨hbase.exists_imp fun _ _ heq hx => (congrArg (fun i => i.ip) heq).trans hx,
      hbase.symm.exists_imp fun _ _ heq hx => (congrArg (fun i => i.ip) heq).trans hx⟩
  · intro j info hj
    obtain ⟨info',hi',-⟩ := hbase.exists hj
    exact h.fresh j info' hi'
  · rw [hset,if_pos rfl,ha]

end

section

variable {P : Params} (hi : m[nId]? = some info)

include hi

theorem Indexes.erase {mapAddr : Std.ExtTreeMap CNetAddr ℤ} {vRandom : List ℤ} {nIdCount : ℤ}
    (h : Indexes m mapAddr vRandom nIdCount) (hlast : info.nRandomPos = vRandom.length-1) :
    Indexes (m.erase nId) (mapAddr.erase info.ip) vRandom.dropLast nIdCount where
  position := by
    intro j infoJ hj
    rw [getElem?_erase_eq] at hj
    split_ifs at hj with hne
    have hpos := h.position j infoJ hj
    have hlt := h.pos_lt hj
    have hneq : infoJ.nRandomPos ≠ vRandom.length-1 := by
      intro heq
      rw [heq,← hlast,h.position nId info hi] at hpos
      exact hne (some.inj hpos)
    rw [getElem?_dropLast,if_pos (by omega),hpos]
  random := by
    intro n j hn
    grind [getElem?_erase_eq,h.random]
  addr := by
    intro a j
    have hself := (h.addr info.ip nId).mpr ⟨info,hi,rfl⟩
    grind [getElem?_erase_eq,h.addr]
  fresh := by
    intro j infoJ hj
    rw [getElem?_erase_eq] at hj
    split_ifs at hj
    exact h.fresh j infoJ hj

theorem Tables.erase (h : Tables P nKey m vvTried vvNew) (hnew : info.fInTried = false)
    (href : info.nRefCount = 0) :
    Tables P nKey (m.erase nId) vvTried vvNew where
  references := by
    intro j infoJ hj
    grind [getElem?_erase_eq,h.references]
  new := by
    intro x j hx
    have hcard := (h.references nId info hi).1
    rw [href,eq_comm,Nat.cast_eq_zero,Finset.card_eq_zero,held_eq_empty] at hcard
    grind [getElem?_erase_eq,h.new]
  tried := by
    intro x j
    grind [getElem?_erase_eq,h.tried]

theorem Counts.erase {nTried nNew} (h : Counts m nTried nNew) (hnew : info.fInTried = false) :
    Counts (m.erase nId) nTried (nNew-1) where
  tried := by
    rw [h.tried,entrySum_of_getElem? hi,hnew]
    simp
  new := by
    rw [h.new,entrySum_of_getElem? hi,hnew]
    simp

end

section

variable {P : Params} {nTried nNew : ℤ}

theorem modify_cases {j info'} (hi : m[nId]? = some info) (h : (m.modify nId f)[j]? = some info') :
    (j = nId ∧ info' = f info) ∨ (j ≠ nId ∧ m[j]? = some info') := by
  rw [getElem?_modify] at h
  split_ifs at h with hj
  · subst hj
    rw [hi,map_some] at h
    exact .inl ⟨rfl,(some.inj h).symm⟩
  · exact .inr ⟨Ne.symm hj,h⟩

theorem exists_modify_iff {p : CAddrInfo → Prop} (hi : m[nId]? = some info) (j) :
    (∃ i, (m.modify nId f)[j]? = some i ∧ p i) ↔
      if nId = j then p (f info) else ∃ i, m[j]? = some i ∧ p i := by
  rw [getElem?_modify]
  split_ifs with hj
  · subst hj
    simp [hi]
  · rfl

variable (hi : m[nId]? = some info) (h : Tables P nKey m vvTried vvNew)

include hi h

theorem Tables.new_modify (hs : (f info).toCService = info.toCService)
    (ht : (f info).fInTried = false) {x j} (hx : vvNew x = some j) :
    ∃ i, (m.modify nId f)[j]? = some i ∧ i.fInTried = false ∧
      x.2 = getBucketPosition P nKey i.toCService true x.1 := by
  obtain ⟨i,hj,htried,hpos⟩ := h.new x j hx
  rw [exists_modify_iff hi]
  split_ifs with hne
  · subst hne
    obtain rfl := some.inj (hi.symm.trans hj)
    rw [hs]
    exact ⟨ht,hpos⟩
  · exact ⟨i,hj,htried,hpos⟩

theorem Tables.tried_modify (hs : (f info).toCService = info.toCService)
    (ht : (f info).fInTried = info.fInTried) (x : TriedSlot) (j) :
    vvTried x = some j ↔ ∃ i, (m.modify nId f)[j]? = some i ∧ i.fInTried ∧
      x = triedSlot P nKey i.toCService := by
  rw [h.tried,exists_modify_iff hi]
  split_ifs with hne
  · subst hne
    simp [hi,hs,ht]
  · rfl

theorem Tables.put {x} (hf : (f info).seen = (info.toCService,info.nRefCount+1,false))
    (hnew : info.fInTried = false)
    (hx : vvNew x = none) (hpos : x.2 = getBucketPosition P nKey info.toCService true x.1)
    (hlim : info.nRefCount < ADDRMAN_NEW_BUCKETS_PER_ADDRESS) :
    Tables P nKey (m.modify nId f) vvTried (update vvNew x (some nId)) := by
  obtain ⟨hs,hr,ht⟩ := Prod.mk.inj hf |>.imp id Prod.mk.inj
  refine ⟨?_,?_,h.tried_modify hi hs (ht.trans hnew.symm)⟩
  · intro j i hj
    rw [card_held_put hx]
    obtain ⟨rfl,rfl⟩ | ⟨hne,hj⟩ := modify_cases hi hj
    · have href := h.references j info hi
      rw [if_pos rfl,Nat.cast_add,← href.1,hr]
      exact ⟨rfl,hlim⟩
    · rw [if_neg hne.symm,Nat.add_zero]
      exact h.references j i hj
  · intro y j hy
    by_cases hyx : y = x
    · subst hyx
      rw [update_self] at hy
      rw [exists_modify_iff hi,if_pos (some.inj hy),hs]
      exact ⟨ht,hpos⟩
    · rw [update_of_ne hyx] at hy
      exact h.new_modify hi hs ht hy

theorem Tables.clear {x} (hf : (f info).seen = (info.toCService,info.nRefCount-1,false))
    (hx : vvNew x = some nId) : Tables P nKey (m.modify nId f) vvTried (update vvNew x none) := by
  obtain ⟨hs,hr,ht⟩ := Prod.mk.inj hf |>.imp id Prod.mk.inj
  have hnew : info.fInTried = false := by
    obtain ⟨i,hi',hnew,-⟩ := h.new x nId hx
    rwa [some.inj (hi.symm.trans hi')]
  refine ⟨?_,?_,h.tried_modify hi hs (ht.trans hnew.symm)⟩
  · intro j i hj
    have hcard := card_held_clear (b := j) hx
    obtain ⟨rfl,rfl⟩ | ⟨hne,hj⟩ := modify_cases hi hj
    · have href := h.references j info hi
      rw [if_pos rfl] at hcard
      omega
    · rw [if_neg hne.symm,Nat.add_zero] at hcard
      rw [hcard]
      exact h.references j i hj
  · intro y j hy
    have hyx : y ≠ x := by
      rintro rfl
      rw [update_self] at hy
      cases hy
    rw [update_of_ne hyx] at hy
    exact h.new_modify hi hs ht hy

theorem Tables.untry (hf : (f info).seen = (info.toCService,info.nRefCount,false))
    (htried : info.fInTried) :
    Tables P nKey (m.modify nId f) (update vvTried (triedSlot P nKey info.toCService) none)
      vvNew := by
  obtain ⟨hs,hr,ht⟩ := Prod.mk.inj hf |>.imp id Prod.mk.inj
  refine ⟨?_,fun y j hy => h.new_modify hi hs ht hy,?_⟩
  · intro j i hj
    obtain ⟨rfl,rfl⟩ | ⟨hne,hj⟩ := modify_cases hi hj
    · have href := h.references j info hi
      have hr' : (f info).nRefCount = info.nRefCount := hr
      rwa [hr']
    · exact h.references j i hj
  · intro y j
    have hslot := (h.tried _ nId).mpr ⟨info,hi,htried,rfl⟩
    have hold := h.tried y j
    rw [exists_modify_iff hi,update_apply]
    grind [h.tried]

theorem Tables.try (hf : (f info).seen = (info.toCService,info.nRefCount,true))
    (hnew : info.fInTried = false)
    (href : info.nRefCount = 0) (hx : vvTried (triedSlot P nKey info.toCService) = none) :
    Tables P nKey (m.modify nId f) (update vvTried (triedSlot P nKey info.toCService) (some nId))
      vvNew := by
  obtain ⟨hs,hr,ht⟩ := Prod.mk.inj hf |>.imp id Prod.mk.inj
  have hr' : (f info).nRefCount = info.nRefCount := hr
  have hnone : ∀ y, vvNew y ≠ some nId := by
    have hcard := (h.references nId info hi).1
    rwa [href,eq_comm,Nat.cast_eq_zero,Finset.card_eq_zero,held_eq_empty] at hcard
  refine ⟨?_,?_,?_⟩
  · intro j i hj
    obtain ⟨rfl,rfl⟩ | ⟨hne,hj⟩ := modify_cases hi hj
    · rw [hr']
      exact h.references j info hi
    · exact h.references j i hj
  · intro y j hy
    rw [exists_modify_iff hi,if_neg fun heq : nId = j => hnone y (heq ▸ hy)]
    exact h.new y j hy
  · intro y j
    rw [exists_modify_iff hi,update_apply]
    grind [h.tried]

omit h in
theorem Counts.modify (hc : Counts m nTried nNew) :
    Counts (m.modify nId f) (nTried+(if (f info).fInTried then 1 else 0)-if info.fInTried then 1
      else 0)
      (nNew+(if (f info).fInTried then 0 else 1)-if info.fInTried then 0 else 1) where
  tried := by
    have hsum := entrySum_modify (f := fun _ i => if CAddrInfo.fInTried i then (1 : ℤ) else 0) hi f
    rw [hc.tried]
    omega
  new := by
    have hsum := entrySum_modify (f := fun _ i => if CAddrInfo.fInTried i then (0 : ℤ) else 1) hi f
    rw [hc.new]
    omega

omit h in
theorem Counts.modify_same (hc : Counts m nTried nNew) (hf : (f info).fInTried = info.fInTried) :
    Counts (m.modify nId f) nTried nNew := by
  have hmodify := hc.modify (f := f) hi
  rwa [hf,add_sub_cancel_right,add_sub_cancel_right] at hmodify

end

section

variable {P : Params} {n n' : ℤ}

theorem Indexes.not_mem {mapAddr vRandom} (h : Indexes m mapAddr vRandom n) : m[n]? = none := by
  rw [eq_none_iff_forall_ne_some]
  exact fun i hi => lt_irrefl n (h.fresh n i hi).2

theorem Indexes.insert {mapAddr : Std.ExtTreeMap CNetAddr ℤ} {vRandom : List ℤ}
    (h : Indexes m mapAddr vRandom n)
    (ha : mapAddr[info.ip]? = none) (hpos : info.nRandomPos = vRandom.length) (hn : 0 ≤ n)
    (hlt : n < n') :
    Indexes (m.insert n info) (mapAddr.insert info.ip n) (vRandom++[n]) n' where
  position := by
    intro j i hj
    have hlt : m[j]? = some i → i.nRandomPos < vRandom.length := h.pos_lt
    grind [getElem?_insert_eq,h.position]
  random := by
    intro k j hk
    grind [getElem?_insert_eq,h.random,h.fresh]
  addr := by
    intro a j
    grind [getElem?_insert_eq,h.addr,h.fresh]
  fresh := by
    intro j i hj
    rw [getElem?_insert_eq] at hj
    split_ifs at hj with hne
    · exact hne ▸ ⟨hn,hlt⟩
    · exact ⟨(h.fresh j i hj).1,(h.fresh j i hj).2.trans hlt⟩

theorem Tables.insert (h : Tables P nKey m vvTried vvNew) (hn : m[n]? = none)
    (hnew : info.fInTried = false) (href : info.nRefCount = 0) :
    Tables P nKey (m.insert n info) vvTried vvNew where
  references := by
    intro j i hj
    rw [getElem?_insert_eq] at hj
    split_ifs at hj with hne
    · cases hj
      rw [href,held_eq_empty.mpr (by grind [h.new])]
      exact ⟨rfl,by decide⟩
    · exact h.references j i hj
  new := by
    intro y j hy
    grind [getElem?_insert_eq,h.new]
  tried := by
    intro y j
    grind [getElem?_insert_eq,h.tried]

theorem Counts.insert {nTried nNew} (h : Counts m nTried nNew) (hn : m[n]? = none)
    (hnew : info.fInTried = false) :
    Counts (m.insert n info) nTried (nNew+1) where
  tried := by
    rw [h.tried,entrySum_insert_new hn,hnew]
    simp
  new := by
    rw [h.new,entrySum_insert_new hn,hnew]
    exact add_comm _ _

end

/-! The counter of the entries: only a call that creates one moves it. -/
section

variable {P : Params} {t : CAddrMan}

open CAddrMan

theorem nIdCount_update (f) : (s.update nId f).nIdCount = s.nIdCount := rfl

theorem nIdCount_swapRandom {p q} (h : s.swapRandom p q = some t) : t.nIdCount = s.nIdCount := by
  grind [swapRandom,exchange]

theorem nIdCount_delete (h : s.delete nId = some t) : t.nIdCount = s.nIdCount := by
  grind [CAddrMan.delete,CAddrMan.dropLast,map_eq_some_iff,→ nIdCount_swapRandom]

theorem nIdCount_clearNew {x} (h : s.clearNew x = some t) : t.nIdCount = s.nIdCount := by
  grind [clearNew,unref,nIdCount_update,→ nIdCount_delete]

theorem nIdCount_leaveEach (l : List (Fin ADDRMAN_NEW_BUCKET_COUNT)) :
    (l.foldl (leaveBucket P nId) s).nIdCount = s.nIdCount := by
  induction l generalizing s with
  | nil => rfl
  | cons b l ih =>
    rw [foldl_cons,ih]
    grind [leaveBucket,unref,nIdCount_update]

theorem nIdCount_uncountNew : s.uncountNew.nIdCount = s.nIdCount := rfl

theorem nIdCount_leaveBuckets : (s.leaveBuckets P nId).nIdCount = s.nIdCount :=
  nIdCount_leaveEach newBuckets

theorem nIdCount_demote (x : TriedSlot) : (s.demote x nId).nIdCount = s.nIdCount := rfl

theorem nIdCount_reenter (x : NewSlot) : (s.reenter x nId).nIdCount = s.nIdCount := rfl

theorem nIdCount_promote (x : TriedSlot) : (s.promote x nId).nIdCount = s.nIdCount := rfl

theorem nIdCount_makeRoom {x} (h : s.makeRoom P x = some t) : t.nIdCount = s.nIdCount := by
  unfold makeRoom evict at h
  grind [bind_eq_some_iff,nIdCount_reenter,nIdCount_demote,→ nIdCount_clearNew]

theorem nIdCount_enterTried (h : s.enterTried P nId = some t) : t.nIdCount = s.nIdCount := by
  grind [enterTried,bind_eq_some_iff,nIdCount_promote,→ nIdCount_makeRoom]

theorem nIdCount_makeTried (h : s.makeTried P nId = some t) : t.nIdCount = s.nIdCount := by
  rw [nIdCount_enterTried h,nIdCount_uncountNew,nIdCount_leaveBuckets]

theorem nIdCount_good {addr nTime nRnd} (h : s.good P addr nTime nRnd = some t) :
    t.nIdCount = s.nIdCount := by
  grind [good,nIdCount_update,→ nIdCount_makeTried]

theorem nIdCount_place {source nNow} (h : s.place P nId source nNow = some t) :
    t.nIdCount = s.nIdCount := by
  grind [place,map_eq_some_iff,touch,nIdCount_update,ref,→ nIdCount_clearNew,→ nIdCount_delete]

theorem nIdCount_gather {nRnd nNow nNodes k n vAddr r}
    (h : gather nRnd nNow nNodes k n vAddr s = some r) : r.2.nIdCount = s.nIdCount := by
  induction k generalizing n vAddr s with
  | zero => grind [gather]
  | succ k ih => grind [gather,bind_eq_some_iff,→ nIdCount_swapRandom]

/-- The call makes a new entry: it adds a routable address that is not known. -/
def CAddrMan.creates (s : CAddrMan) : AddrManCall → Bool
  | .add addr _ _ _ _ _ => NetAddress.isRoutable addr.ip && (s.find addr.ip).isNone
  | _ => false

theorem nIdCount_createNew {addr source nTimePenalty} :
    (s.createNew addr source nTimePenalty).nIdCount = nextId s.nIdCount := rfl

theorem nIdCount_call {c} (h : s.call P c = some t) :
    t.nIdCount = if s.creates c then nextId s.nIdCount else s.nIdCount := by
  cases c with
  | add addr source nTimePenalty nNow nNow' nRnd =>
    obtain ⟨r,hr,rfl⟩ := map_eq_some_iff.mp h
    unfold add at hr
    grind [map_eq_some_iff,creates,nIdCount_update,→ nIdCount_place,nIdCount_createNew]
  | good addr nTime nRnd => exact nIdCount_good h
  | attempt addr nTime => grind [call,attempt,creates,nIdCount_update]
  | connected addr nTime => grind [call,connected,creates,nIdCount_update]
  | select nRnd tried new => grind [call,creates,map_eq_some_iff]
  | getAddr nRnd nNow => grind [call,getAddr,map_eq_some_iff,creates,→ nIdCount_gather]

/-- How many entries a sequence of calls makes. -/
def CAddrMan.created (P : Params) : CAddrMan → List AddrManCall → ℕ
  | _, [] => 0
  | s, c::calls =>
    (if s.creates c then 1 else 0)+((s.call P c).map fun t => CAddrMan.created P t calls).getD 0

end

section

variable {P : Params} {d : ℤ} {e : Set ℤ} {t : CAddrMan}

structure Leaves (x : Option ℤ) (s t : CAddrMan) : Prop where
  nKey : t.nKey = s.nKey
  vvTried : t.vvTried = s.vvTried
  entries : ∀ j : ℤ, some j ≠ x → (t.mapInfo[j]?).map CAddrInfo.base = (s.mapInfo[j]?).map CAddrInfo.base

theorem Agrees.swapRandom (h : Agrees P d e s) {p q : ℕ} (hp : p < s.vRandom.length)
    (hq : q < s.vRandom.length) :
    ∃ t, s.swapRandom p q = some t ∧ Swapped s t p q ∧ Agrees P d e t := by
  obtain ⟨t,ht,hsw⟩ := swapRandom_spec h.indexes hp hq
  have htables := h.tables.congr hsw.entries.seen
  have hcounts := h.counts.congr hsw.entries.seen
  rw [← hsw.nKey,← hsw.vvTried,← hsw.vvNew] at htables
  rw [← hsw.nTried,← hsw.nNew] at hcounts
  refine ⟨t,ht,hsw,hsw.indexes,htables,hcounts,fun j infoJ hj => ?_⟩
  obtain ⟨infoS,hjS,heqS⟩ := hsw.entries.seen.exists hj
  obtain ⟨-,hr,ht⟩ := seen_inj heqS
  rw [← hr,← ht]
  exact h.referenced j infoS hjS

theorem Agrees.delete (h : Agrees P d e s) (hi : s.mapInfo[nId]? = some info)
    (hnew : info.fInTried = false) (href : info.nRefCount = 0) :
    ∃ t, s.delete nId = some t ∧ Agrees P d (e\{nId}) t ∧ Leaves (some nId) s t ∧
      t.vvNew = s.vvNew := by
  have hlt := h.indexes.pos_lt hi
  obtain ⟨t,ht,hsw,htA⟩ := h.swapRandom hlt (show s.vRandom.length-1 < s.vRandom.length by omega)
  obtain ⟨info',hi',heq⟩ := hsw.entries.symm.exists hi
  have hlast : info'.nRandomPos = t.vRandom.length-1 := by
    obtain ⟨info'',hi'',hpos⟩ := hsw.indexes.random _ _ (hsw.second.trans (h.indexes.position nId info hi))
    rw [some.inj (hi'.symm.trans hi''),hpos,hsw.length]
  have hip : info'.ip = info.ip := congrArg (fun i => i.ip) heq
  obtain ⟨-,href',hnew'⟩ := seen_inj (congrArg CAddrInfo.seen heq : info'.base.seen = info.base.seen)
  have hnonempty : s.vRandom ≠ [] := ne_nil_of_length_pos (by omega)
  refine ⟨t.dropLast nId info.ip,by simp [CAddrMan.delete,hi,hnew,href,hnonempty,ht],
    ⟨?_,htA.tables.erase hi' (hnew'.trans hnew) (href'.trans href),?_,?_⟩,⟨hsw.nKey,hsw.vvTried,?_⟩,hsw.vvNew⟩
  · have hindexes := htA.indexes.erase hi' hlast
    rwa [hip] at hindexes
  · have herase := htA.counts.erase hi' (hnew'.trans hnew)
    rwa [show t.nNew+d-1 = t.nNew-1+d by ring] at herase
  · intro j infoJ hj hje
    rw [CAddrMan.dropLast,getElem?_erase_eq] at hj
    split_ifs at hj with hne
    exact htA.referenced j infoJ hj fun he => hje ⟨he,fun heq => hne (Set.mem_singleton_iff.mp heq).symm⟩
  · intro j hj
    rw [CAddrMan.dropLast,getElem?_erase_eq,if_neg fun h => hj (congrArg some h.symm)]
    exact hsw.entries j

theorem vvNew_unref (x : NewSlot) : (s.unref x nId).vvNew = update s.vvNew x none := rfl

theorem getElem?_unref (hi : s.mapInfo[nId]? = some info) (x : NewSlot) :
    (s.unref x nId).mapInfo[nId]? = some { info with nRefCount := info.nRefCount-1 } := by
  rw [CAddrMan.unref,CAddrMan.update,getElem?_modify,if_pos rfl,hi]
  rfl

theorem getElem?_update (hi : s.mapInfo[nId]? = some info) (f) :
    (s.update nId f).mapInfo[nId]? = some (f info) := by
  rw [CAddrMan.update,getElem?_modify,if_pos rfl,hi]
  rfl

variable {j : ℤ}

theorem getElem?_update_of_ne (hj : j ≠ nId) (f) :
    (s.update nId f).mapInfo[j]? = s.mapInfo[j]? := by
  rw [CAddrMan.update,getElem?_modify,if_neg hj.symm]

theorem Agrees.recount (h : Agrees P d e s) (nNew d') (heq : nNew+d' = s.nNew+d) :
    Agrees P d' e { s with nNew := nNew } :=
  ⟨h.indexes,h.tables,by rw [heq]; exact h.counts,h.referenced⟩

theorem Agrees.mono {e'} (h : Agrees P d e s) (he : e ⊆ e') : Agrees P d e' s :=
  ⟨h.indexes,h.tables,h.counts,fun j i hj hje => h.referenced j i hj fun hmem => hje (he hmem)⟩

theorem Agrees.settle (h : Agrees P d e s) (hi : s.mapInfo[nId]? = some info)
    (hpos : 0 < info.nRefCount) :
    Agrees P d (e\{nId}) s := by
  refine ⟨h.indexes,h.tables,h.counts,fun j i hj hje hnew => ?_⟩
  by_cases hjn : j = nId
  · subst hjn
    rwa [some.inj (hj.symm.trans hi)]
  · exact h.referenced j i hj (fun hmem => hje ⟨hmem,hjn⟩) hnew

theorem Agrees.update (h : Agrees P d e s)
    (hl : ∀ i, s.mapInfo[nId]? = some i → (f i).located = i.located)
    (hs : ∀ i, s.mapInfo[nId]? = some i → (f i).seen = i.seen) : Agrees P d e (s.update nId f) := by
  have hsame : SameBy CAddrInfo.seen s.mapInfo (s.update nId f).mapInfo := sameBy_modify hs
  refine ⟨h.indexes.congr (sameBy_modify hl),h.tables.congr hsame,h.counts.congr hsame,fun j i hj => ?_⟩
  obtain ⟨i',hj',heq⟩ := hsame.exists hj
  obtain ⟨-,hr,ht⟩ := seen_inj heq
  rw [← hr,← ht]
  exact h.referenced j i' hj'

theorem leaves_modify {nNew nTried} :
    Leaves (some nId) s { s with mapInfo := s.mapInfo.modify nId f, vvNew := vvNew, nNew := nNew, nTried := nTried } := by
  refine ⟨rfl,rfl,fun j hj => ?_⟩
  rw [getElem?_modify,if_neg fun heq => hj (congrArg some heq.symm)]

theorem Agrees.referenced_modify (h : Agrees P d e s) (hi : s.mapInfo[nId]? = some info) {i}
    (hj : (s.mapInfo.modify nId f)[j]? = some i) (hje : j ∉ insert nId e)
    (hnew : i.fInTried = false) : 0 < i.nRefCount := by
  obtain ⟨rfl,-⟩ | ⟨-,hj⟩ := modify_cases hi hj
  · exact absurd (Set.mem_insert j e) hje
  · exact h.referenced j i hj (fun hmem => hje (Set.mem_insert_of_mem nId hmem)) hnew

theorem Agrees.unref (h : Agrees P d e s) (hi : s.mapInfo[nId]? = some info) {x}
    (hx : s.vvNew x = some nId) : Agrees P d (insert nId e) (s.unref x nId) := by
  have hnew : info.fInTried = false := by
    obtain ⟨i,hi',hnew,-⟩ := h.tables.new x nId hx
    rwa [some.inj (hi.symm.trans hi')]
  have hlocated : SameBy CAddrInfo.located s.mapInfo (s.unref x nId).mapInfo :=
    sameBy_modify (f := fun i => { i with nRefCount := i.nRefCount-1 }) (fun _ _ => rfl)
  refine ⟨h.indexes.congr hlocated,h.tables.clear hi ?_ hx,h.counts.modify_same hi rfl,
    fun j i hj hje => h.referenced_modify hi hj hje⟩
  simp [CAddrInfo.seen,hnew]

theorem Agrees.clearNew (h : Agrees P d e s) (x : NewSlot) :
    ∃ t, s.clearNew x = some t ∧ Agrees P d e t ∧ Leaves (s.vvNew x) s t ∧
      t.vvNew = Function.update s.vvNew x none := by
  cases hx : s.vvNew x with
  | none =>
    refine ⟨s,by simp [CAddrMan.clearNew,hx],h,⟨rfl,rfl,fun _ _ => rfl⟩,?_⟩
    rw [← hx,update_eq_self]
  | some nId =>
    obtain ⟨info,hi,hnew,-⟩ := h.tables.new x nId hx
    have hpos : 0 < info.nRefCount := by
      have hcard := card_held_pos hx
      have href := (h.tables.references nId info hi).1
      omega
    have hunref := h.unref hi hx
    have hi' := getElem?_unref hi x
    have hleaves : Leaves (some nId) s (s.unref x nId) := leaves_modify
    have hsub : insert nId e\{nId} ⊆ e := Set.sdiff_singleton_subset_iff.mpr subset_rfl
    by_cases hlast : info.nRefCount-1 = 0
    · obtain ⟨t,ht,htA,htL,htN⟩ := hunref.delete hi' hnew hlast
      exact ⟨t,by simp [CAddrMan.clearNew,hx,hi,hpos,hlast,ht],htA.mono hsub,
        ⟨htL.nKey,htL.vvTried,fun j hj => (htL.entries j hj).trans (hleaves.entries j hj)⟩,htN⟩
    · refine ⟨s.unref x nId,by simp [CAddrMan.clearNew,hx,hi,hpos,hlast],(hunref.settle hi' ?_).mono hsub,hleaves,rfl⟩
      show 0 < info.nRefCount-1
      omega

theorem Agrees.ref_nonneg (h : Agrees P d e s) (hi : s.mapInfo[nId]? = some info) :
    0 ≤ info.nRefCount := by
  have href := (h.tables.references nId info hi).1
  omega

/-- A free slot of an entry is filled; the references are set as the new count needs it. -/
theorem Agrees.put (h : Agrees P d e s) (hi : s.mapInfo[nId]? = some info)
    (hnew : info.fInTried = false) {x}
    (hx : s.vvNew x = none) (hpos : x.2 = getBucketPosition P s.nKey info.toCService true x.1)
    (hlim : info.nRefCount < ADDRMAN_NEW_BUCKETS_PER_ADDRESS) (hl : ∀ i, (f i).located = i.located)
    (hf : (f info).seen = (info.toCService,info.nRefCount+1,false)) :
    Agrees P d (e\{nId}) { s.update nId f with vvNew := Function.update s.vvNew x (some nId) } := by
  obtain ⟨-,hr,ht⟩ := Prod.mk.inj hf |>.imp id Prod.mk.inj
  have hall : Agrees P d (insert nId e) { s.update nId f with vvNew := Function.update s.vvNew x (some nId) } :=
    ⟨h.indexes.congr (sameBy_modify fun i _ => hl i),h.tables.put hi hf hnew hx hpos hlim,
      h.counts.modify_same hi (ht.trans hnew.symm),fun j i hj hje => h.referenced_modify hi hj hje⟩
  have hi' := getElem?_update hi f
  have hnonneg := h.ref_nonneg hi
  have hput := hall.settle hi' (by omega)
  rwa [Set.insert_sdiff_of_mem e (Set.mem_singleton nId)] at hput

structure Leaving (nId : ℤ) (s t : CAddrMan) : Prop where
  leaves : Leaves (some nId) s t
  entry : (t.mapInfo[nId]?).map (fun i => (i.toCService,i.fInTried)) =
    (s.mapInfo[nId]?).map fun i => (i.toCService,i.fInTried)
  slots : ∀ y, t.vvNew y = some nId → s.vvNew y = some nId

theorem Leaving.trans {u} (h : Leaving nId s t) (h' : Leaving nId t u) : Leaving nId s u where
  leaves := ⟨h'.leaves.nKey.trans h.leaves.nKey,h'.leaves.vvTried.trans h.leaves.vvTried,
    fun j hj => (h'.leaves.entries j hj).trans (h.leaves.entries j hj)⟩
  entry := h'.entry.trans h.entry
  slots := fun y hy => h.slots y (h'.slots y hy)

theorem slotMark_of_nonneg (h : 0 ≤ nId) : slotMark nId = some nId := if_neg (by omega)

theorem Agrees.slotMark (h : Agrees P d e s) (hi : s.mapInfo[nId]? = some info) :
    slotMark nId = some nId :=
  slotMark_of_nonneg (h.indexes.fresh nId info hi).1

theorem Leaving.refl : Leaving nId s s := ⟨⟨rfl,rfl,fun _ _ => rfl⟩,rfl,fun _ hy => hy⟩

theorem Tables.slot_eq (h : Tables P nKey m vvTried vvNew) (hi : m[nId]? = some info) {y}
    (hy : vvNew y = some nId) : y = (y.1,getBucketPosition P nKey info.toCService true y.1) := by
  obtain ⟨i,hi',-,hpos⟩ := h.new y nId hy
  rw [some.inj (hi.symm.trans hi'),← hpos]

theorem Agrees.leaveBucket (h : Agrees P d e s) (he : nId ∈ e) (b) :
    Agrees P d e (CAddrMan.leaveBucket P nId s b) ∧ Leaving nId s (CAddrMan.leaveBucket P nId s b) ∧
      ∀ y : NewSlot, y.1 = b → (CAddrMan.leaveBucket P nId s b).vvNew y ≠ some nId := by
  cases hi : s.mapInfo[nId]? with
  | none =>
    rw [show CAddrMan.leaveBucket P nId s b = s by simp [CAddrMan.leaveBucket,hi]]
    refine ⟨h,.refl,fun y _ hy => ?_⟩
    obtain ⟨i,hi',-⟩ := h.tables.new y nId hy
    cases hi.symm.trans hi'
  | some info =>
    obtain ⟨x,hx⟩ : ∃ x : NewSlot, x = (b,getBucketPosition P s.nKey info.toCService true b) := ⟨_,rfl⟩
    have hleave : CAddrMan.leaveBucket P nId s b = if s.vvNew x = some nId then s.unref x nId else s := by
      simp only [CAddrMan.leaveBucket,hi,hx,h.slotMark hi]
    have hslot : ∀ y, y.1 = b → s.vvNew y = some nId → y = x := by
      rintro y rfl hy
      rw [hx]
      exact h.tables.slot_eq hi hy
    by_cases hc : s.vvNew x = some nId
    · rw [hleave,if_pos hc]
      have hunref := h.unref hi hc
      rw [Set.insert_eq_of_mem he] at hunref
      refine ⟨hunref,⟨leaves_modify,?_,fun y hy => ?_⟩,fun y hb hy => ?_⟩
      · rw [getElem?_unref hi,hi]
        rfl
      all_goals
        have hyx : y ≠ x := by
          rintro rfl
          rw [vvNew_unref,update_self] at hy
          cases hy
        rw [vvNew_unref,update_of_ne hyx] at hy
      · exact hy
      · exact hyx (hslot y hb hy)
    · rw [hleave,if_neg hc]
      exact ⟨h,.refl,fun y hb hy => hc (hslot y hb hy ▸ hy)⟩

theorem Agrees.leaveEach (h : Agrees P d e s) (he : nId ∈ e)
    (l : List (Fin ADDRMAN_NEW_BUCKET_COUNT)) :
    Agrees P d e (l.foldl (CAddrMan.leaveBucket P nId) s) ∧
      Leaving nId s (l.foldl (CAddrMan.leaveBucket P nId) s) ∧
      ∀ y : NewSlot, y.1 ∈ l → (l.foldl (CAddrMan.leaveBucket P nId) s).vvNew y ≠ some nId := by
  induction l generalizing s with
  | nil => exact ⟨h,.refl,fun y hy => by cases hy⟩
  | cons b l ih =>
    obtain ⟨hb,hbL,hbN⟩ := h.leaveBucket he b
    obtain ⟨hl,hlL,hlN⟩ := ih hb
    refine ⟨hl,hbL.trans hlL,fun y hy => ?_⟩
    rcases mem_cons.mp hy with hyb | hyl
    · exact fun hheld => hbN y hyb (hlL.slots y hheld)
    · exact hlN y hyl

theorem Agrees.leaveBuckets (h : Agrees P d e s) (he : nId ∈ e) :
    Agrees P d e (s.leaveBuckets P nId) ∧ Leaving nId s (s.leaveBuckets P nId) ∧
      ∀ y, (s.leaveBuckets P nId).vvNew y ≠ some nId := by
  obtain ⟨hl,hlL,hlN⟩ := h.leaveEach he newBuckets
  exact ⟨hl,hlL,fun y => hlN y (newBuckets_eq ▸ mem_finRange y.1)⟩

theorem Agrees.demote (h : Agrees P d e s) (hi : s.mapInfo[nId]? = some info)
    (htried : info.fInTried) :
    Agrees P (d+1) (insert nId e) (s.demote (triedSlot P s.nKey info.toCService) nId) := by
  have hlocated : SameBy CAddrInfo.located s.mapInfo
      (s.demote (triedSlot P s.nKey info.toCService) nId).mapInfo :=
    sameBy_modify (f := fun i => { i with fInTried := false }) (fun _ _ => rfl)
  have hcounts := h.counts.modify (f := fun i => { i with fInTried := false }) hi
  rw [if_neg Bool.false_ne_true,if_neg Bool.false_ne_true,if_pos htried,if_pos htried] at hcounts
  refine ⟨h.indexes.congr hlocated,h.tables.untry hi rfl htried,?_,
    fun j i hj hje => h.referenced_modify hi hj hje⟩
  rwa [add_zero,sub_zero,add_assoc] at hcounts

theorem Agrees.promote (h : Agrees P (d+1) e s) (hi : s.mapInfo[nId]? = some info)
    (hnew : info.fInTried = false)
    (href : info.nRefCount = 0) (hx : s.vvTried (triedSlot P s.nKey info.toCService) = none) :
    Agrees P d (e\{nId}) (s.promote (triedSlot P s.nKey info.toCService) nId) := by
  have hlocated : SameBy CAddrInfo.located s.mapInfo
      (s.promote (triedSlot P s.nKey info.toCService) nId).mapInfo :=
    sameBy_modify (f := fun i => { i with fInTried := true }) (fun _ _ => rfl)
  have hcounts := h.counts.modify (f := fun i => { i with fInTried := true }) hi
  rw [if_pos rfl,if_pos rfl,hnew,if_neg Bool.false_ne_true,if_neg Bool.false_ne_true] at hcounts
  have htables := h.tables.try (f := fun i => { i with fInTried := true }) hi rfl hnew href hx
  rw [← h.slotMark hi] at htables
  refine ⟨h.indexes.congr hlocated,htables,?_,fun j i hj hje hnew' => ?_⟩
  · rwa [sub_zero,add_zero,add_sub_assoc,add_sub_cancel_right] at hcounts
  · obtain ⟨rfl,rfl⟩ | ⟨hne,hj⟩ := modify_cases hi hj
    · cases hnew'
    · exact h.referenced j i hj (fun hmem => hje ⟨hmem,hne⟩) hnew'

theorem Leaves.getElem? {x} (h : Leaves x s t) (hi : s.mapInfo[nId]? = some info)
    (hx : some nId ≠ x) :
    ∃ info', t.mapInfo[nId]? = some info' ∧ info'.base = info.base := by
  have hentry := h.entries nId hx
  rw [hi,map_some,map_eq_some_iff] at hentry
  exact hentry

theorem Tables.not_held (h : Tables P nKey m vvTried vvNew) (hi : m[nId]? = some info)
    (htried : info.fInTried) (y : NewSlot) : vvNew y ≠ some nId := by
  intro hy
  obtain ⟨i,hi',hnew,-⟩ := h.new y nId hy
  rw [← some.inj (hi.symm.trans hi'),htried] at hnew
  cases hnew

theorem Agrees.evict (h : Agrees P d e s) {x : TriedSlot} (hx : s.vvTried x = some nId) :
    ∃ t, s.evict P x nId = some t ∧ Agrees P d e t ∧ t.nKey = s.nKey ∧
      t.vvTried = Function.update s.vvTried x none ∧
      ∀ j : ℤ, j ≠ nId → (∀ y, s.vvNew y ≠ some j) →
        (t.mapInfo[j]?).map CAddrInfo.base = (s.mapInfo[j]?).map CAddrInfo.base := by
  obtain ⟨info,hi,htried,rfl⟩ := (h.tables.tried x nId).mp hx
  have hnone := h.tables.not_held hi htried
  have hzero : info.nRefCount = 0 := by
    rw [(h.tables.references nId info hi).1,held_eq_empty.mpr hnone]
    rfl
  obtain ⟨y,hy⟩ : ∃ y, y = newSlot P s.nKey info.toCService info.source := ⟨_,rfl⟩
  obtain ⟨u,hu,huA,huL,huN⟩ := (h.demote hi htried).clearNew y
  have hclear : u.vvNew y = none := by rw [huN,update_self]
  have hdemoted := getElem?_update hi fun i => { i with fInTried := false }
  obtain ⟨info',hi',hbase⟩ := huL.getElem? hdemoted fun heq => hnone y heq.symm
  obtain ⟨hs,hr,ht⟩ := seen_inj (congrArg CAddrInfo.seen hbase : info'.base.seen = _)
  have hs' : info'.toCService = info.toCService := hs
  have hzero' : info'.nRefCount = 0 := hr.trans hzero
  have hput := huA.put (f := fun i => { i with nRefCount := 1 }) hi' ht hclear ?_ ?_ (fun _ => rfl) ?_
  · rw [← huA.slotMark hi'] at hput
    refine ⟨u.reenter y nId,?_,?_,huL.nKey,huL.vvTried,fun j hj hheld => ?_⟩
    · simp [CAddrMan.evict,hi,← hy,hu,hclear]
    · refine (hput.recount (u.nNew+1) d ?_).mono (Set.sdiff_singleton_subset_iff.mpr subset_rfl)
      show u.nNew+1+d = u.nNew+(d+1)
      ring
    · have hlast : (u.reenter y nId).mapInfo[j]? = u.mapInfo[j]? := getElem?_update_of_ne hj _
      have hfirst : (s.demote (triedSlot P s.nKey info.toCService) nId).mapInfo[j]? = s.mapInfo[j]? :=
        getElem?_update_of_ne hj _
      rw [hlast,huL.entries j fun heq => hheld y heq.symm,hfirst]
  · rw [huL.nKey,hs',hy]
    rfl
  · rw [hzero']
    decide
  · rw [hzero']
    simp [CAddrInfo.seen,show info'.fInTried = false from ht]

theorem Agrees.makeRoom (h : Agrees P d e s) (hi : s.mapInfo[nId]? = some info)
    (hnew : info.fInTried = false) (hnone : ∀ y, s.vvNew y ≠ some nId) :
    ∃ t, s.makeRoom P (triedSlot P s.nKey info.toCService) = some t ∧ Agrees P d e t ∧
      t.nKey = s.nKey ∧
      t.vvTried (triedSlot P s.nKey info.toCService) = none ∧
      ∃ info', t.mapInfo[nId]? = some info' ∧ info'.base = info.base := by
  unfold CAddrMan.makeRoom
  cases hx : s.vvTried (triedSlot P s.nKey info.toCService) with
  | none => exact ⟨s,rfl,h,rfl,hx,info,hi,rfl⟩
  | some k =>
    have hne : nId ≠ k := by
      rintro rfl
      obtain ⟨i,hi',htried,-⟩ := (h.tables.tried _ nId).mp hx
      rw [← some.inj (hi.symm.trans hi'),hnew] at htried
      cases htried
    obtain ⟨t,ht,htA,htKey,htTried,htL⟩ := h.evict hx
    refine ⟨t,ht,htA,htKey,by rw [htTried,update_self],?_⟩
    have hentry := htL nId hne hnone
    rwa [hi,map_some,map_eq_some_iff] at hentry

theorem Agrees.enterTried (h : Agrees P (d+1) e s) (hi : s.mapInfo[nId]? = some info)
    (hnew : info.fInTried = false)
    (hnone : ∀ y, s.vvNew y ≠ some nId) :
    ∃ t, s.enterTried P nId = some t ∧ Agrees P d (e\{nId}) t := by
  have hzero : info.nRefCount = 0 := by
    rw [(h.tables.references nId info hi).1,held_eq_empty.mpr hnone]
    rfl
  obtain ⟨t,ht,htA,htKey,htTried,info',hi',hbase⟩ := h.makeRoom hi hnew hnone
  obtain ⟨hs,hr,hf⟩ := seen_inj (congrArg CAddrInfo.seen hbase : info'.base.seen = info.base.seen)
  have hpromote := htA.promote hi' ((show info'.fInTried = info.fInTried from hf).trans hnew)
    ((show info'.nRefCount = info.nRefCount from hr).trans hzero)
  rw [htKey,show info'.toCService = info.toCService from hs] at hpromote
  exact ⟨_,by simp [CAddrMan.enterTried,hi,hzero,ht,htTried],hpromote htTried⟩

theorem Leaving.enterTried (h : Leaving nId s t) (ht : Agrees P 0 {nId} t)
    (hnone : ∀ y, t.vvNew y ≠ some nId)
    (hi : s.mapInfo[nId]? = some info) (hnew : info.fInTried = false) :
    ∃ u, t.uncountNew.enterTried P nId = some u ∧ u.Consistent P := by
  obtain ⟨info',hi',heq⟩ : ∃ i, t.mapInfo[nId]? = some i ∧
    (i.toCService,i.fInTried) = (info.toCService,info.fInTried) := by
    have hentry := h.entry
    rwa [hi,map_some,map_eq_some_iff] at hentry
  have hv : Agrees P (0+1) {nId} t.uncountNew := ht.recount _ _ (by ring)
  obtain ⟨u,hu,huA⟩ := hv.enterTried hi' ((Prod.mk.inj heq).2.trans hnew) hnone
  rw [Set.sdiff_self] at huA
  exact ⟨u,hu,huA⟩

theorem CAddrMan.Consistent.makeTried (h : s.Consistent P) (hi : s.mapInfo[nId]? = some info)
    (hnew : info.fInTried = false) : ∃ t, s.makeTried P nId = some t ∧ t.Consistent P := by
  have hall : Agrees P 0 {nId} s := h.mono (Set.empty_subset {nId})
  obtain ⟨huA,huL,hnone⟩ := hall.leaveBuckets rfl
  exact huL.enterTried huA hnone hi hnew

theorem touch_of_mem (hi : s.mapInfo[nId]? = some info) : s.touch nId = s := by
  have hmap : s.mapInfo.insertIfNew nId .blank = s.mapInfo := by
    apply Std.ExtTreeMap.ext_getElem?
    intro j
    rw [Std.ExtTreeMap.getElem?_insertIfNew,if_neg]
    rintro ⟨-,hnot⟩
    rw [Std.ExtTreeMap.mem_iff_isSome_getElem?,hi] at hnot
    exact hnot rfl
  rw [CAddrMan.touch,hmap]

/-- A new entry that may lack a slot gets one, or is deleted if it has none. -/
theorem Agrees.place (h : Agrees P 0 {nId} s) (hi : s.mapInfo[nId]? = some info)
    (hnew : info.fInTried = false)
    (hlim : info.nRefCount < ADDRMAN_NEW_BUCKETS_PER_ADDRESS) (source : CNetAddr) (nNow) :
    ∃ t, s.place P nId source nNow = some t ∧ t.Consistent P := by
  have hset : ({nId} : Set ℤ)\{nId} = ∅ := Set.sdiff_self
  obtain ⟨x,hx⟩ : ∃ x, x = newSlot P s.nKey info.toCService source := ⟨_,rfl⟩
  have hinsert : s.vvNew x ≠ some nId → ∃ t, (s.clearNew x).map (fun s => s.ref x nId) = some t ∧
      t.Consistent P := by
    intro hne
    obtain ⟨u,hu,huA,huL,huN⟩ := h.clearNew x
    obtain ⟨info',hi',hbase⟩ := huL.getElem? hi hne.symm
    obtain ⟨hs,hr,ht⟩ := seen_inj (congrArg CAddrInfo.seen hbase : info'.base.seen = info.base.seen)
    have hs' : info'.toCService = info.toCService := hs
    have hput := huA.put (f := fun i => { i with nRefCount := i.nRefCount+1 }) hi' (ht.trans hnew)
      (by rw [huN,update_self]) (by rw [huL.nKey,hs',hx]; rfl) (lt_of_eq_of_lt hr hlim) (fun _ => rfl)
      (by simp [CAddrInfo.seen,show info'.fInTried = false from ht.trans hnew])
    rw [hset,← huA.slotMark hi'] at hput
    exact ⟨u.ref x nId,by rw [hu,map_some],hput⟩
  unfold CAddrMan.place
  simp only [hi,← hx,h.slotMark hi]
  by_cases heq : s.vvNew x = some nId
  · rw [if_pos heq]
    have hcard := card_held_pos heq
    have href := (h.tables.references nId info hi).1
    have hsettled := h.settle hi (by omega)
    rw [hset] at hsettled
    exact ⟨s,rfl,hsettled⟩
  rw [if_neg heq]
  cases hslot : s.vvNew x with
  | none => exact hinsert heq
  | some k =>
    obtain ⟨infoK,hk,-⟩ := h.tables.new x k hslot
    simp only [touch_of_mem hk]
    split_ifs with hbetter hzero
    · exact hinsert heq
    · obtain ⟨t,ht,htA,-⟩ := h.delete hi hnew hzero
      rw [hset] at htA
      exact ⟨t,ht,htA⟩
    · have hnonneg := h.ref_nonneg hi
      have hsettled := h.settle hi (by omega)
      rw [hset] at hsettled
      exact ⟨s,rfl,hsettled⟩

theorem nextId_of_fits (hlow : 0 ≤ nId) (hhigh : nId+1 < 2^31) : nextId nId = nId+1 :=
  Int.bmod_eq_of_le (by omega) (by omega)

theorem CAddrMan.Consistent.create (h : s.Consistent P) {addr} (ha : s.mapAddr[addr.ip]? = none)
    (source : CNetAddr) (hlow : 0 ≤ s.nIdCount) (hhigh : s.nIdCount+1 < 2^31) :
    Agrees P 1 {s.nIdCount} (s.create addr source) := by
  have hn := h.indexes.not_mem
  have hlt : s.nIdCount < nextId s.nIdCount := by
    rw [nextId_of_fits hlow hhigh]
    omega
  have hcounts : Counts (s.create addr source).mapInfo s.nTried (s.nNew+0+1) := h.counts.insert hn rfl
  refine ⟨h.indexes.insert ha rfl hlow hlt,h.tables.insert hn rfl rfl,?_,fun j i hj hje hnew => ?_⟩
  · rwa [add_zero] at hcounts
  · rw [CAddrMan.create,getElem?_insert_eq,if_neg fun heq => hje heq.symm] at hj
    exact h.referenced j i hj (Set.notMem_empty j) hnew

theorem Indexes.find {a} (h : Indexes s.mapInfo s.mapAddr s.vRandom s.nIdCount)
    (hf : s.find a = some (nId,info)) : s.mapInfo[nId]? = some info ∧ info.ip = a := by
  obtain ⟨k,hk,hi⟩ := bind_eq_some_iff.mp hf
  obtain ⟨i,hki,heq⟩ := map_eq_some_iff.mp hi
  obtain ⟨rfl,rfl⟩ := Prod.mk.inj heq
  obtain ⟨i',hi',hip⟩ := (h.addr a k).mp hk
  rw [some.inj (hki.symm.trans hi')]
  exact ⟨hi',hip⟩

theorem Indexes.find_none {a} (h : Indexes s.mapInfo s.mapAddr s.vRandom s.nIdCount)
    (hf : s.find a = none) : s.mapAddr[a]? = none := by
  cases hk : s.mapAddr[a]? with
  | none => rfl
  | some k =>
    obtain ⟨i,hi,-⟩ := (h.addr a k).mp hk
    rw [CAddrMan.find,hk,bind_some,hi] at hf
    cases hf

theorem CAddrMan.Consistent.good (h : s.Consistent P) (addr nTime nRnd) :
    ∃ t, s.good P addr nTime nRnd = some t ∧ t.Consistent P := by
  unfold CAddrMan.good
  split
  case h_1 => exact ⟨s,rfl,h⟩
  case h_2 nId info hf =>
    obtain ⟨hi,-⟩ := h.indexes.find hf
    have hupdate : (s.update nId fun i => { i with nLastSuccess := nTime, nLastTry := nTime, nAttempts := 0 }).Consistent P :=
      Agrees.update h (fun _ _ => rfl) fun _ _ => rfl
    split_ifs with hsame htried
    · exact ⟨s,rfl,h⟩
    · exact ⟨_,rfl,hupdate⟩
    · dsimp only
      split
      · exact hupdate.makeTried (getElem?_update hi _) (Bool.eq_false_iff.mpr htried)
      · exact ⟨_,rfl,hupdate⟩

theorem CAddrMan.Consistent.attempt (h : s.Consistent P) (addr nTime) :
    (s.attempt addr nTime).Consistent P := by
  unfold CAddrMan.attempt
  split
  case h_1 => exact h
  case h_2 nId info hf =>
    split_ifs
    · exact h
    · exact Agrees.update h (fun _ _ => rfl) fun _ _ => rfl

theorem CAddrMan.Consistent.connected (h : s.Consistent P) (addr nTime) :
    (s.connected addr nTime).Consistent P := by
  unfold CAddrMan.connected
  split
  case h_1 => exact h
  case h_2 nId info hf =>
    split_ifs
    · exact h
    · exact Agrees.update h (fun _ _ => rfl) fun _ _ => rfl
    · exact h

theorem CAddrMan.Consistent.add (h : s.Consistent P) (hlow : 0 ≤ s.nIdCount) {addr : CAddress}
    (hhigh : NetAddress.isRoutable addr.ip → s.find addr.ip = none → s.nIdCount+1 < 2^31)
    (source : CNetAddr) (nTimePenalty nNow nNow' nRnd) :
    ∃ r, s.add P addr source nTimePenalty nNow nNow' nRnd = some r ∧ r.2.Consistent P := by
  unfold CAddrMan.add
  split_ifs with hroute
  · exact ⟨_,rfl,h⟩
  rw [Bool.not_eq_true,Bool.not_eq_false'] at hroute
  split
  case h_1 nId info hf =>
    obtain ⟨hi,-⟩ := h.indexes.find hf
    have hself : ∀ i, s.mapInfo[nId]? = some i → i = info := fun i hi' => some.inj (hi'.symm.trans hi)
    have hupdate : (s.update nId fun _ => info.refresh addr nTimePenalty nNow).Consistent P :=
      Agrees.update h (fun i hi' => by rw [hself i hi']; rfl) fun i hi' => by rw [hself i hi']; rfl
    dsimp only
    split_ifs with hnews htried hmax
    · exact ⟨_,rfl,hupdate⟩
    · exact ⟨_,rfl,hupdate⟩
    · exact ⟨_,rfl,hupdate⟩
    · exact ⟨_,rfl,hupdate⟩
    · have hi' := getElem?_update hi fun _ => info.refresh addr nTimePenalty nNow
      have hlim := (hupdate.tables.references nId _ hi').2
      obtain ⟨t,ht,htC⟩ := (hupdate.mono (Set.empty_subset {nId})).place hi' (Bool.eq_false_iff.mpr htried)
        (lt_of_le_of_ne hlim hmax) source nNow'
      exact ⟨(false,t),by rw [ht,map_some],htC⟩
  case h_2 hf =>
    have hcreate := h.create (h.indexes.find_none hf) source hlow (hhigh hroute hf)
    have hget : (s.create addr source).mapInfo[s.nIdCount]? =
        some { CAddrInfo.init addr source with nRandomPos := s.vRandom.length } := by
      rw [CAddrMan.create,getElem?_insert_eq,if_pos rfl]
    have hupdate : Agrees P 1 {s.nIdCount} ((s.create addr source).update s.nIdCount fun i =>
        { i with nTime := (max 0 (Int64.ofNat i.nTime.toNat-nTimePenalty)).toUInt64.toUInt32 }) :=
      hcreate.update (fun _ _ => rfl) fun _ _ => rfl
    have hnew : Agrees P 0 {s.nIdCount} (s.createNew addr source nTimePenalty) :=
      hupdate.recount (s.nNew+1) 0 (add_zero _)
    have hlim : 0 < ADDRMAN_NEW_BUCKETS_PER_ADDRESS := by decide
    obtain ⟨t,ht,htC⟩ := hnew.place (getElem?_update hget _) rfl hlim source nNow'
    exact ⟨(true,t),by rw [ht,map_some],htC⟩

theorem pick_isSome {ι : Type} {table}
    (h : ∀ x (nId : ℤ), table x = some nId → s.mapInfo[nId]?.isSome)
    (choices : List (ι × Bool)) : ∃ r, s.pick table choices = some r := by
  induction choices with
  | nil => exact ⟨none,rfl⟩
  | cons c l ih =>
    obtain ⟨x,accept⟩ := c
    unfold CAddrMan.pick
    cases hx : table x with
    | none => exact ih
    | some nId =>
      obtain ⟨info,hi⟩ := isSome_iff_exists.mp (h x nId hx)
      simp only [hi]
      split_ifs
      · exact ⟨_,rfl⟩
      · exact ih

theorem CAddrMan.Consistent.select (h : s.Consistent P) (nRnd : ℕ) (tried new) :
    ∃ r, s.select nRnd tried new = some r := by
  unfold CAddrMan.select
  split_ifs
  · exact ⟨_,rfl⟩
  · refine pick_isSome (fun x nId hx => ?_) tried
    obtain ⟨info,hi,-⟩ := (h.tables.tried x nId).mp hx
    exact isSome_iff_exists.mpr ⟨info,hi⟩
  · refine pick_isSome (fun x nId hx => ?_) new
    obtain ⟨info,hi,-⟩ := h.tables.new x nId hx
    exact isSome_iff_exists.mpr ⟨info,hi⟩

theorem CAddrMan.Consistent.gather {nRnd nNow nNodes k n} (vAddr) (h : s.Consistent P)
    (hn : n+k = s.vRandom.length) :
    ∃ r, gather nRnd nNow nNodes k n vAddr s = some r ∧ r.2.Consistent P := by
  induction k generalizing n vAddr s with
  | zero => exact ⟨_,rfl,h⟩
  | succ k ih =>
    unfold gather
    split_ifs
    · exact ⟨_,rfl,h⟩
    · have hmod : nRnd n%(s.vRandom.length-n) < s.vRandom.length-n := Nat.mod_lt _ (by omega)
      obtain ⟨t,ht,hsw,htC⟩ := Agrees.swapRandom h (show n < s.vRandom.length by omega)
        (show nRnd n%(s.vRandom.length-n)+n < s.vRandom.length by omega)
      have hlt : n < t.vRandom.length := by rw [hsw.length]; omega
      obtain ⟨ai,hai,-⟩ := htC.indexes.random n _ (getElem?_eq_getElem hlt)
      simp only [ht,bind_some,getElem?_eq_getElem hlt,hai]
      exact ih _ htC (by rw [hsw.length]; omega)

theorem CAddrMan.Consistent.call (h : s.Consistent P) (hlow : 0 ≤ s.nIdCount) (c)
    (hhigh : s.creates c → s.nIdCount+1 < 2^31) : ∃ t, s.call P c = some t ∧ t.Consistent P := by
  cases c with
  | add addr source nTimePenalty nNow nNow' nRnd =>
    have hnew : NetAddress.isRoutable addr.ip → s.find addr.ip = none → s.nIdCount+1 < 2^31 := by
      intro hroute hf
      exact hhigh (by rw [CAddrMan.creates,hroute,hf]; rfl)
    obtain ⟨r,hr,hrC⟩ := h.add hlow hnew source nTimePenalty nNow nNow' nRnd
    exact ⟨r.2,by rw [CAddrMan.call,hr,map_some],hrC⟩
  | good addr nTime nRnd => exact h.good addr nTime nRnd
  | attempt addr nTime => exact ⟨_,rfl,h.attempt addr nTime⟩
  | connected addr nTime => exact ⟨_,rfl,h.connected addr nTime⟩
  | select nRnd tried new =>
    obtain ⟨r,hr⟩ := h.select nRnd tried new
    exact ⟨s,by rw [CAddrMan.call,hr,map_some],h⟩
  | getAddr nRnd nNow =>
    obtain ⟨r,hr,hrC⟩ := h.gather [] (Nat.zero_add s.vRandom.length)
    exact ⟨r.2,by rw [CAddrMan.call,CAddrMan.getAddr,hr,map_some],hrC⟩

theorem CAddrMan.created_le (calls) : s.created P calls ≤ calls.length := by
  induction calls generalizing s with
  | nil => exact le_rfl
  | cons c calls ih =>
    rw [CAddrMan.created,length_cons,add_comm]
    refine Nat.add_le_add ?_ (by split_ifs <;> omega)
    cases s.call P c with
    | none => exact Nat.zero_le _
    | some t => exact ih

theorem CAddrMan.Consistent.run (h : s.Consistent P) (hlow : 0 ≤ s.nIdCount) {calls}
    (hhigh : s.nIdCount+s.created P calls < 2^31) :
    ∃ t, calls.foldlM (CAddrMan.call P) s = some t ∧ t.Consistent P := by
  induction calls generalizing s with
  | nil => exact ⟨s,rfl,h⟩
  | cons c calls ih =>
    obtain ⟨t,ht,htC⟩ := h.call hlow c fun hc => by
      rw [CAddrMan.created,if_pos hc] at hhigh
      omega
    have hcount := nIdCount_call ht
    rw [CAddrMan.created,ht,map_some,getD_some] at hhigh
    have hnext : t.nIdCount = s.nIdCount+if s.creates c then 1 else 0 := by
      rw [hcount]
      split_ifs with hc
      · exact nextId_of_fits hlow (by rw [if_pos hc] at hhigh; omega)
      · exact (add_zero _).symm
    obtain ⟨u,hu,huC⟩ := ih htC (by split_ifs at hnext <;> omega) (by split_ifs at hnext hhigh <;> omega)
    exact ⟨u,by rw [foldlM_cons,ht]; exact hu,huC⟩

theorem consistent_empty (nKey) : (CAddrMan.empty nKey).Consistent P := by
  have hnone : ∀ (j : ℤ) (i : CAddrInfo), (CAddrMan.empty nKey).mapInfo[j]? ≠ some i := by simp [CAddrMan.empty]
  have haddr : ∀ a : CNetAddr, (CAddrMan.empty nKey).mapAddr[a]? = none := by simp [CAddrMan.empty]
  refine ⟨⟨fun j i hj => absurd hj (hnone j i),fun n j hj => ?_,fun a j => ?_,
    fun j i hj => absurd hj (hnone j i)⟩,
    ⟨fun j i hj => absurd hj (hnone j i),fun x j hx => ?_,fun x j => ?_⟩,⟨?_,?_⟩,fun j i hj => absurd hj (hnone j i)⟩
  · cases hj
  · rw [haddr]
    exact iff_of_false (by simp) fun ⟨i,hi,_⟩ => hnone j i hi
  · cases hx
  · exact iff_of_false (fun hx => by cases hx) fun ⟨i,hi,_⟩ => hnone j i hi
  · rw [CAddrMan.empty,entrySum_empty]
  · rw [CAddrMan.empty,entrySum_empty,add_zero]

section

variable {addr : CAddress} {source : CNetAddr} {nTimePenalty nNow nNow' : Int64} {nRnd : ℕ} {k : ℤ}

open CAddrMan

theorem createNew_mapInfo : (s.createNew addr source nTimePenalty).mapInfo[s.nIdCount]? =
    some { CAddrInfo.init addr source with
      nRandomPos := s.vRandom.length
      nTime := (max 0 (Int64.ofNat addr.nTime.toNat-nTimePenalty)).toUInt64.toUInt32 } := by
  have hget : (s.create addr source).mapInfo[s.nIdCount]? =
      some { CAddrInfo.init addr source with nRandomPos := s.vRandom.length } := by
    rw [create,getElem?_insert_eq,if_pos rfl]
  exact getElem?_update hget _

/-- A new entry that is deleted at once leaves nothing behind but the next number. -/
theorem createNew_delete (ha : s.mapAddr[addr.ip]? = none) (hi : s.mapInfo[s.nIdCount]? = none) :
    (s.createNew addr source nTimePenalty).delete s.nIdCount =
      some { s with nIdCount := nextId s.nIdCount } := by
  have hmap : ((s.mapInfo.insert s.nIdCount
      { CAddrInfo.init addr source with nRandomPos := s.vRandom.length }).modify
      s.nIdCount fun i => { i with nTime := (max 0 (Int64.ofNat i.nTime.toNat-nTimePenalty)).toUInt64.toUInt32 }).erase
        s.nIdCount = s.mapInfo := by
    apply Std.ExtTreeMap.ext_getElem?
    intro j
    rw [getElem?_erase_eq,getElem?_modify,getElem?_insert_eq]
    split_ifs with hj
    · rw [← hj,hi]
    · rfl
  have haddr : (s.mapAddr.insert addr.ip s.nIdCount).erase addr.ip = s.mapAddr := by
    apply Std.ExtTreeMap.ext_getElem?
    intro a
    rw [getElem?_erase_eq,getElem?_insert_eq]
    split_ifs with hne
    · rw [← hne,ha]
    · rfl
  have hlast : (s.createNew addr source nTimePenalty).vRandom = s.vRandom++[s.nIdCount] := rfl
  rw [delete,createNew_mapInfo]
  simp only [CAddrInfo.init,hlast,length_append,length_singleton,Nat.add_sub_cancel,swapRandom,if_pos]
  simp [CAddrMan.dropLast,createNew,create,CAddrMan.update,hmap,haddr]

theorem createNew_mapInfo_of_ne {j : ℤ} (hj : j ≠ s.nIdCount) :
    (s.createNew addr source nTimePenalty).mapInfo[j]? = s.mapInfo[j]? := by
  have hget := getElem?_update_of_ne (s := s.create addr source) hj fun i =>
    { i with nTime := (max 0 (Int64.ofNat i.nTime.toNat-nTimePenalty)).toUInt64.toUInt32 }
  rw [create,getElem?_insert_eq,if_neg hj.symm] at hget
  exact hget

/-- A new address whose slot is taken by a good entry is refused, and its number is used up. -/
theorem add_refused (hroute : NetAddress.isRoutable addr.ip) (ha : s.mapAddr[addr.ip]? = none)
    (hi : s.mapInfo[s.nIdCount]? = none)
    (hk : s.vvNew (newSlot P s.nKey addr.toCService source) = some k)
    (hinfo : s.mapInfo[k]? = some info) (hgood : info.isTerrible nNow' = false)
    (href : info.nRefCount ≤ 1) :
    s.add P addr source nTimePenalty nNow nNow' nRnd =
      some (true,{ s with nIdCount := nextId s.nIdCount }) := by
  have hne : k ≠ s.nIdCount := by
    rintro rfl
    cases hi.symm.trans hinfo
  have hslot : (s.createNew addr source nTimePenalty).vvNew
      (newSlot P s.nKey addr.toCService source) = some k := hk
  have hmark : ¬ some k = slotMark s.nIdCount := by
    rw [slotMark]
    split_ifs
    · simp
    · simpa using hne
  have hold : (s.createNew addr source nTimePenalty).mapInfo[k]? = some info :=
    (createNew_mapInfo_of_ne hne).trans hinfo
  have hfind : s.find addr.ip = none := by rw [find,ha,bind_none]
  have hplace : (s.createNew addr source nTimePenalty).place P s.nIdCount source nNow' =
      some { s with nIdCount := nextId s.nIdCount } := by
    rw [place,createNew_mapInfo]
    dsimp only [CAddrInfo.init]
    rw [show (s.createNew addr source nTimePenalty).nKey = s.nKey from rfl,hslot,if_neg hmark]
    dsimp only
    rw [hold,getD_some,hgood,touch_of_mem hold,if_neg (by simpa using href),if_pos rfl,createNew_delete ha hi]
  rw [add,if_neg (by simpa using hroute),hfind]
  dsimp only
  rw [hplace,map_some]

/-- A new entry that finds its own number in its slot stays as it is. -/
theorem add_taken (hroute : NetAddress.isRoutable addr.ip) (ha : s.mapAddr[addr.ip]? = none)
    (hk : s.vvNew (newSlot P s.nKey addr.toCService source) = slotMark s.nIdCount) :
    s.add P addr source nTimePenalty nNow nNow' nRnd =
      some (true,s.createNew addr source nTimePenalty) := by
  have hfind : s.find addr.ip = none := by rw [find,ha,bind_none]
  have hplace : (s.createNew addr source nTimePenalty).place P s.nIdCount source nNow' =
      some (s.createNew addr source nTimePenalty) := by
    rw [place,createNew_mapInfo]
    exact if_pos hk
  rw [add,if_neg (by simpa using hroute),hfind]
  dsimp only
  rw [hplace,map_some]

theorem foldlM_add_refused (hroute : NetAddress.isRoutable addr.ip)
    (ha : s.mapAddr[addr.ip]? = none)
    (hk : s.vvNew (newSlot P s.nKey addr.toCService source) = some k)
    (hinfo : s.mapInfo[k]? = some info)
    (hgood : info.isTerrible nNow' = false) (href : info.nRefCount ≤ 1) (n : ℕ)
    (hi : ∀ m < n, s.mapInfo[nextId^[m] s.nIdCount]? = none) :
    (replicate n (AddrManCall.add addr source nTimePenalty nNow nNow' nRnd)).foldlM
      (CAddrMan.call P) s =
      some { s with nIdCount := nextId^[n] s.nIdCount } := by
  induction n with
  | zero => rfl
  | succ n ih =>
    have hadd : CAddrMan.add P { s with nIdCount := nextId^[n] s.nIdCount } addr source nTimePenalty
        nNow nNow' nRnd =
        some (true,{ s with nIdCount := nextId (nextId^[n] s.nIdCount) }) :=
      add_refused hroute ha (hi n (Nat.lt_succ_self n)) hk hinfo hgood href
    rw [replicate_succ',foldlM_append,ih fun m hm => hi m (hm.trans (Nat.lt_succ_self n)),iterate_succ_apply']
    simp [CAddrMan.call,hadd]

theorem nextId_iterate (n : ℕ) : nextId^[n] nId = if n = 0 then nId else (nId+n).bmod (2^32) := by
  induction n with
  | zero => rfl
  | succ n ih =>
    rw [iterate_succ_apply',ih,nextId,if_neg n.succ_ne_zero]
    split_ifs with hn
    · rw [hn]
      rfl
    · rw [Int.bmod_add_bmod]
      congr 1
      push_cast
      ring

end

end

end AddrMan

open AddrMan

/-- As long as fewer than 2^31 entries were created, no assertion fails in a sequence of
calls on an empty manager, and all indexes agree after it. -/
theorem addrMan_consistent (P : Params) (nKey : UInt256) (calls : List AddrManCall)
    (h : (CAddrMan.empty nKey).created P calls < 2^31) :
    ∃ s, calls.foldlM (CAddrMan.call P) (CAddrMan.empty nKey) = some s ∧ s.Consistent P :=
  (consistent_empty nKey).run le_rfl (by simpa [CAddrMan.empty] using h)

namespace Sample

def heard : AddrManCall :=
  .add ⟨⟨0xFFFF08080808,9333⟩,1,1500000000,0⟩ 0xFFFF08080808 0 1500000000 1500000000 0

/-- Another address for the same slot. -/
def rival : CAddress := ⟨⟨0xFFFF08080848,9333⟩,1,1500000000,0⟩

def heardToo : AddrManCall := .add rival 0xFFFF08080808 0 1500000000 1500000000 0

end Sample

open Sample

/-- The first address answers and is moved, so that there is room for the second one. -/
theorem addrMan_consistent_heard :
    ∃ s, [heard,heardToo,.good ⟨0xFFFF08080808,9333⟩ 1500000100 0,heardToo].foldlM
      (CAddrMan.call params) (CAddrMan.empty 0) = some s ∧ s.Consistent params :=
  addrMan_consistent params 0 _ (lt_of_le_of_lt (CAddrMan.created_le _) (by decide))

/-- The second address is refused until the numbers are used up; the entry that it then gets
takes the place of the first one's, which is still found under its address. -/
theorem addrMan_inconsistent :
    ∃ (calls : List AddrManCall) (s : CAddrMan) (info : CAddrInfo) (a : CNetAddr),
    calls.foldlM (CAddrMan.call params) (CAddrMan.empty 0) = some s ∧ s.mapAddr[a]? = some 0 ∧
      s.mapInfo[(0 : ℤ)]? = some info ∧ info.ip ≠ a ∧ ¬ s.Consistent params := by
  obtain ⟨s,hs,hC⟩ := (consistent_empty (P := params) 0).call le_rfl heard fun _ => by decide
  have heval : ((CAddrMan.empty 0).call params heard).map (fun s => (s.nIdCount,s.nKey,s.vvNew (606,54))) =
      some (1,0,some 0) := by decide +kernel
  have hinfo : ((CAddrMan.empty 0).call params heard).bind (fun s => (s.mapInfo[(0 : ℤ)]?).map fun i =>
      (i.ip,i.isTerrible 1500000000,i.nRefCount)) = some (0xFFFF08080808,false,1) := by decide +kernel
  rw [hs,map_some,some.injEq,Prod.mk.injEq,Prod.mk.injEq] at heval
  rw [hs,bind_some,map_eq_some_iff] at hinfo
  obtain ⟨hcount,hkey,hslot⟩ := heval
  obtain ⟨info,hi,heq⟩ := hinfo
  rw [Prod.mk.injEq,Prod.mk.injEq] at heq
  obtain ⟨hip,hgood,href⟩ := heq
  -- the first entry is the only one
  have hfree : ∀ j : ℤ, j ≠ 0 → s.mapInfo[j]? = none := by
    intro j hj
    rw [eq_none_iff_forall_ne_some]
    intro i hji
    have hbound := hC.indexes.fresh j i hji
    omega
  have hadd : s.mapAddr[rival.ip]? = none := by
    rw [eq_none_iff_forall_ne_some]
    intro j hj
    obtain ⟨i,hji,hia⟩ := (hC.indexes.addr _ j).mp hj
    obtain rfl : j = 0 := by_contra fun hne => by simp [hfree j hne] at hji
    rw [← some.inj (hi.symm.trans hji),hip] at hia
    cases hia
  have hroute : NetAddress.isRoutable rival.ip := by decide +kernel
  have htaken : s.vvNew (newSlot params s.nKey rival.toCService 0xFFFF08080808) = some 0 := by
    rw [hkey,show newSlot params 0 rival.toCService 0xFFFF08080808 = (606,54) by decide +kernel]
    exact hslot
  have hrun : (replicate (2^32-1) heardToo).foldlM (CAddrMan.call params) s =
      some { s with nIdCount := nextId^[2^32-1] s.nIdCount } := by
    refine foldlM_add_refused hroute hadd htaken hi hgood href.le _ fun m hm => hfree _ ?_
    rw [nextId_iterate,hcount]
    split_ifs
    · decide
    · rw [Int.bmod_def]
      split_ifs <;> omega
  rw [nextId_iterate,if_neg (by decide),hcount,show ((1 : ℤ)+(2^32-1 : ℕ)).bmod (2^32) = 0 by decide] at hrun
  have hlast : CAddrMan.call params { s with nIdCount := 0 } heardToo =
      some (CAddrMan.createNew { s with nIdCount := 0 } rival 0xFFFF08080808 0) := by
    have hcall : CAddrMan.add params { s with nIdCount := 0 } rival 0xFFFF08080808 0 1500000000 1500000000 0 =
        some (true,CAddrMan.createNew { s with nIdCount := 0 } rival 0xFFFF08080808 0) := add_taken hroute hadd htaken
    rw [heardToo,CAddrMan.call,hcall,map_some]
  have hentry : (CAddrMan.createNew { s with nIdCount := 0 } rival 0xFFFF08080808
      0).mapInfo[(0 : ℤ)]? = some _ :=
    createNew_mapInfo
  have hfound : (CAddrMan.createNew { s with nIdCount := 0 } rival 0xFFFF08080808 0).mapAddr[
      (0xFFFF08080808 : CNetAddr)]? = some 0 := by
    rw [← (hC.indexes.addr _ 0).mpr ⟨info,hi,hip⟩]
    exact (getElem?_insert_eq ..).trans (if_neg (by decide))
  have hne : rival.ip ≠ 0xFFFF08080808 := by decide
  refine ⟨heard::(replicate (2^32-1) heardToo++[heardToo]),_,_,0xFFFF08080808,?_,hfound,hentry,hne,fun hC' => ?_⟩
  · rw [foldlM_cons,hs]
    exact (foldlM_append ..).trans (by rw [hrun]; exact (bind_pure _).trans hlast)
  · obtain ⟨i,hi',hia⟩ := (hC'.indexes.addr _ 0).mp hfound
    rw [← some.inj (hentry.symm.trans hi')] at hia
    exact hne hia

end DarkSilk
