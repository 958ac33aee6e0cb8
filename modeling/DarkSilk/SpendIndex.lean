import Mathlib

/-! A spend-tracking index. Every entry creates numbered outputs and names outputs
of earlier entries; the index keeps, for every recorded entry, its position and the
position of the spender of each of its outputs, or a null mark. Entries are
connected one after the other and disconnected in the opposite order. -/
namespace DarkSilk

open List Option Function
namespace SpendIndex

structure Record (Pos : Type) where
  pos : Pos
  vSpent : List Pos
  deriving DecidableEq

abbrev Index (Id Pos : Type) := Id → Option (Record Pos)

structure Entry (Id Pos : Type) where
  id : Id
  outs : ℕ
  ins : List (Id × ℕ)
  pos : Pos

variable {Id Pos : Type}

def cell (idx : Index Id Pos) (o : Id × ℕ) : Option Pos :=
  (idx o.1).bind fun r => r.vSpent[o.2]?

def empty : Index Id Pos := fun _ => none

@[simp] theorem cell_empty (o : Id × ℕ) : cell (empty : Index Id Pos) o = none := rfl

variable [DecidableEq Id]

/-- Put one mark on a set of outputs at once. -/
def mark (p : Pos) (os : List (Id × ℕ)) (idx : Index Id Pos) : Index Id Pos := fun i =>
  (idx i).map fun r => ⟨r.pos,r.vSpent.mapIdx fun n x => if (i,n) ∈ os then p else x⟩

variable {p : Pos} {os : List (Id × ℕ)} {idx : Index Id Pos} {o : Id × ℕ}

theorem mark_apply_of_forall_notMem {i} (h : ∀ n, (i,n) ∉ os) : mark p os idx i = idx i := by
  cases hi : idx i with
  | none => simp [mark,hi]
  | some r =>
    have hr : r.vSpent.mapIdx (fun n x => if (i,n) ∈ os then p else x) = r.vSpent :=
      ext_getElem? fun n => by simp [h]
    simp [mark,hi,hr]

@[simp] theorem mark_nil (p : Pos) (idx : Index Id Pos) : mark p [] idx = idx :=
  funext fun _ => mark_apply_of_forall_notMem fun _ => not_mem_nil

theorem mark_cons (p : Pos) (o : Id × ℕ) (os idx) :
    mark p os (mark p [o] idx) = mark p (o::os) idx := by
  funext i
  cases h : idx i with
  | none => simp [mark,h]
  | some r =>
    simp only [mark,h,map_some,mapIdx_mapIdx,comp_def,mem_cons, not_mem_nil,or_false]
    congr 3
    funext n x
    by_cases ho : (i,n) = o <;> by_cases hs : (i,n) ∈ os <;> simp [ho,hs]

@[simp] theorem mark_eq_none (p : Pos) (os idx) (i : Id) :
    mark p os idx i = none ↔ idx i = none := by simp [mark]

theorem cell_mark (p : Pos) (os idx) (o : Id × ℕ) :
    cell (mark p os idx) o = (cell idx o).map fun x => if o ∈ os then p else x := by
  cases h : idx o.1 <;> simp [cell,mark,h]

theorem cell_mark_of_notMem (h : o ∉ os) : cell (mark p os idx) o = cell idx o := by
  simp [cell_mark,h]

theorem mark_mark_null {null} (h : ∀ o ∈ os, cell idx o = some null) :
    mark null os (mark p os idx) = idx := by
  funext i
  cases hi : idx i with
  | none => simp [mark,hi]
  | some r =>
    simp only [mark,hi,map_some,mapIdx_mapIdx,comp_def]
    have hr : r.vSpent.mapIdx (fun n x => if (i,n) ∈ os then null else if (i,n) ∈ os then p else x)
        = r.vSpent := by
      apply ext_getElem? fun n => ?_
      by_cases hn : (i,n) ∈ os
      · have hc := h _ hn
        simp only [cell,hi,bind_some] at hc
        simp [hn,hc]
      · simp [hn]
    rw [hr]

theorem update_set_eq_mark {r} (p : Pos) (h : idx o.1 = some r) :
    update idx o.1 (some ⟨r.pos,r.vSpent.set o.2 p⟩) = mark p [o] idx := by
  funext i
  by_cases hi : i = o.1
  · subst hi
    simp only [update_self,mark,h,map_some,mem_singleton,some.injEq, Record.mk.injEq,true_and]
    apply ext_getElem? fun n => ?_
    by_cases hn : n = o.2
    · subst hn
      by_cases hl : o.2 < r.vSpent.length <;> simp [hl]
    · have hne : ¬ ((o.1,n) = o) := fun he => hn (congrArg Prod.snd he)
      simp [Ne.symm hn,hne]
  · rw [update_of_ne hi,mark_apply_of_forall_notMem]
    intro n hn
    exact hi (congrArg Prod.fst (mem_singleton.mp hn))

variable (null : Pos)

def fresh (e : Entry Id Pos) : Record Pos := ⟨e.pos,List.replicate e.outs null⟩

section

variable [DecidableEq Pos]

/-- Mark one output as spent; it has to exist and to be unspent. -/
def spend (p : Pos) (idx : Index Id Pos) (o : Id × ℕ) : Option (Index Id Pos) :=
  match idx o.1 with
  | none => none
  | some r =>
    if r.vSpent[o.2]? = some null then
      some (Function.update idx o.1 (some ⟨r.pos,r.vSpent.set o.2 p⟩))
    else none

def spendAll (p : Pos) : List (Id × ℕ) → Index Id Pos → Option (Index Id Pos)
  | [], idx => some idx
  | o::os, idx => (spend null p idx o).bind (spendAll p os)

theorem spend_eq (p : Pos) (idx) (o : Id × ℕ) :
    spend null p idx o = if cell idx o = some null then some (mark p [o] idx) else none := by
  cases h : idx o.1 with
  | none => simp [spend,cell,h]
  | some r => simp [spend,cell,h,update_set_eq_mark p h]

/-- Spending a list succeeds exactly on distinct unspent outputs, and then marks them all. -/
theorem spendAll_eq_some (hp : p ≠ null) (os : List (Id × ℕ)) (idx idx') :
    spendAll null p os idx = some idx' ↔
      os.Nodup ∧ (∀ o ∈ os, cell idx o = some null) ∧ idx' = mark p os idx := by
  induction os generalizing idx with
  | nil => simp [spendAll,eq_comm]
  | cons o os ih =>
    rw [spendAll,spend_eq]
    by_cases hc : cell idx o = some null
    · simp only [hc,if_true,bind_some,ih,nodup_cons,mark_cons,forall_mem_cons,
        true_and]
      have hcell : (∀ x ∈ os, cell (mark p [o] idx) x = some null) ↔
          o ∉ os ∧ ∀ x ∈ os, cell idx x = some null := by
        constructor
        · intro h
          have ho : o ∉ os := by
            intro ho
            have hx := h o ho
            simp [cell_mark,hc,hp] at hx
          refine ⟨ho,fun x hx => ?_⟩
          have hne : x ∉ [o] := by
            rintro hxo
            exact ho (mem_singleton.mp hxo ▸ hx)
          rw [← cell_mark_of_notMem hne]
          exact h x hx
        · rintro ⟨ho,h⟩ x hx
          have hne : x ∉ [o] := by
            rintro hxo
            exact ho (mem_singleton.mp hxo ▸ hx)
          rw [cell_mark_of_notMem hne]
          exact h x hx
      rw [hcell]
      tauto
    · simp [hc]

theorem map_pos_spendAll {idx'} (h : spendAll null p os idx = some idx') (i : Id) :
    (idx' i).map Record.pos = (idx i).map Record.pos := by
  induction os generalizing idx with
  | nil =>
    rw [spendAll,some.injEq] at h
    rw [h]
  | cons o os ih =>
    obtain ⟨m,hm,h1⟩ := bind_eq_some_iff.mp h
    rw [spend_eq] at hm
    split_ifs at hm
    cases hm
    rw [ih h1,mark,Option.map_map]
    rfl

def connect (e : Entry Id Pos) (idx : Index Id Pos) : Option (Index Id Pos) :=
  (spendAll null e.pos e.ins idx).map fun i => Function.update i e.id (some (fresh null e))

def connectAll : List (Entry Id Pos) → Index Id Pos → Option (Index Id Pos)
  | [], idx => some idx
  | e::es, idx => (connect null e idx).bind (connectAll es)

theorem connect_eq_some {e} (hp : e.pos ≠ null) (idx idx' : Index Id Pos) :
    connect null e idx = some idx' ↔
      e.ins.Nodup ∧ (∀ o ∈ e.ins, cell idx o = some null) ∧
        idx' = update (mark e.pos e.ins idx) e.id (some (fresh null e)) := by
  simp only [connect,map_eq_some_iff,spendAll_eq_some null hp]
  constructor
  · rintro ⟨i,⟨hn,hc,rfl⟩,rfl⟩
    exact ⟨hn,hc,rfl⟩
  · rintro ⟨hn,hc,rfl⟩
    exact ⟨_,⟨hn,hc,rfl⟩,rfl⟩

theorem connectAll_append (es fs : List (Entry Id Pos)) (idx : Index Id Pos) :
    connectAll null (es++fs) idx = (connectAll null es idx).bind (connectAll null fs) := by
  induction es generalizing idx with
  | nil => rfl
  | cons e es ih => cases h : connect null e idx <;> simp [connectAll,h,ih]

theorem connectAll_concat (es : List (Entry Id Pos)) (e : Entry Id Pos) (idx : Index Id Pos) :
    connectAll null (es++[e]) idx = (connectAll null es idx).bind (connect null e) := by
  rw [connectAll_append]
  cases h : connectAll null es idx with
  | none => rfl
  | some i => simp [connectAll]

end

def release (idx : Index Id Pos) (o : Id × ℕ) : Option (Index Id Pos) :=
  match idx o.1 with
  | none => none
  | some r =>
    if o.2 < r.vSpent.length then
      some (Function.update idx o.1 (some ⟨r.pos,r.vSpent.set o.2 null⟩))
    else none

def releaseAll : List (Id × ℕ) → Index Id Pos → Option (Index Id Pos)
  | [], idx => some idx
  | o::os, idx => (release null idx o).bind (releaseAll os)

def disconnect (e : Entry Id Pos) (idx : Index Id Pos) : Option (Index Id Pos) :=
  (releaseAll null e.ins idx).map fun i => Function.update i e.id none

def disconnectAll : List (Entry Id Pos) → Index Id Pos → Option (Index Id Pos)
  | [], idx => some idx
  | e::es, idx => (disconnectAll es idx).bind (disconnect null e)

theorem release_eq (h : (cell idx o).isSome) : release null idx o = some (mark null [o] idx) := by
  cases hr : idx o.1 with
  | none => simp [cell,hr] at h
  | some r =>
    have hlt : o.2 < r.vSpent.length := by simpa [cell,hr] using h
    simp [release,hr,hlt,update_set_eq_mark null hr]

theorem releaseAll_eq
    (h : ∀ o ∈ os, (cell idx o).isSome) : releaseAll null os idx = some (mark null os idx) := by
  induction os generalizing idx with
  | nil => simp [releaseAll]
  | cons o os ih =>
    rw [releaseAll,release_eq null (h o mem_cons_self),bind_some,ih,mark_cons]
    intro x hx
    simpa [cell_mark] using h x (mem_cons_of_mem _ hx)

section

variable [DecidableEq Pos] {null} {e : Entry Id Pos} {es : List (Entry Id Pos)} {idx' : Index Id Pos}

theorem cell_of_connect_apply (hp : e.pos ≠ null) (h : connect null e idx = some idx')
    (ho : o ∈ e.ins) : cell idx o = some null :=
  ((connect_eq_some null hp _ _).mp h).2.1 o ho

theorem connect_apply_id (hp : e.pos ≠ null) (h : connect null e idx = some idx') :
    idx' e.id = some (fresh null e) := by
  obtain ⟨-,-,rfl⟩ := (connect_eq_some null hp _ _).mp h
  simp

theorem connect_apply_of_ne (hp : e.pos ≠ null) (h : connect null e idx = some idx') {i}
    (hi : i ≠ e.id) : idx' i = mark e.pos e.ins idx i := by
  obtain ⟨-,-,rfl⟩ := (connect_eq_some null hp _ _).mp h
  simp [hi]

theorem connect_eq_none_iff (hp : e.pos ≠ null) (h : connect null e idx = some idx') (i : Id) :
    idx' i = none ↔ i ≠ e.id ∧ idx i = none := by
  by_cases hi : i = e.id
  · subst hi
    simp [connect_apply_id hp h]
  · simp [connect_apply_of_ne hp h hi,hi]

theorem disconnect_connect (hp : e.pos ≠ null) (hid : idx e.id = none)
    (h : connect null e idx = some idx') : disconnect null e idx' = some idx := by
  obtain ⟨hn,hc,rfl⟩ := (connect_eq_some null hp _ _).mp h
  have hne : ∀ o ∈ e.ins, o.1 ≠ e.id := by
    intro o ho he
    have := hc o ho
    simp [cell,he,hid] at this
  have hcell : ∀ o ∈ e.ins, cell (update (mark e.pos e.ins idx) e.id (some (fresh null e))) o
      = some e.pos := by
    intro o ho
    have hm := cell_mark e.pos e.ins idx o
    rw [hc o ho] at hm
    simpa [cell,hne o ho,ho] using hm
  rw [disconnect,releaseAll_eq null (fun o ho => by simp [hcell o ho]),map_some]
  congr 1
  funext i
  by_cases hi : i = e.id
  · subst hi
    simp [hid]
  · rw [update_of_ne hi]
    have hm := congrFun (mark_mark_null (p := e.pos) hc) i
    simpa [mark,hi] using hm

theorem disconnectAll_connectAll (hp : ∀ e ∈ es, e.pos ≠ null) (hids : (es.map Entry.id).Nodup)
    (hfresh : ∀ e ∈ es, idx e.id = none) (h : connectAll null es idx = some idx') :
    disconnectAll null es idx' = some idx := by
  induction es generalizing idx with
  | nil => simpa [connectAll,disconnectAll,eq_comm] using h
  | cons e es ih =>
    rw [map_cons,nodup_cons] at hids
    obtain ⟨i,hi,ht⟩ := bind_eq_some_iff.mp h
    have he := hp e mem_cons_self
    have hrest : ∀ f ∈ es, i f.id = none := by
      intro f hf
      rw [connect_eq_none_iff he hi]
      refine ⟨?_,hfresh f (mem_cons_of_mem _ hf)⟩
      rintro heq
      exact hids.1 (heq ▸ mem_map_of_mem hf)
    rw [disconnectAll,ih (fun f hf => hp f (mem_cons_of_mem _ hf)) hids.2 hrest ht, bind_some]
    exact disconnect_connect he (hfresh e mem_cons_self) hi

end

/-- What the index says about the entries connected so far: exactly these are
recorded, an output is marked by its spender and by no one else, and no output has
two spenders. -/
structure Tracks (es : List (Entry Id Pos)) (idx : Index Id Pos) : Prop where
  recorded : ∀ i r, idx i = some r → ∃ e ∈ es, e.id = i ∧ r.pos = e.pos ∧ r.vSpent.length = e.outs
  complete : ∀ e ∈ es, (idx e.id).isSome
  spent : ∀ o x, cell idx o = some x → x ≠ null → ∃ e ∈ es, o ∈ e.ins ∧ e.pos = x
  spender : ∀ e ∈ es, ∀ o ∈ e.ins, cell idx o = some e.pos
  once : es.Pairwise fun e f => ∀ o ∈ e.ins, o ∉ f.ins

section

variable [DecidableEq Pos] {null} {e : Entry Id Pos} {es : List (Entry Id Pos)} {idx' : Index Id Pos}

omit [DecidableEq Id] [DecidableEq Pos] in
theorem tracks_empty : Tracks null ([] : List (Entry Id Pos)) empty :=
  ⟨by simp [empty],by simp,by simp,by simp,Pairwise.nil⟩

omit [DecidableEq Id] [DecidableEq Pos] in
theorem Tracks.eq_none (h : Tracks null es idx) {i} (hi : i ∉ es.map Entry.id) : idx i = none := by
  cases hx : idx i with
  | none => rfl
  | some r =>
    obtain ⟨e,he,rfl,-⟩ := h.recorded i r hx
    exact absurd (mem_map_of_mem he) hi

omit [DecidableEq Id] [DecidableEq Pos] in
theorem Tracks.isSome_cell_iff (h : Tracks null es idx) (hids : (es.map Entry.id).Nodup) :
    (cell idx o).isSome ↔ ∃ e ∈ es, e.id = o.1 ∧ o.2 < e.outs := by
  rw [isSome_iff_exists]
  constructor
  · rintro ⟨x,hx⟩
    obtain ⟨r,hr,hx⟩ := bind_eq_some_iff.mp hx
    obtain ⟨e,he,hid,-,hlen⟩ := h.recorded o.1 r hr
    exact ⟨e,he,hid,hlen ▸ (List.getElem?_eq_some_iff.mp hx).1⟩
  · rintro ⟨e,he,hid,hlt⟩
    obtain ⟨r,hr⟩ := isSome_iff_exists.mp (h.complete e he)
    obtain ⟨f,hf,hfe,-,hlen⟩ := h.recorded e.id r hr
    obtain rfl := inj_on_of_nodup_map hids hf he hfe
    rw [cell,← hid,hr]
    exact ⟨_,getElem?_eq_getElem (hlen ▸ hlt)⟩

omit [DecidableEq Pos] in
/-- The spenders of a recorded output, as positions: none if it carries the null mark,
and else the one whose position is the mark. -/
theorem Tracks.map_pos_filter (h : Tracks null es idx) (hpos : ∀ f ∈ es, f.pos ≠ null) {x}
    (hx : cell idx o = some x) :
    ((es.filter fun e => o ∈ e.ins).map Entry.pos = [] ∧ x = null) ∨
      ((es.filter fun e => o ∈ e.ins).map Entry.pos = [x] ∧ x ≠ null) := by
  by_cases hn : x = null
  · left
    refine ⟨?_,hn⟩
    rw [map_eq_nil_iff,filter_eq_nil_iff]
    intro e he hoe
    have h1 := h.spender e he o (of_decide_eq_true hoe)
    rw [hx,some.injEq,hn] at h1
    exact hpos e he h1.symm
  · right
    refine ⟨?_,hn⟩
    obtain ⟨e,he,hoe,rfl⟩ := h.spent o x hx hn
    obtain ⟨l₁,l₂,rfl⟩ := append_of_mem he
    have honce := pairwise_append.mp h.once
    have h1 : l₁.filter (fun e => o ∈ e.ins) = [] := by
      rw [filter_eq_nil_iff]
      intro f hf hof
      exact honce.2.2 f hf e mem_cons_self o (of_decide_eq_true hof) hoe
    have h2 : l₂.filter (fun e => o ∈ e.ins) = [] := by
      rw [filter_eq_nil_iff]
      intro f hf hof
      exact (pairwise_cons.mp honce.2.1).1 f hf o hoe (of_decide_eq_true hof)
    simp [filter_append,h1,h2,hoe]

theorem Tracks.connect (h : Tracks null es idx) (hpos : ∀ f ∈ es, f.pos ≠ null) (hp : e.pos ≠ null)
    (hid : e.id ∉ es.map Entry.id) (hc : connect null e idx = some idx') :
    Tracks null (es++[e]) idx' := by
  have hnone := h.eq_none hid
  have hnull : ∀ o ∈ e.ins, cell idx o = some null := fun o ho => cell_of_connect_apply hp hc ho
  have hold : ∀ o : Id × ℕ, o.1 ≠ e.id → cell idx' o = cell (mark e.pos e.ins idx) o := by
    intro o ho
    simp [cell,connect_apply_of_ne hp hc ho]
  have hne : ∀ o x, cell idx o = some x → o.1 ≠ e.id := by
    intro o x hx he
    simp [cell,he,hnone] at hx
  have hfree : ∀ f ∈ es, ∀ o ∈ f.ins, o ∉ e.ins := by
    intro f hf o ho hoe
    have h1 := h.spender f hf o ho
    rw [hnull o hoe,some.injEq] at h1
    exact hpos f hf h1.symm
  refine ⟨?_,?_,?_,?_,?_⟩
  · intro i r hr
    by_cases hi : i = e.id
    · subst hi
      rw [connect_apply_id hp hc,some.injEq] at hr
      subst hr
      exact ⟨e,by simp,rfl,rfl,by simp [fresh]⟩
    · rw [connect_apply_of_ne hp hc hi,mark,map_eq_some_iff] at hr
      obtain ⟨r',hr',rfl⟩ := hr
      obtain ⟨f,hf,h1,h2,h3⟩ := h.recorded i r' hr'
      exact ⟨f,mem_append_left _ hf,h1,h2,by simpa using h3⟩
  · intro f hf
    rw [isSome_iff_ne_none,Ne,connect_eq_none_iff hp hc]
    rintro ⟨hfe,hfn⟩
    rcases mem_append.mp hf with hf | hf
    · simpa [hfn] using h.complete f hf
    · exact hfe (by rw [mem_singleton.mp hf])
  · intro o x hx hxn
    by_cases ho : o.1 = e.id
    · simp only [cell,ho,connect_apply_id hp hc,bind_some,fresh] at hx
      exact absurd (eq_of_mem_replicate (mem_of_getElem? hx)) hxn
    · rw [hold o ho,cell_mark,map_eq_some_iff] at hx
      obtain ⟨y,hy,hyx⟩ := hx
      by_cases hoe : o ∈ e.ins
      · exact ⟨e,by simp,hoe,by simpa [hoe] using hyx⟩
      · rw [if_neg hoe] at hyx
        obtain ⟨f,hf,h1,h2⟩ := h.spent o y hy (hyx ▸ hxn)
        exact ⟨f,mem_append_left _ hf,h1,h2.trans hyx⟩
  · intro f hf o ho
    rcases mem_append.mp hf with hf | hf
    · have hs := h.spender f hf o ho
      rw [hold o (hne o _ hs),cell_mark_of_notMem (hfree f hf o ho),hs]
    · rw [mem_singleton.mp hf] at ho ⊢
      rw [hold o (hne o _ (hnull o ho)),cell_mark,hnull o ho]
      simp [ho]
  · rw [pairwise_append]
    refine ⟨h.once,by simp,?_⟩
    intro f hf g hg
    rw [mem_singleton.mp hg]
    exact hfree f hf

theorem tracks_connectAll (hpos : ∀ e ∈ es, e.pos ≠ null) (hids : (es.map Entry.id).Nodup)
    (h : connectAll null es empty = some idx) : Tracks null es idx := by
  induction es using reverseRecOn generalizing idx with
  | nil =>
    rw [connectAll,some.injEq] at h
    subst h
    exact tracks_empty
  | append_singleton es e ih =>
    rw [connectAll_concat] at h
    obtain ⟨i,hi,hc⟩ := bind_eq_some_iff.mp h
    rw [map_append,map_singleton,nodup_append] at hids
    have hpos' : ∀ f ∈ es, f.pos ≠ null := fun f hf => hpos f (mem_append_left _ hf)
    refine (ih hpos' hids.1 hi).connect hpos' (hpos e (by simp)) ?_ hc
    intro hm
    exact hids.2.2 _ hm _ (mem_singleton_self _) rfl

/-- Ids are never reused on a run of connections: entries without inputs are told
apart by assumption, and an entry with an input cannot be connected twice, because
its input is still marked by the first time. -/
theorem connectAll_ids_nodup (hpos : ∀ e ∈ es, e.pos ≠ null)
    (hsame : ∀ e ∈ es, ∀ f ∈ es, e.id = f.id → e.ins = f.ins)
    (hbase : es.Pairwise fun e f => e.ins = [] → f.ins = [] → e.id ≠ f.id)
    (h : connectAll null es empty = some idx) : (es.map Entry.id).Nodup := by
  induction es using reverseRecOn generalizing idx with
  | nil => simp
  | append_singleton es e ih =>
    rw [connectAll_concat] at h
    obtain ⟨i,hi,hc⟩ := bind_eq_some_iff.mp h
    rw [pairwise_append] at hbase
    have hpos' : ∀ f ∈ es, f.pos ≠ null := fun f hf => hpos f (mem_append_left _ hf)
    have hnodup := ih hpos' (fun f hf g hg => hsame f (mem_append_left _ hf) g
      (mem_append_left _ hg)) hbase.1 hi
    have htracks := tracks_connectAll hpos' hnodup hi
    rw [map_append,map_singleton,nodup_append]
    refine ⟨hnodup,nodup_singleton _,?_⟩
    intro a ha b hb hab
    rw [mem_singleton] at hb
    obtain ⟨f,hf,rfl⟩ := mem_map.mp ha
    subst hb
    have hins := hsame f (mem_append_left _ hf) e (by simp) hab
    cases hx : e.ins with
    | nil => exact hbase.2.2 f hf e (by simp) (hins.trans hx) hx hab
    | cons o os =>
      have ho : o ∈ e.ins := by simp [hx]
      have h1 := htracks.spender f hf o (hins ▸ ho)
      rw [cell_of_connect_apply (hpos e (by simp)) hc ho,some.injEq] at h1
      exact hpos' f hf h1.symm

end

end SpendIndex
end DarkSilk
