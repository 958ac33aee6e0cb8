import Mathlib.Data.List.Sort

/-! A map with a maximum size, and an index of its entries by their values. The entry with the
lowest value goes when the maximum is reached. -/
namespace DarkSilk

open List

/-- The entries of the map in any order, those that the index lists in the order of their values,
and the maximum. -/
structure LimitedMap (K V : Type) where
  map : List (K × V)
  rmap : List (K × V)
  nMaxSize : ℕ
  deriving DecidableEq

namespace LimitedMap

inductive Call (K V : Type)
  | insert (x : K × V)
  | erase (k : K)
  | update (k : K) (v : V)

variable {K V : Type} [DecidableEq K] [LinearOrder V] (m : LimitedMap K V)

/-- A new entry of the index stands behind those of the same value. -/
def insertReverse (x : K × V) (rmap : List (K × V)) : List (K × V) :=
  rmap.orderedInsert (fun a b => a.2 < b.2) x

/-- There is no result if the first entry of an empty index is read. -/
def insert (x : K × V) : Option (LimitedMap K V) :=
  if x.1 ∈ m.map.map Prod.fst then some m
  else if m.nMaxSize ≠ 0 ∧ (x::m.map).length = m.nMaxSize then
    match m.rmap with
    | [] => none
    | e::rmap => some { m with map := (x::m.map).erase e, rmap := insertReverse x rmap }
  else some { m with map := x::m.map, rmap := insertReverse x m.rmap }

/-- There is no result if the assertion fails that the index lists the entry under its value. -/
def erase (k : K) : Option (LimitedMap K V) :=
  match m.map.find? fun x => x.1 = k with
  | none => some m
  | some x => if x ∈ m.rmap then some { m with map := m.map.erase x, rmap := m.rmap.erase x } else none

def update (k : K) (v : V) : Option (LimitedMap K V) :=
  match m.map.find? fun x => x.1 = k with
  | none => some m
  | some x =>
    if x ∈ m.rmap then
      some { m with map := (k,v)::m.map.erase x, rmap := insertReverse (k,v) (m.rmap.erase x) }
    else none

def step : Call K V → Option (LimitedMap K V)
  | .insert x => m.insert x
  | .erase k => m.erase k
  | .update k v => m.update k v

def run (nMaxSize : ℕ) (calls : List (Call K V)) : Option (LimitedMap K V) :=
  calls.foldlM step ⟨[],[],nMaxSize⟩

def Indexed : Prop := (m.map.map Prod.fst).Nodup ∧ m.map ~ m.rmap

/-- As many entries are kept as can be, and none of them is lower than one that is not. -/
def KeepsHighest (N : ℕ) (l : List (K × V)) : Prop :=
  ∃ m, run N (l.map .insert) = some m ∧ m.map.length = min N l.length ∧ ∀ x ∈ l, x ∉ m.map → ∀ y ∈ m.map, x.2 ≤ y.2

/-- The state between the calls: the maximum is never reached. -/
def Sound (N : ℕ) : Prop := m.Indexed ∧ m.nMaxSize = N ∧ m.map.length < N

variable {m} {l : List (K × V)} {k : K} {x : K × V} {N : ℕ}

theorem nodup_cons_erase (hm : (m.map.map Prod.fst).Nodup) (hx : x ∈ m.map) :
    (x.1::(m.map.erase x).map Prod.fst).Nodup :=
  ((perm_cons_erase hx).map Prod.fst).nodup_iff.mp hm

theorem Sound.insert (h : m.Sound N) (hN : N ≠ 1) (x : K × V) :
    ∃ m', m.insert x = some m' ∧ m'.Sound N := by
  obtain ⟨⟨hnodup,hperm⟩,rfl,hlen⟩ := h
  unfold insert
  split_ifs with hmem hfull
  · exact ⟨m,rfl,⟨hnodup,hperm⟩,rfl,hlen⟩
  · cases hr : m.rmap with
    | nil =>
      have hnil : m.map = [] := by simpa [hr] using hperm
      exact absurd (by simpa [hnil] using hfull.2.symm) hN
    | cons e rmap =>
      rw [hr] at hperm
      have he : e ∈ m.map := hperm.mem_iff.mpr mem_cons_self
      have hmap : (x::m.map).erase e = x::m.map.erase e :=
        erase_cons_tail (by rintro heq; exact hmem (beq_iff_eq.mp heq ▸ mem_map_of_mem he))
      have hrest : m.map.erase e ~ rmap := by simpa using hperm.erase e
      refine ⟨_,rfl,⟨?_,?_⟩,rfl,?_⟩ <;> rw [hmap]
      · refine nodup_cons.mpr ⟨fun hx => hmem ?_,(nodup_cons.mp (nodup_cons_erase hnodup he)).2⟩
        exact (erase_sublist.map Prod.fst).subset hx
      · exact (hrest.cons x).trans (perm_orderedInsert _ _ _).symm
      · rwa [length_cons,length_erase_add_one he]
  · refine ⟨_,rfl,⟨nodup_cons.mpr ⟨hmem,hnodup⟩,(hperm.cons x).trans (perm_orderedInsert _ _ _).symm⟩,rfl,?_⟩
    rw [length_cons] at hfull ⊢
    omega

theorem Sound.replace (h : m.Sound N) (hx : m.map.find? (fun x => x.1 = k) = some x) :
    x ∈ m.rmap ∧ (⟨m.map.erase x,m.rmap.erase x,N⟩ : LimitedMap K V).Sound N ∧
      ∀ v, (⟨(k,v)::m.map.erase x,insertReverse (k,v) (m.rmap.erase x),N⟩ : LimitedMap K V).Sound
        N := by
  obtain ⟨⟨hnodup,hperm⟩,-,hlen⟩ := h
  have hmem := mem_of_find?_eq_some hx
  obtain rfl : x.1 = k := by simpa using find?_some hx
  have hkeys := nodup_cons_erase hnodup hmem
  have hlen' := length_erase_add_one hmem
  exact ⟨hperm.mem_iff.mp hmem,⟨⟨(nodup_cons.mp hkeys).2,hperm.erase x⟩,rfl,by dsimp only; omega⟩,fun v =>
    ⟨⟨hkeys,((hperm.erase x).cons _).trans (perm_orderedInsert _ _ _).symm⟩,rfl,by rwa [length_cons,hlen']⟩⟩

/-- With a maximum of one, no entry can be inserted. -/
theorem Sound.step (h : m.Sound N) (call) : (m.step call = none ∧ N = 1 ∧ ∃ x, call = .insert x) ∨
      ∃ m', m.step call = some m' ∧ m'.Sound N ∧ (N = 1 → ∀ x, call ≠ .insert x) := by
  cases call with
  | insert x =>
    by_cases hN : N = 1
    · have hempty : m.map = [] := length_eq_zero_iff.mp (by have := h.2.2; omega)
      have hindex : m.rmap = [] := by simpa [hempty] using h.1.2
      exact .inl ⟨by simp [LimitedMap.step,LimitedMap.insert,hempty,hindex,h.2.1,hN],hN,x,rfl⟩
    · obtain ⟨m',hm,hsound⟩ := h.insert hN x
      exact .inr ⟨m',hm,hsound,fun hone => absurd hone hN⟩
  | erase k =>
    cases hx : m.map.find? fun x => x.1 = k with
    | none => exact .inr ⟨m,by simp [LimitedMap.step,LimitedMap.erase,hx],h,by simp⟩
    | some x =>
      obtain ⟨hmem,hsound,-⟩ := h.replace hx
      exact .inr ⟨_,by simp [LimitedMap.step,LimitedMap.erase,hx,hmem,h.2.1],hsound,by simp⟩
  | update k v =>
    cases hx : m.map.find? fun x => x.1 = k with
    | none => exact .inr ⟨m,by simp [LimitedMap.step,LimitedMap.update,hx],h,by simp⟩
    | some x =>
      obtain ⟨hmem,-,hsound⟩ := h.replace hx
      exact .inr ⟨_,by simp [LimitedMap.step,LimitedMap.update,hx,hmem,h.2.1],hsound v,by simp⟩

theorem Sound.run (h : m.Sound N) (calls : List (Call K V)) :
    (calls.foldlM LimitedMap.step m = none ∧ N = 1 ∧ ∃ x, .insert x ∈ calls) ∨
      ∃ m', calls.foldlM LimitedMap.step m = some m' ∧ m'.Sound N ∧
      (N = 1 → ∀ x, .insert x ∉ calls) := by
  induction calls generalizing m with
  | nil => exact .inr ⟨m,rfl,h,by simp⟩
  | cons call calls ih =>
    rw [foldlM_cons]
    rcases h.step call with ⟨hnone,hN,x,rfl⟩ | ⟨m₁,hm,hsound,hcall⟩
    · exact .inl ⟨by rw [hnone]; rfl,hN,x,mem_cons_self⟩
    · rw [hm]
      rcases ih hsound with ⟨hnone,hN,x,hx⟩ | ⟨m',hm',hsound',hcalls⟩
      · exact .inl ⟨hnone,hN,x,mem_cons_of_mem _ hx⟩
      · refine .inr ⟨m',hm',hsound',fun hN x hx => ?_⟩
        exact (mem_cons.mp hx).elim (fun heq => hcall hN x heq.symm) (hcalls hN x)

theorem run_inserts (hl : ((m.map++l).map Prod.fst).Nodup)
    (hlt : m.map.length+l.length < m.nMaxSize) :
    ∃ m', (l.map Call.insert).foldlM step m = some m' ∧ m'.map = l.reverse++m.map := by
  induction l generalizing m with
  | nil => exact ⟨m,rfl,rfl⟩
  | cons x l ih =>
    rw [length_cons] at hlt
    have hnodup := (perm_middle.map Prod.fst).nodup_iff.mp hl
    have hnew : x.1 ∉ m.map.map Prod.fst := fun hx => (nodup_cons.mp hnodup).1 (by simp_all)
    have hinsert : m.insert x = some { m with map := x::m.map, rmap := insertReverse x m.rmap } := by
      rw [insert,if_neg hnew,if_neg (by rw [length_cons]; omega)]
    obtain ⟨m',hm,heq⟩ := @ih { m with map := x::m.map, rmap := insertReverse x m.rmap } hnodup
      (by simp only [length_cons]; omega)
    exact ⟨m',by rw [map_cons,foldlM_cons,step,hinsert]; exact hm,by simp [heq]⟩

/-- The highest values are kept exactly below the maximum, and calls keep the index exactly if the
maximum is not one or nothing is inserted. -/
theorem limitedMap_iff (hN : 1 ≤ N) (l : List (K × V)) (hl : (l.map Prod.fst).Nodup)
    (calls : List (Call K V)) :
    (KeepsHighest N l ↔ l.length < N) ∧
    ((∃ m, run N calls = some m ∧ m.Indexed) ↔ (N = 1 → ∀ x, .insert x ∉ calls)) := by
  have hsound : (⟨[],[],N⟩ : LimitedMap K V).Sound N := ⟨⟨nodup_nil,.nil⟩,rfl,hN⟩
  refine ⟨⟨?_,fun hlt => ?_⟩,?_⟩
  · rintro ⟨m,hm,hlen,-⟩
    rcases hsound.run (l.map .insert) with ⟨hnone,-⟩ | ⟨m',hm',⟨-,-,hlt⟩,-⟩
    · cases hm.symm.trans hnone
    · obtain rfl : m = m' := Option.some.inj (hm.symm.trans hm')
      omega
  · obtain ⟨m,hm,heq⟩ := @run_inserts K V _ _ ⟨[],[],N⟩ l hl (by simpa using hlt)
    refine ⟨m,hm,by simp [heq,hlt.le],fun x hx hdrop => absurd ?_ hdrop⟩
    simpa [heq] using hx
  · rcases hsound.run calls with ⟨hnone,hone,x,hx⟩ | ⟨m,hm,hm',hcalls⟩
    · exact iff_of_false (fun ⟨m,hm,_⟩ => absurd (hm.symm.trans hnone) (by simp)) fun hno => hno hone x hx
    · exact iff_of_true ⟨m,hm,hm'.1⟩ hcalls

theorem limitedMap_iff_two : KeepsHighest 2 [(1,5)] :=
  (limitedMap_iff (by decide) [(1,5)] (by decide) ([] : List (Call ℕ ℕ))).1.mpr (by decide)

/-- Two entries do not fit in a map for two: the higher one, which came first, is dropped; and the
first insertion into a map for one reads an empty index. -/
theorem drops_higher : run 2 [.insert ((1 : ℕ),(5 : ℕ)),.insert (2,3)] = some ⟨[(2,3)],[(2,3)],2⟩ ∧
      run 1 [.insert ((1 : ℕ),(5 : ℕ))] = none := by
  decide

end LimitedMap

end DarkSilk
