import Mathlib

/-! Containers that are gone through with iterators while elements are erased. An iterator is
the key of its element, or the end. Reading, advancing or erasing through an iterator whose
element is gone, or through the end, is a fault. -/

namespace Iteration

open List

inductive Fault
  | dangling | outOfFuel
  deriving DecidableEq, Repr

structure IterMap (K V : Type) where
  entries : List (K × V)
  nodup : (entries.map Prod.fst).Nodup

namespace IterMap

variable {K V σ : Type}

@[ext] theorem ext {m m' : IterMap K V} (h : m.entries = m'.entries) : m = m' := by
  cases m
  cases m'
  cases h
  rfl

def empty : IterMap K V := ⟨[],List.nodup_nil⟩

def begin (m : IterMap K V) : Option K := m.entries.head?.map Prod.fst

def filter (p : K × V → Bool) (m : IterMap K V) : IterMap K V :=
  ⟨m.entries.filter p,m.nodup.sublist (List.filter_sublist.map Prod.fst)⟩

theorem filter_filter (m : IterMap K V) (p q : K × V → Bool) :
    (m.filter p).filter q = m.filter fun e => p e && q e := by
  apply ext
  show (m.entries.filter p).filter q = m.entries.filter _
  rw [List.filter_filter]
  exact filter_congr fun e _ => Bool.and_comm _ _

theorem map_fst_map (f : K × V → V) (l : List (K × V)) :
    (l.map fun e => (e.1,f e)).map Prod.fst = l.map Prod.fst := by
  rw [map_map]
  exact map_congr_left fun e _ => rfl

def mapValues (f : K × V → V) (m : IterMap K V) : IterMap K V :=
  ⟨m.entries.map fun e => (e.1,f e),by rw [map_fst_map]; exact m.nodup⟩

variable [DecidableEq K]

def get (m : IterMap K V) (it : Option K) : Except Fault (K × V) :=
  match it with
  | none => .error .dangling
  | some k => match m.entries.find? fun e => e.1 = k with
    | none => .error .dangling
    | some e => .ok e

def next (m : IterMap K V) (it : Option K) : Except Fault (Option K) :=
  match it with
  | none => .error .dangling
  | some k => match m.entries.dropWhile fun e => e.1 ≠ k with
    | [] => .error .dangling
    | _::rest => .ok (rest.head?.map Prod.fst)

def erase (m : IterMap K V) (it : Option K) : Except Fault (IterMap K V) :=
  match it with
  | none => .error .dangling
  | some k => if m.entries.any fun e => e.1 = k then .ok (m.filter fun e => e.1 ≠ k) else .error .dangling

def modify (k : K) (f : V → V) (m : IterMap K V) : IterMap K V :=
  m.mapValues fun e => if e.1 = k then f e.2 else e.2

section

variable {W : Type} {g : V → W} {m : IterMap K V} {L₁ L₂ : List (K × W)} {x : K × W} {e : K × V}

def view (g : V → W) (m : IterMap K V) : List (K × W) := m.entries.map (Prod.map id g)

omit [DecidableEq K] in
theorem split_of_view (h : m.view g = L₁++x::L₂) :
    ∃ l₁ v l₂, m.entries = l₁++(x.1,v)::l₂ ∧ l₁.map (Prod.map id g) = L₁ ∧ g v = x.2 ∧
      l₂.map (Prod.map id g) = L₂ ∧
      ∀ y ∈ l₁++l₂, y.1 ≠ x.1 := by
  obtain ⟨l₁,l,hl,hl₁,hrest⟩ := map_eq_append_iff.mp h
  obtain ⟨⟨k,v⟩,l₂,rfl,rfl,hl₂⟩ := map_eq_cons_iff.mp hrest
  have hnodup := m.nodup
  rw [hl,map_append,map_cons,nodup_append] at hnodup
  obtain ⟨-,hcons,hdisjoint⟩ := hnodup
  refine ⟨l₁,v,l₂,hl,hl₁,rfl,hl₂,fun y hy heq => ?_⟩
  rcases mem_append.mp hy with hy | hy
  · exact hdisjoint y.1 (mem_map_of_mem hy) k mem_cons_self heq
  · exact (nodup_cons.mp hcons).1 (heq ▸ mem_map_of_mem hy)

omit [DecidableEq K] in
theorem begin_eq (g : V → W) (m : IterMap K V) : m.begin = (m.view g).head?.map Prod.fst := by
  rw [view,head?_map,Option.map_map]
  rfl

theorem get_of_view (h : m.view g = L₁++x::L₂) :
    ∃ v, m.get (some x.1) = .ok (x.1,v) ∧ g v = x.2 := by
  obtain ⟨l₁,v,l₂,hl,-,hv,-,hne⟩ := split_of_view h
  have hfind : m.entries.find? (fun y => decide (y.1 = x.1)) = some (x.1,v) := by
    rw [hl,find?_append,find?_eq_none.mpr]
    · simp
    · intro y hy
      simpa using hne y (mem_append_left l₂ hy)
  exact ⟨v,by simp only [get,hfind],hv⟩

theorem next_of_view (h : m.view g = L₁++x::L₂) :
    m.next (some x.1) = .ok (L₂.head?.map Prod.fst) := by
  obtain ⟨l₁,v,l₂,hl,-,-,rfl,hne⟩ := split_of_view h
  have hdrop : m.entries.dropWhile (fun y => decide (y.1 ≠ x.1)) = (x.1,v)::l₂ := by
    rw [hl,dropWhile_append_of_pos]
    · simp
    · intro y hy
      simpa using hne y (mem_append_left l₂ hy)
  rw [head?_map,Option.map_map]
  simp only [next,hdrop]
  rfl

theorem erase_of_view (h : m.view g = L₁++x::L₂) :
    ∃ m', m.erase (some x.1) = .ok m' ∧ m'.view g = L₁++L₂ ∧
    m'.get (some x.1) = .error .dangling ∧ m'.next (some x.1) = .error .dangling := by
  obtain ⟨l₁,v,l₂,hl,rfl,-,rfl,hne⟩ := split_of_view h
  have hentries : (m.filter fun y => y.1 ≠ x.1).entries = l₁++l₂ := by
    show m.entries.filter _ = _
    rw [hl,filter_append,filter_cons_of_neg (by simp),← filter_append,filter_eq_self]
    intro y hy
    simpa using hne y hy
  have hfind : (l₁++l₂).find? (fun y => decide (y.1 = x.1)) = none := by
    rw [find?_eq_none]
    intro y hy
    simpa using hne y hy
  have hdrop : (l₁++l₂).dropWhile (fun y => decide (y.1 ≠ x.1)) = [] := by
    rw [dropWhile_eq_nil_iff]
    intro y hy
    simpa using hne y hy
  refine ⟨m.filter fun y => y.1 ≠ x.1,?_,?_,?_,?_⟩
  · simp only [erase]
    rw [if_pos]
    rw [hl]
    simp
  · rw [view,hentries,map_append]
  · simp only [get,hentries,hfind]
  · simp only [next,hentries,hdrop]

theorem view_modify (k : K) {f} (hf : ∀ v, g (f v) = g v) : (m.modify k f).view g = m.view g := by
  show (m.entries.map _).map _ = _
  rw [map_map]
  refine map_congr_left fun e _ => ?_
  show (e.1,g (if e.1 = k then f e.2 else e.2)) = (e.1,g e.2)
  split_ifs
  · rw [hf]
  · rfl

end

section

/-- Go through the elements. The body leaves the container, the iterator for the next turn, and
what else is carried along. -/
def walk (body : IterMap K V → K × V → σ → Except Fault (IterMap K V × Option K × σ)) :
    ℕ → IterMap K V → Option K → σ → Except Fault (IterMap K V × Option K × σ)
  | _, m, none, s => .ok (m,none,s)
  | 0, _, some _, _ => .error .outOfFuel
  | fuel+1, m, some k, s => do
    let e ← m.get (some k)
    let (m,it,s) ← body m e s
    walk body fuel m it s

def walkAll (body : IterMap K V → K × V → σ → Except Fault (IterMap K V × Option K × σ))
    (m : IterMap K V) (s : σ) :
    Except Fault (IterMap K V × Option K × σ) :=
  walk body m.entries.length m m.begin s

variable {W : Type} {g : V → W} {bad gone : K × W → Bool}
  {body : IterMap K V → K × V → σ → Except Fault (IterMap K V × Option K × σ)}

/-- One turn: at a bad element there is a fault, and otherwise the next one is reached, with this
one gone or not. -/
def Turns (g : V → W) (bad gone : K × W → Bool)
    (body : IterMap K V → K × V → σ → Except Fault (IterMap K V × Option K × σ)) : Prop :=
  ∀ (m : IterMap K V) (L₁ L₂ : List (K × W)) (k : K) (v : V) (s : σ), m.view g = L₁++(k,g v)::L₂ →
    m.get (some k) = .ok (k,v) →
    bad (k,g v) = true ∧ body m (k,v) s = .error .dangling ∨
      bad (k,g v) = false ∧ ∃ m' s', body m (k,v) s = .ok (m',L₂.head?.map Prod.fst,s') ∧
        m'.view g = L₁++if gone (k,g v) then L₂ else (k,g v)::L₂

theorem walk_cases (hbody : Turns g bad gone body) {fuel m L₁ L₂} (h : m.view g = L₁++L₂)
    (hfuel : L₂.length ≤ fuel) (s : σ) :
    L₂.any bad ∧ walk body fuel m (L₂.head?.map Prod.fst) s = .error .dangling ∨
      L₂.any bad = false ∧ ∃ m' s', walk body fuel m (L₂.head?.map Prod.fst) s = .ok (m',none,s') ∧
        m'.view g = L₁++L₂.filter fun x => !gone x := by
  induction L₂ generalizing fuel m L₁ s with
  | nil =>
    refine .inr ⟨rfl,m,s,?_,h⟩
    cases fuel <;> rfl
  | cons x L₂ ih =>
    rw [length_cons] at hfuel
    obtain ⟨fuel,rfl⟩ : ∃ n, fuel = n+1 := ⟨fuel-1,by omega⟩
    have hfuel' : L₂.length ≤ fuel := Nat.le_of_succ_le_succ hfuel
    obtain ⟨k,w⟩ := x
    obtain ⟨v,hget,rfl⟩ := get_of_view h
    rw [head?_cons,Option.map_some,walk,hget,any_cons]
    obtain ⟨hbad,hturn⟩ | ⟨hbad,m',s',hturn,hm'⟩ := hbody m L₁ L₂ k v s h hget
    · refine .inl ⟨by rw [hbad,Bool.true_or],?_⟩
      simp only [bind,Except.bind,hturn]
    · simp only [bind,Except.bind,hturn,hbad,Bool.false_or]
      cases hgone : gone (k,g v) with
      | true =>
        rw [hgone,if_pos rfl] at hm'
        rw [filter_cons_of_neg (by simp [hgone])]
        exact ih hm' hfuel' s'
      | false =>
        have hsplit : m'.view g = (L₁++[(k,g v)])++L₂ := by
          rw [hm',hgone,if_neg Bool.false_ne_true,append_assoc]
          rfl
        have hrest := ih hsplit hfuel' s'
        rw [append_assoc] at hrest
        rw [filter_cons_of_pos (by simp [hgone])]
        exact hrest

theorem walkAll_cases (hbody : Turns g bad gone body) (m : IterMap K V) (s : σ) :
    (m.view g).any bad ∧ walkAll body m s = .error .dangling ∨
      (m.view g).any bad = false ∧ ∃ m' s', walkAll body m s = .ok (m',none,s') ∧
        m'.view g = (m.view g).filter fun x => !gone x := by
  have hlength : (m.view g).length ≤ m.entries.length := by rw [view,length_map]
  have h := walk_cases hbody (nil_append (m.view g)).symm hlength s
  rw [← begin_eq g m] at h
  exact h

/-- Erase while going through: the iterator is advanced before its element is erased. -/
def sweep (p : K × V → Bool) (onErase : σ → K × V → σ) (m : IterMap K V) (e : K × V) (s : σ) :
    Except Fault (IterMap K V × Option K × σ) := do
  let it ← m.next (some e.1)
  if p e then do
    let m ← m.erase (some e.1)
    .ok (m,it,onErase s e)
  else .ok (m,it,s)

omit [DecidableEq K] in
theorem view_id (m : IterMap K V) : m.view id = m.entries := map_id _

theorem turns_sweep (p : K × V → Bool) (onErase : σ → K × V → σ) :
    Turns id (fun _ => false) p (sweep p onErase) := by
  intro m L₁ L₂ k v s h _
  refine .inr ⟨rfl,?_⟩
  have hnext := next_of_view h
  by_cases hp : p (k,v)
  · obtain ⟨m',herase,hm',-,-⟩ := erase_of_view h
    refine ⟨m',onErase s (k,v),?_,?_⟩
    · simp only [sweep,bind,Except.bind,hnext,hp,if_true,herase]
    · show m'.view id = L₁++if p (k,v) then L₂ else (k,v)::L₂
      rw [hm',if_pos hp]
  · refine ⟨m,s,?_,?_⟩
    · simp only [sweep,bind,Except.bind,hnext,hp]
      rfl
    · show m.view id = L₁++if p (k,v) then L₂ else (k,v)::L₂
      rw [h,if_neg hp]
      rfl

/-- Such a loop has no fault, and leaves what it is not to erase. -/
theorem walkAll_sweep (p : K × V → Bool) (onErase : σ → K × V → σ) (m : IterMap K V) (s : σ) :
    ∃ s', walkAll (sweep p onErase) m s = .ok (m.filter fun e => !p e,none,s') := by
  obtain ⟨hfalse,-⟩ | ⟨-,m',s',hrun,hm'⟩ := walkAll_cases (turns_sweep p onErase) m s
  · simp at hfalse
  · rw [view_id,view_id] at hm'
    obtain rfl : m' = m.filter fun e => !p e := ext hm'
    exact ⟨s',hrun⟩

end

end IterMap

end Iteration
