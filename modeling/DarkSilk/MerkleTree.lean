import DarkSilk.WalletSpends

/-! Merkle trees: branches lead to the root, and without collisions the root determines the
transactions. -/
namespace DarkSilk
namespace MerkleTree

open PrefixCode CBlock List
open WalletSpends.CWalletTx (merkleBranch)

variable (P : Params)

def pairHash (a b : UInt256) : UInt256 := P.hash (leBytes 32 a.toNat++leBytes 32 b.toNat)

def climb : UInt256 → List UInt256 → ℤ → UInt256
  | hash, [], _ => hash
  | hash, otherside::vMerkleBranch, nIndex =>
    climb (if nIndex%2 = 1 then pairHash P otherside hash else pairHash P hash otherside) vMerkleBranch (nIndex/2)

def checkMerkleBranch (hash : UInt256) (vMerkleBranch : List UInt256) (nIndex : ℤ) : UInt256 :=
  if nIndex = -1 then 0 else climb P hash vMerkleBranch nIndex

def txids (b : CBlock) : List UInt256 := b.vtx.map (CTransaction.getHash P)

def getMerkleBranch (b : CBlock) (nIndex : ℕ) : List UInt256 :=
  merkleBranch P b.vtx.length nIndex (txids P b)

def levelPairs : List UInt256 → List (UInt256 × UInt256)
  | [] => []
  | [a] => [(a,a)]
  | a::b::l => (a,b)::levelPairs l

def merklePairs : ℕ → List UInt256 → List (UInt256 × UInt256)
  | k+1, a::b::l => levelPairs (a::b::l)++merklePairs k (merkleLevel P (a::b::l))
  | _, _ => []

variable {P} {S : List (UInt256 × UInt256)} {T l m : List UInt256} {a r : UInt256} {k i d : ℕ}

theorem merkleLevel_eq (l) : merkleLevel P l = (levelPairs l).map fun p => pairHash P p.1 p.2 := by
  induction l using levelPairs.induct with
  | case1 | case2 => rfl
  | case3 a b l ih => rw [merkleLevel,ih]; rfl

theorem levelPairs_getElem? (l q) :
    (levelPairs l)[q]? = (l[2*q]?).map fun a => (a,(l[2*q+1]?).getD a) := by
  induction l using levelPairs.induct generalizing q with
  | case1 => rfl
  | case2 a => cases q <;> simp [levelPairs,Nat.mul_add]
  | case3 a b l ih =>
    cases q with
    | zero => rfl
    | succ q => simp [levelPairs,Nat.mul_add,ih]

theorem merkleLevel_getElem? (h : l[i]? = some a) :
    (merkleLevel P l)[i/2]? = some
    (if i%2 = 1 then pairHash P (l.getD (min (i^^^1) (l.length-1)) 0) a
      else pairHash P a (l.getD (min (i^^^1) (l.length-1)) 0)) := by
  have hi := (List.getElem?_eq_some_iff.mp h).1
  rw [merkleLevel_eq,getElem?_map,levelPairs_getElem?,getD_eq_getElem?_getD]
  rcases Nat.even_or_odd' i with ⟨q,rfl | rfl⟩
  · have hmod : 2*q%2 ≠ 1 := by omega
    rw [if_neg hmod,Nat.xor_one_of_even (even_two_mul q),Nat.mul_div_cancel_left q (by omega),h]
    by_cases hlast : 2*q+1 < l.length
    · rw [min_eq_left (by omega),getElem?_eq_getElem hlast]
      rfl
    · have hlen : l.length-1 = 2*q := by omega
      rw [getElem?_eq_none (by omega),hlen,min_eq_right (by omega),h]
      rfl
  · have hq : (2*q+1)/2 = q := by omega
    have hmod : (2*q+1)%2 = 1 := by omega
    rw [if_pos hmod,Nat.xor_one_of_odd (odd_two_mul_add_one q),hq,Nat.add_sub_cancel,min_eq_left (by omega),
      getElem?_eq_getElem (by omega : 2*q < l.length),h]
    rfl

theorem length_merkleLevel (l) : (merkleLevel P l).length = (l.length+1)/2 := by
  induction l using levelPairs.induct with
  | case1 | case2 => simp [merkleLevel]
  | case3 a b l ih =>
    simp only [merkleLevel,length_cons,ih]
    omega

theorem climb_merkleBranch (h : l[i]? = some a) (hk : l.length ≤ k+1) :
    climb P a (merkleBranch P k i l) i = merkleRoot P k l := by
  induction k generalizing l i a with
  | zero =>
    obtain ⟨x,rfl⟩ := length_eq_one_iff.mp (hk.antisymm (length_pos_of_mem (mem_of_getElem? h)))
    obtain rfl : x = a := mem_singleton.mp (mem_of_getElem? h) |>.symm
    rfl
  | succ k ih =>
    match l with
    | [] => cases h
    | [x] =>
      obtain rfl : x = a := mem_singleton.mp (mem_of_getElem? h) |>.symm
      rfl
    | x::y::l =>
      have hmod : ((i : ℤ)%2 = 1) = (i%2 = 1) := by rw [eq_iff_iff]; omega
      have hlevel := merkleLevel_getElem? (P := P) h
      have hlen := length_merkleLevel (P := P) (x::y::l)
      rw [merkleBranch,climb,merkleRoot,← ih hlevel (by rw [hlen]; simp at hk ⊢; omega)]
      simp only [hmod]
      rfl
      all_goals simp

/-- A list is reduced to its root in some levels, all pairs of which are among given ones. -/
inductive Climbs (P : Params) (S : List (UInt256 × UInt256)) : ℕ → List UInt256 → UInt256 → Prop
  | root (r : UInt256) : Climbs P S 0 [r] r
  | level {d : ℕ} {l : List UInt256} {r : UInt256} : levelPairs l ⊆ S → Climbs P S d (merkleLevel P l) r → Climbs P S (d+1) l r

theorem climbs_merkleRoot (hl : l ≠ []) (hk : l.length ≤ k+1) (hS : merklePairs P k l ⊆ S) :
    ∃ d, Climbs P S d l (merkleRoot P k l) := by
  induction k generalizing l with
  | zero =>
    obtain ⟨x,rfl⟩ := length_eq_one_iff.mp (hk.antisymm (length_pos_iff.mpr hl))
    exact ⟨0,.root x⟩
  | succ k ih =>
    match l with
    | [x] => exact ⟨0,.root x⟩
    | x::y::l =>
      obtain ⟨hlevel,hrest⟩ := append_subset.mp hS
      have hlen := length_merkleLevel (P := P) (x::y::l)
      obtain ⟨d,hd⟩ := ih (by simp [merkleLevel]) (by rw [hlen]; simp at hk ⊢; omega) hrest
      exact ⟨d+1,.level hlevel hd⟩

theorem fst_levelPairs_sublist (l) : ((levelPairs l).map Prod.fst).Sublist l := by
  induction l using levelPairs.induct with
  | case1 | case2 => exact Sublist.refl _
  | case3 a b l ih => exact (ih.cons b).cons_cons a

theorem levelPairs_inj (hl : l.Nodup) (hm : m.Nodup) (h : levelPairs l = levelPairs m) : l = m := by
  induction l using levelPairs.induct generalizing m with
  | case1 =>
    match m with
    | [] => rfl
    | [_] | _::_::_ => cases h
  | case2 a =>
    match m with
    | [] => cases h
    | [b] => simpa [levelPairs] using h
    | b::c::m =>
      simp only [levelPairs,cons.injEq,Prod.mk.injEq] at h
      simp [← h.1.1,← h.1.2] at hm
  | case3 a b l ih =>
    match m with
    | [] => cases h
    | [c] => simp_all [levelPairs]
    | c::d::m =>
      obtain ⟨hpair,hrest⟩ := cons.inj h
      cases hpair
      rw [ih hl.of_cons.of_cons hm.of_cons.of_cons hrest]

structure NoCollision (P : Params) (S : List (UInt256 × UInt256)) (T : List UInt256) : Prop where
  inj : ∀ p ∈ S, ∀ q ∈ S, pairHash P p.1 p.2 = pairHash P q.1 q.2 → p = q
  leaf : ∀ p ∈ S, pairHash P p.1 p.2 ∉ T

inductive NodeAt (P : Params) (S : List (UInt256 × UInt256)) (T : List UInt256) : ℕ → UInt256 → Prop
  | leaf {x : UInt256} : x ∈ T → NodeAt P S T 0 x
  | node {h : ℕ} {p : UInt256 × UInt256} : p ∈ S → NodeAt P S T h p.1 → NodeAt P S T (h+1) (pairHash P p.1 p.2)

theorem NodeAt.unique (hS : NoCollision P S T) {h h'} (hr : NodeAt P S T h r)
    (hr' : NodeAt P S T h' r) : h = h' := by
  induction hr generalizing h' with
  | leaf hx =>
    cases hr' with
    | leaf => rfl
    | node hp => exact absurd hx (hS.leaf _ hp)
  | @node h p hp hn ih =>
    generalize hx : pairHash P p.1 p.2 = x at hr'
    cases hr' with
    | leaf hmem => exact absurd (hx ▸ hmem) (hS.leaf p hp)
    | node hq hn' =>
      obtain rfl := hS.inj p hp _ hq hx
      rw [ih hn']

theorem Climbs.nodeAt {s} (h : Climbs P S d l r) (hl : ∀ x ∈ l, NodeAt P S T s x) :
    NodeAt P S T (s+d) r := by
  induction h generalizing s with
  | root r => exact hl r mem_cons_self
  | @level d l r hsub _ ih =>
    have hup : ∀ x ∈ merkleLevel P l, NodeAt P S T (s+1) x := by
      intro x hx
      rw [merkleLevel_eq] at hx
      obtain ⟨p,hp,rfl⟩ := mem_map.mp hx
      exact .node (hsub hp) (hl _ ((fst_levelPairs_sublist l).subset (mem_map_of_mem hp)))
    rw [add_comm d,← add_assoc]
    exact ih hup

theorem nodup_merkleLevel (hS : NoCollision P S T) (hsub : levelPairs l ⊆ S) (hl : l.Nodup) :
    (merkleLevel P l).Nodup := by
  rw [merkleLevel_eq]
  exact (Nodup.of_map Prod.fst (hl.sublist (fst_levelPairs_sublist l))).map_on fun p hp q hq =>
    hS.inj p (hsub hp) q (hsub hq)

theorem Climbs.inj (hS : NoCollision P S T) (h : Climbs P S d l r) (h' : Climbs P S d m r)
    (hl : l.Nodup) (hm : m.Nodup) : l = m := by
  induction h generalizing m with
  | root r =>
    cases h'
    rfl
  | level hsub _ ih =>
    cases h' with
    | level hsub' hrest =>
      have heq := ih hrest (nodup_merkleLevel hS hsub hl) (nodup_merkleLevel hS hsub' hm)
      rw [merkleLevel_eq,merkleLevel_eq] at heq
      have hinv : ∀ l ⊆ S, (l.map fun p => pairHash P p.1 p.2).map
          (Function.invFunOn (fun p => pairHash P p.1 p.2) {p | p ∈ S}) = l := by
        intro l hl
        rw [map_map]
        have hleft := Set.InjOn.leftInvOn_invFunOn (f := fun p => pairHash P p.1 p.2) (s := {p | p ∈ S}) hS.inj
        exact (map_congr_left fun p hp => hleft (hl hp)).trans (map_id l)
      refine levelPairs_inj hl hm ?_
      rw [← hinv _ hsub,heq,hinv _ hsub']

/-- The branch of a transaction leads to the root of its block, and different transactions
without collisions have different roots. -/
theorem merkle_proofs (P : Params) :
    (∀ (b : CBlock) (i : ℕ) (tx : CTransaction), b.vtx[i]? = some tx →
      checkMerkleBranch P (tx.getHash P) (getMerkleBranch P b i) i = b.buildMerkleTree P) ∧
    ∀ b b' : CBlock, b.vtx ≠ [] → b'.vtx ≠ [] → (txids P b).Nodup → (txids P b').Nodup →
      NoCollision P (merklePairs P b.vtx.length (txids P b)++merklePairs P b'.vtx.length
        (txids P b'))
        (txids P b++txids P b') →
      b.buildMerkleTree P = b'.buildMerkleTree P → txids P b = txids P b' := by
  have hlen : ∀ b, (txids P b).length ≤ b.vtx.length+1 := fun b => by simp [txids]
  constructor
  · intro b i tx h
    rw [checkMerkleBranch,if_neg (by omega)]
    exact climb_merkleBranch (by rw [txids,getElem?_map,h]; rfl) (hlen b)
  · intro b b' hb hb' hnd hnd' hS heq
    generalize hA : merklePairs P b.vtx.length (txids P b) = A at hS
    generalize hB : merklePairs P b'.vtx.length (txids P b') = B at hS
    obtain ⟨d,hd⟩ := climbs_merkleRoot (by simpa [txids] using hb) (hlen b) fun _ hx =>
      mem_append_left B (hA ▸ hx)
    obtain ⟨d',hd'⟩ := climbs_merkleRoot (by simpa [txids] using hb') (hlen b') fun _ hx =>
      mem_append_right A (hB ▸ hx)
    have hroot : merkleRoot P b.vtx.length (txids P b) = merkleRoot P b'.vtx.length (txids P b') := heq
    rw [← hroot] at hd'
    have hnode := hd.nodeAt (s := 0) fun x hx => NodeAt.leaf (mem_append_left (txids P b') hx)
    have hnode' := hd'.nodeAt (s := 0) fun x hx => NodeAt.leaf (mem_append_right (txids P b) hx)
    obtain rfl : d = d' := by simpa using hnode.unique hS hnode'
    exact hd.inj hS hd' hnd hnd'

open Sample

theorem merkle_proofs_two : let b := block 0 1000 [coinbase 0 1000 0,coinbase 1 1000 0]
    checkMerkleBranch params ((coinbase 1 1000 0).getHash params) (getMerkleBranch params b 1) 1 =
        b.buildMerkleTree params ∧ (txids params b).Nodup ∧
      ∀ b', b' = b → txids params b = txids params b' := by
  intro b
  obtain ⟨hbranch,hroot⟩ := merkle_proofs params
  have hnd : (txids params b).Nodup := by decide +kernel
  refine ⟨hbranch b 1 _ rfl,hnd,?_⟩
  rintro _ rfl
  refine hroot b b (cons_ne_nil _ _) (cons_ne_nil _ _) hnd hnd ⟨?_,?_⟩ rfl
  · intro p hp q hq _
    have hp : p ∈ [_,_] := hp
    have hq : q ∈ [_,_] := hq
    simp_all
  · intro p hp
    have hp : p ∈ [_,_] := hp
    simp only [mem_cons,not_mem_nil,or_false,or_self] at hp
    rw [hp]
    decide +kernel

end MerkleTree
end DarkSilk
