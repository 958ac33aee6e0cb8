import DarkSilk.ConnectBlock
import DarkSilk.Runs

/-! The rank of a stormnode at a block height: hashes of blocks are read from the best chain
once and kept in a cache, and the stormnodes are sorted by their scores for the hash. -/
namespace DarkSilk

open PrefixCode Runs List Option

/-- A stormnode as far as the ranking goes; whether it is enabled is what Check finds. -/
structure RankedStormnode where
  vin : COutPoint
  protocolVersion : ℤ
  isEnabled : Bool
  deriving DecidableEq

structure RankState where
  pindexBest : Option CBlockIndex
  mapCacheBlockHashes : ℤ → Option UInt256

def RankState.fresh (pindexBest : Option CBlockIndex) : RankState := ⟨pindexBest,fun _ => none⟩

/-- The loop back from the best block; the first block of the chain ends it. -/
def readBack : ℕ → List BlockIndexData → Option UInt256
  | 0, d::_::_ => some d.hashBlock
  | nBlocksAgo+1, _::d::l => readBack nBlocksAgo (d::l)
  | _, _ => none

/-- What GetBlockHash does for a height that is not in the cache. -/
def readBlockHash (tip : CBlockIndex) (nBlockHeight : ℤ) : Option UInt256 :=
  if tip.nHeight = 0 || tip.nHeight+1 < nBlockHeight then none
  else readBack (if nBlockHeight > 0 then (tip.nHeight+1-nBlockHeight).toNat else 0) tip.path

/-- The height zero stands for that of the best block. -/
def heightKey (tip : CBlockIndex) (nBlockHeight : ℤ) : ℤ :=
  if nBlockHeight = 0 then tip.nHeight else nBlockHeight

def RankState.getBlockHash (s : RankState) (nBlockHeight : ℤ) : Option UInt256 × RankState :=
  match s.pindexBest with
  | none => (none,s)
  | some tip =>
    match s.mapCacheBlockHashes (heightKey tip nBlockHeight) with
    | some hash => (some hash,s)
    | none =>
      match readBlockHash tip (heightKey tip nBlockHeight) with
      | none => (none,s)
      | some hash => (some hash,{ s with
          mapCacheBlockHashes := Function.update s.mapCacheBlockHashes (heightKey tip nBlockHeight) (some hash) })

variable (P : Params)

/-- The distance of the two hashes, of the block and of the block with the stormnode. -/
def scoreFor (hash : UInt256) (prevout : COutPoint) : UInt256 :=
  let aux := prevout.hash+BitVec.ofNat 256 prevout.n.toNat
  let hash2 := P.hash (leBytes 32 hash.toNat)
  let hash3 := P.hash (leBytes 32 hash.toNat++leBytes 32 aux.toNat)
  if hash3 > hash2 then hash3-hash2 else hash2-hash3

def RankState.calculateScore (s : RankState) (prevout : COutPoint) (nBlockHeight : ℤ) : UInt256 :=
  match (s.getBlockHash nBlockHeight).1 with
  | none => 0
  | some hash => scoreFor P hash prevout

/-- Three bytes of mantissa behind the number of bytes. -/
def getCompact (n : UInt256) : ℤ :=
  let nSize := ((if n.toNat = 0 then 0 else n.toNat.log2+1)+7)/8
  let nCompact := if nSize ≤ 3 then n.toNat*256^(3-nSize) else n.toNat/256^(nSize-3)
  -- the sign bit of the mantissa stays clear
  ((if nCompact/2^23%2 = 1 then nCompact/256+(nSize+1)*2^24 else nCompact+nSize*2^24 : ℕ) : ℤ)

/-- The library sort with the comparison of the scores, from the back of the vector:
the highest score comes first, and equal scores in any order. -/
structure ScoreSort where
  sort : List (ℤ × COutPoint) → List (ℤ × COutPoint)
  perm : ∀ v, (sort v).Perm v
  sorted : ∀ v, (sort v).Pairwise fun x y => y.1 ≤ x.1

def takesPart (minProtocol : ℤ) (fOnlyActive : Bool) (sn : RankedStormnode) : Bool :=
  !(sn.protocolVersion < minProtocol) && (!fOnlyActive || sn.isEnabled)

/-- The position of a stormnode, counted from one. -/
def rankIn (vecStormnodeScores : List (ℤ × COutPoint)) (vin : COutPoint) : ℤ :=
  match vecStormnodeScores.findIdx? fun s => s.2 = vin with
  | none => -1
  | some i => i+1

def RankState.getStormnodeRank (S : ScoreSort) (s : RankState) (vStormnodes : List RankedStormnode)
    (vin : COutPoint) (nBlockHeight minProtocol : ℤ) (fOnlyActive : Bool) : ℤ × RankState :=
  match s.getBlockHash nBlockHeight with
  | (none,t) => (-1,t)
  | (some _,t) => (rankIn (S.sort ((vStormnodes.filter (takesPart minProtocol fOnlyActive)).map fun sn =>
      (getCompact (t.calculateScore P sn.vin nBlockHeight),sn.vin))) vin,t)

inductive RankOp where
  | getBlockHash (nBlockHeight : ℤ)
  | getStormnodeRank (vStormnodes : List RankedStormnode) (vin : COutPoint) (nBlockHeight minProtocol : ℤ)
      (fOnlyActive : Bool)
  | setBestChain (pindexNew : CBlockIndex)

def RankState.step (S : ScoreSort) (s : RankState) : RankOp → RankState
  | .getBlockHash nBlockHeight => (s.getBlockHash nBlockHeight).2
  | .getStormnodeRank vStormnodes vin nBlockHeight minProtocol fOnlyActive =>
    (s.getStormnodeRank P S vStormnodes vin nBlockHeight minProtocol fOnlyActive).2
  | .setBestChain pindexNew => { s with pindexBest := some pindexNew }

variable {P} {S : ScoreSort} {s : RankState}

def blockAt (pindexBest : Option CBlockIndex) (n : ℕ) : Option UInt256 :=
  pindexBest.bind fun tip => (tip.path.reverse[n]?).map BlockIndexData.hashBlock

/-- A new best block keeps the blocks whose hashes are cached, and there is none that is
cached under a negative height. -/
def Kept (s : RankState) : RankOp → Prop
  | .setBestChain pindexNew => ∀ k hash, s.mapCacheBlockHashes k = some hash →
      0 < k ∧ blockAt (some pindexNew) (k-1).toNat = blockAt s.pindexBest (k-1).toNat
  | _ => True

/-- The cache says what a new process would read. -/
def Coherent (s : RankState) : Prop :=
  ∀ k hash, s.mapCacheBlockHashes k = some hash → s.pindexBest.bind (fun tip => readBlockHash tip k) = some hash

theorem readBack_eq (n l) :
    readBack n l = if n+1 < l.length then (l[n]?).map BlockIndexData.hashBlock else none := by
  induction n, l using readBack.induct with
  | case1 d e l => simp [readBack]
  | case2 n d e l ih => simp [readBack,ih]
  | case3 n l h1 h2 =>
    rcases l with _ | ⟨d,_ | ⟨e,l⟩⟩
    · cases n <;> simp [readBack]
    · cases n <;> simp [readBack]
    · cases n with
      | zero => exact absurd rfl (h1 d e l rfl)
      | succ n => exact absurd rfl (h2 n d e l rfl)

theorem readBlockHash_of_pos (tip) {k} (hk : 0 < k) :
    readBlockHash tip k = if 2 ≤ k then blockAt (some tip) (k-1).toNat else none := by
  have hlen : tip.path.length = tip.nHeight+1 := by simp [CBlockIndex.path,CBlockIndex.nHeight]
  unfold readBlockHash blockAt
  rw [if_pos hk,readBack_eq,hlen,bind_some]
  by_cases hhigh : tip.nHeight+1 < k
  · rw [if_pos (by simp [hhigh]),getElem?_eq_none (by rw [length_reverse,hlen]; omega)]
    simp
  · by_cases hlow : 2 ≤ k
    · rw [if_neg (by simp; omega),if_pos (by omega),if_pos hlow,
        getElem?_reverse (by rw [hlen]; omega),hlen]
      congr 2
      omega
    · rw [if_neg hlow]
      split_ifs with h1 h2
      · rfl
      · omega
      · rfl

open RankState

/-- A coherent cache is invisible, stays coherent, and holds the answer afterwards. -/
theorem Coherent.getBlockHash (hs : Coherent s) (nBlockHeight) :
    (s.getBlockHash nBlockHeight).1 = ((fresh s.pindexBest).getBlockHash nBlockHeight).1 ∧
      Coherent (s.getBlockHash nBlockHeight).2 ∧ (s.getBlockHash nBlockHeight).2.pindexBest =
        s.pindexBest := by
  unfold RankState.getBlockHash fresh
  cases htip : s.pindexBest with
  | none => exact ⟨rfl,hs,htip⟩
  | some tip =>
    dsimp only
    cases hc : s.mapCacheBlockHashes (heightKey tip nBlockHeight) with
    | some hash =>
      have hread := hs _ hash hc
      rw [htip,bind_some] at hread
      rw [hread]
      exact ⟨rfl,hs,htip⟩
    | none =>
      cases hread : readBlockHash tip (heightKey tip nBlockHeight) with
      | none => exact ⟨rfl,hs,htip⟩
      | some hash =>
        refine ⟨rfl,fun k x hx => ?_,rfl⟩
        dsimp only at hx ⊢
        by_cases hk : k = heightKey tip nBlockHeight
        · rw [hk,Function.update_self] at hx
          rw [hk,bind_some,hread,hx]
        · rw [Function.update_of_ne hk] at hx
          rw [← htip]
          exact hs k x hx

theorem getStormnodeRank_snd (s : RankState) (v vin nBlockHeight minProtocol fOnlyActive) :
    (s.getStormnodeRank P S v vin nBlockHeight minProtocol fOnlyActive).2 =
      (s.getBlockHash nBlockHeight).2 := by
  unfold getStormnodeRank
  split <;> rename_i h <;> rw [h]

theorem Coherent.step (hs : Coherent s) {op} (hop : Kept s op) : Coherent (s.step P S op) := by
  cases op with
  | getBlockHash nBlockHeight => exact (hs.getBlockHash nBlockHeight).2.1
  | getStormnodeRank v vin nBlockHeight minProtocol fOnlyActive =>
    rw [RankState.step,getStormnodeRank_snd]
    exact (hs.getBlockHash nBlockHeight).2.1
  | setBestChain pindexNew =>
    intro k hash hx
    obtain ⟨hk,hat⟩ := hop k hash hx
    have hread := hs k hash hx
    cases htip : s.pindexBest with
    | none => simp [htip] at hread
    | some tip =>
      rw [htip] at hat hread
      rw [bind_some,readBlockHash_of_pos _ hk] at hread
      rw [RankState.step,bind_some,readBlockHash_of_pos _ hk,hat]
      exact hread

theorem kept_of_extends {tip pindexNew} (htip : s.pindexBest = some tip) (hs : Coherent s)
    (hpos : ∀ k hash, s.mapCacheBlockHashes k = some hash → 0 < k)
    (hext : tip.path <:+ pindexNew.path) :
    Kept s (.setBestChain pindexNew) := by
  intro k hash hx
  have hk := hpos k hash hx
  have hread := hs k hash hx
  rw [htip,bind_some,readBlockHash_of_pos _ hk,ite_none_right_eq_some] at hread
  obtain ⟨l,hl⟩ := hext
  refine ⟨hk,?_⟩
  rw [htip,hread.2]
  obtain ⟨d,hd,hhash⟩ := map_eq_some_iff.mp hread.2
  obtain ⟨hlt,hget⟩ := List.getElem?_eq_some_iff.mp hd
  rw [blockAt,bind_some,← hl,reverse_append,getElem?_append_left hlt,hd,map_some,hhash]

/-- With the highest score first, and no other stormnode with the score of the one asked
for, its rank is the number of higher scores, plus one. -/
theorem rankIn_eq {v vin c} (hsort : v.Pairwise fun x y => y.1 ≤ x.1)
    (hscore : ∀ x ∈ v, x.2 = vin → x.1 = c) (htie : ∀ x ∈ v, x.1 = c → x.2 = vin) :
    rankIn v vin = if v.any fun x =>
      x.2 = vin then ((v.countP fun x => c < x.1) : ℤ)+1 else -1 := by
  induction v with
  | nil => rfl
  | cons x v ih =>
    obtain ⟨hx,hv⟩ := pairwise_cons.mp hsort
    have ih := ih hv (fun y hy => hscore y (.tail x hy)) fun y hy => htie y (.tail x hy)
    by_cases hin : x.2 = vin
    · have hc := hscore x (.head v) hin
      have hzero : (x::v).countP (fun y => c < y.1) = 0 := by
        rw [countP_eq_zero]
        intro y hy
        cases hy with
        | head => simp [hc]
        | tail _ hy =>
          have := hx y hy
          simp
          omega
      rw [hzero]
      simp [rankIn,findIdx?_cons,hin]
    · have hne : x.1 ≠ c := fun h => hin (htie x (.head v) h)
      unfold rankIn at ih ⊢
      rw [findIdx?_cons]
      simp only [hin,decide_false,Bool.false_eq_true,if_false,any_cons,Bool.false_or]
      have hany : (v.findIdx? fun s => s.2 = vin).isSome = v.any fun s => s.2 = vin := findIdx?_isSome
      cases hf : v.findIdx? fun s => s.2 = vin with
      | none =>
        rw [hf] at hany
        rw [← hany]
        rfl
      | some i =>
        rw [hf] at hany ih
        rw [← hany] at ih ⊢
        obtain ⟨y,hy,hyin⟩ := any_eq_true.mp hany.symm
        have hle := hx y hy
        rw [hscore y (.tail x hy) (of_decide_eq_true hyin)] at hle
        rw [countP_cons_of_pos (by simp; omega)]
        simp at ih ⊢
        omega

theorem rankIn_congr {v v' vin c} (hperm : v.Perm v') (hsort : v.Pairwise fun x y => y.1 ≤ x.1)
    (hsort' : v'.Pairwise fun x y => y.1 ≤ x.1) (hscore : ∀ x ∈ v, x.2 = vin → x.1 = c)
    (htie : ∀ x ∈ v, x.1 = c → x.2 = vin) : rankIn v vin = rankIn v' vin := by
  rw [rankIn_eq hsort hscore htie,rankIn_eq hsort' (fun x hx => hscore x (hperm.mem_iff.mpr hx))
    fun x hx => htie x (hperm.mem_iff.mpr hx),hperm.countP_eq,hperm.any_eq]

def scoresFor (P : Params) (hash : UInt256) (minProtocol : ℤ) (fOnlyActive : Bool)
    (v : List RankedStormnode) :
    List (ℤ × COutPoint) :=
  (v.filter (takesPart minProtocol fOnlyActive)).map fun sn => (getCompact (scoreFor P hash sn.vin),sn.vin)

theorem Coherent.fresh (pindexBest) : Coherent (.fresh pindexBest) := by
  intro k hash hx
  simp [RankState.fresh] at hx

theorem Coherent.getStormnodeRank_fst (hs : Coherent s)
    (v vin nBlockHeight minProtocol fOnlyActive) :
    (s.getStormnodeRank P S v vin nBlockHeight minProtocol fOnlyActive).1 =
      match ((RankState.fresh s.pindexBest).getBlockHash nBlockHeight).1 with
      | none => -1
      | some hash => rankIn (S.sort (scoresFor P hash minProtocol fOnlyActive v)) vin := by
  obtain ⟨hfst,hcoh,htip⟩ := hs.getBlockHash nBlockHeight
  unfold getStormnodeRank
  rw [← hfst]
  cases hx : s.getBlockHash nBlockHeight with
  | mk x t =>
    rw [hx] at hfst hcoh htip
    cases x with
    | none => rfl
    | some hash =>
      have hagain : (t.getBlockHash nBlockHeight).1 = some hash := by
        rw [(hcoh.getBlockHash nBlockHeight).1,htip,← hfst]
      simp only [calculateScore,hagain,scoresFor]

/-- As long as no cached block leaves the best chain, a rank is what a new process with the
same chain and the same stormnodes, in any order, would give, except among equal scores. -/
theorem stormnodeRank_eq_fresh {l : List RankOp}
    (hrun : Always (step P S) Kept (.fresh none) l) {v v' : List RankedStormnode}
    (hperm : v.Perm v') {vin : COutPoint} {nBlockHeight minProtocol : ℤ} {fOnlyActive : Bool}
    (htie : ∀ hash, ((fresh (l.foldl (step P S) (.fresh none)).pindexBest).getBlockHash
        nBlockHeight).1 = some hash → ∀ sn ∈ v, takesPart minProtocol fOnlyActive sn →
      getCompact (scoreFor P hash sn.vin) = getCompact (scoreFor P hash vin) → sn.vin = vin) :
    ((l.foldl (step P S) (.fresh none)).getStormnodeRank P S v vin nBlockHeight minProtocol
      fOnlyActive).1 =
      ((fresh (l.foldl (step P S) (.fresh none)).pindexBest).getStormnodeRank P S v' vin
        nBlockHeight minProtocol fOnlyActive).1 := by
  have hcoh : Coherent (l.foldl (step P S) (.fresh none)) :=
    hrun.invariant (fun s op hs hop => hs.step hop) (.fresh none)
  generalize l.foldl (step P S) (.fresh none) = s at hcoh htie ⊢
  rw [hcoh.getStormnodeRank_fst,(Coherent.fresh s.pindexBest).getStormnodeRank_fst]
  cases hx : ((RankState.fresh s.pindexBest).getBlockHash nBlockHeight).1 with
  | none => simp only [fresh] at hx ⊢; rw [hx]
  | some hash =>
    have hentries : (scoresFor P hash minProtocol fOnlyActive v).Perm
        (scoresFor P hash minProtocol fOnlyActive v') :=
      (hperm.filter _).map _
    have hmem : ∀ x ∈ S.sort (scoresFor P hash minProtocol fOnlyActive v), ∃ sn ∈ v,
        takesPart minProtocol fOnlyActive sn ∧ x = (getCompact (scoreFor P hash sn.vin),sn.vin) := by
      intro x hin
      obtain ⟨sn,hsn,rfl⟩ := mem_map.mp ((S.perm _).mem_iff.mp hin)
      exact ⟨sn,(mem_filter.mp hsn).1,(mem_filter.mp hsn).2,rfl⟩
    have hcongr : rankIn (S.sort (scoresFor P hash minProtocol fOnlyActive v)) vin =
        rankIn (S.sort (scoresFor P hash minProtocol fOnlyActive v')) vin := by
      refine rankIn_congr (c := getCompact (scoreFor P hash vin))
        (((S.perm _).trans hentries).trans (S.perm _).symm)
        (S.sorted _) (S.sorted _) (fun x hin heq => ?_) fun x hin heq => ?_
      · obtain ⟨sn,-,-,rfl⟩ := hmem x hin
        rw [← heq]
      · obtain ⟨sn,hsn,hpart,rfl⟩ := hmem x hin
        exact htie hash hx sn hsn hpart heq
    simp only [fresh] at hx ⊢
    rw [hx]
    exact hcongr

/-! Two stormnodes, and a chain of two blocks, which is extended or replaced. -/
namespace Sample

def scoreSort : ScoreSort where
  sort := List.insertionSort fun x y => y.1 ≤ x.1
  perm := List.perm_insertionSort _
  sorted := by
    have : IsTrans (ℤ × COutPoint) fun x y => y.1 ≤ x.1 := ⟨fun _ _ _ h h' => h'.trans h⟩
    have : Std.Total fun (x y : ℤ × COutPoint) => y.1 ≤ x.1 := ⟨fun x y => le_total y.1 x.1⟩
    exact List.pairwise_insertionSort _

def rankBlock (hashBlock : UInt256) : BlockIndexData := { genesis with hashBlock := hashBlock }

def rankTip : CBlockIndex := ⟨rankBlock 7,[rankBlock 1000003,genesis]⟩

def longerTip : CBlockIndex := ⟨rankBlock 8,[rankBlock 7,rankBlock 1000003,genesis]⟩

def otherBranch : CBlockIndex := ⟨rankBlock 10,[rankBlock 9,rankBlock 2000006,genesis]⟩

def ranked : List RankedStormnode := [⟨⟨5,0⟩,60700,true⟩,⟨⟨123456789,0⟩,60700,true⟩]

/-- A rank is asked for at height two, and then there is a new best block. -/
def rankRun (pindexNew : CBlockIndex) : List RankOp :=
  [.setBestChain rankTip,.getStormnodeRank ranked ⟨5,0⟩ 2 0 true,.setBestChain pindexNew]

def rankAfter (pindexNew : CBlockIndex) : RankState :=
  (rankRun pindexNew).foldl (RankState.step params scoreSort) (.fresh none)

end Sample

open Sample

theorem stormnodeRank_eq_fresh_longer :
    ((rankAfter longerTip).getStormnodeRank params scoreSort Sample.ranked ⟨5,0⟩ 2 0 true).1 =
      ((fresh (rankAfter longerTip).pindexBest).getStormnodeRank params scoreSort
        Sample.ranked.reverse ⟨5,0⟩ 2 0 true).1 := by
  have hfirst : Kept (.fresh none) (.setBestChain rankTip) := by
    intro k hash hx
    simp [fresh] at hx
  have hcoh : Coherent (fresh (some rankTip)) := .fresh _
  have hcache : ((fresh (some rankTip)).getBlockHash 2).2.mapCacheBlockHashes =
      Function.update (fun _ => none) 2 (some 1000003) := rfl
  have hlast : Kept ((fresh (some rankTip)).getBlockHash 2).2 (.setBestChain longerTip) := by
    refine kept_of_extends (hcoh.getBlockHash 2).2.2 (hcoh.getBlockHash 2).2.1 (fun k hash hx => ?_)
      ⟨[rankBlock 8],rfl⟩
    rw [hcache,Function.update_apply] at hx
    split_ifs at hx with hk
    omega
  have hrun : Always (step params scoreSort) Kept (.fresh none)
      (rankRun longerTip) := ⟨hfirst,trivial,hlast,trivial⟩
  refine stormnodeRank_eq_fresh hrun (reverse_perm _).symm fun hash hhash => ?_
  have hread : ((fresh (rankAfter longerTip).pindexBest).getBlockHash 2).1 = some 1000003 := by
    decide +kernel
  obtain rfl := some.inj (hread.symm.trans hhash)
  decide +kernel

/-- After a reorganisation the rank is still that for the block which was left. -/
theorem stormnodeRank_stale :
    ((rankAfter otherBranch).getStormnodeRank params scoreSort Sample.ranked ⟨5,0⟩ 2 0 true).1 = 2 ∧
      ((fresh (rankAfter otherBranch).pindexBest).getStormnodeRank params scoreSort
        Sample.ranked ⟨5,0⟩ 2 0 true).1 = 1 := by
  decide +kernel

end DarkSilk
