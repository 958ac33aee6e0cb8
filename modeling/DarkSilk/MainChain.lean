import DarkSilk.BlockFile

/-! Block locators and the look-up of a block by its height. Both look for blocks of the main
chain, the one by listed hashes, the other along the pointers from block to block. -/
namespace DarkSilk

open List Option CBlockIndex

namespace CBlockLocator

/-- The loop of Set over an entry and its predecessors, some of which are passed first. There is no
result if the step overflows. -/
def setFrom : List BlockIndexData → ℕ → ℕ → ℕ → Option (List UInt256)
  | [], _, _, _ => some []
  | _::ds, i+1, nStep, size => setFrom ds i nStep size
  | d::ds, 0, nStep, size =>
    let nStep' := if size+1 > 10 then nStep*2 else nStep
    if nStep' < 2^31 then (setFrom ds (nStep-1) nStep' (size+1)).map (d.hashBlock::·) else none

def set (P : Params) (pindex : CBlockIndex) : Option (List UInt256) :=
  (setFrom pindex.path 0 1 0).map (·++[P.hashGenesisBlock])

variable (n : Node)

def mainEntry (hash : UInt256) : Option CBlockIndex := n.mapBlockIndex[hash]?.filter n.isInMainChain

def getDistanceFrom : List UInt256 → ℕ → ℕ → ℕ
  | [], nDistance, _ => nDistance
  | hash::vHave, nDistance, nStep =>
    if (mainEntry n hash).isSome then nDistance
    else getDistanceFrom vHave (nDistance+nStep) (if nDistance+nStep > 10 then nStep*2 else nStep)

def getDistanceBack (vHave : List UInt256) : ℕ := getDistanceFrom n vHave 0 1

def getBlockIndex (vHave : List UInt256) : Option CBlockIndex :=
  (vHave.findSome? (mainEntry n)).or n.pindexGenesisBlock

def Listed (path : List BlockIndexData) (vHave : List UInt256) (b : CBlockIndex) : Prop :=
  b.path <:+ path ∧ b.getBlockHash ∈ vHave ∧ n.isInMainChain b

/-- The locator of an entry leads to its highest predecessor that is listed, and gives its distance
unless this is the first block at the end of the list. -/
def Locates (P : Params) (pindex : CBlockIndex) : Prop :=
  ∃ vHave b, set P pindex = some vHave ∧ getBlockIndex n vHave = some b ∧ Listed n pindex.path vHave b ∧
    (∀ b', Listed n pindex.path vHave b' → b'.nHeight ≤ b.nHeight) ∧
    (b.getBlockHash ∈ vHave.dropLast → getDistanceBack n vHave+b.nHeight = pindex.nHeight)

variable {n} {P : Params} {gen : CBlock} {p : CBlockIndex} {h : UInt256} {l ds : List BlockIndexData} {d : BlockIndexData}
  {i nStep size nDistance : ℕ} {L : List UInt256}

theorem setFrom_cons (h : setFrom (d::ds) 0 nStep size = some L) :
    ∃ L', L = d.hashBlock::L' ∧ setFrom ds (nStep-1) (if size+1 > 10 then nStep*2 else nStep)
      (size+1) = some L' := by
  rw [setFrom] at h
  generalize (if size+1 > 10 then nStep*2 else nStep) = nStep' at h ⊢
  split_ifs at h
  obtain ⟨L',hL,rfl⟩ := map_eq_some_iff.mp h
  exact ⟨L',rfl,hL⟩

theorem mem_setFrom (h : setFrom l i nStep size = some L) :
    ∀ hash ∈ L, ∃ d ds, d::ds <:+ l ∧ d.hashBlock = hash := by
  induction l generalizing i nStep size L with
  | nil =>
    obtain rfl : [] = L := some.inj (by rw [← h,setFrom])
    simp
  | cons d ds ih =>
    have hcons : ∀ hash, (∃ e es, e::es <:+ ds ∧ e.hashBlock = hash) → ∃ e es, e::es <:+ d::ds ∧
        e.hashBlock = hash :=
      fun hash ⟨e,es,hs,he⟩ => ⟨e,es,hs.trans (suffix_cons d ds),he⟩
    cases i with
    | succ i => exact fun hash hmem => hcons hash (ih h hash hmem)
    | zero =>
      obtain ⟨L,rfl,hL⟩ := setFrom_cons h
      exact forall_mem_cons.mpr ⟨⟨d,ds,suffix_rfl,rfl⟩,fun hash hmem => hcons hash (ih hL hash hmem)⟩

theorem mainEntry_eq (ht : Tree P gen n.mapBlockIndex) (hp : n.mapBlockIndex[h]? = some p)
    (hs : d::ds <:+ p.path) :
    mainEntry n d.hashBlock = if n.isInMainChain ⟨d,ds⟩ then some ⟨d,ds⟩ else none := by
  rw [mainEntry,ht.mem_of_suffix hp hs,filter_some]

theorem eq_of_hash (ht : Tree P gen n.mapBlockIndex) (hp : n.mapBlockIndex[h]? = some p)
    (hs : d::ds <:+ p.path)
    {b : CBlockIndex} (hb : b.path <:+ p.path) (heq : d.hashBlock = b.getBlockHash) :
    b = ⟨d,ds⟩ := by
  have h1 : n.mapBlockIndex[b.getBlockHash]? = some b := ht.mem_of_suffix hp hb
  exact some.inj (h1.symm.trans (heq ▸ ht.mem_of_suffix hp hs))

theorem setFrom_spec (ht : Tree P gen n.mapBlockIndex) (hp : n.mapBlockIndex[h]? = some p)
    (hs : l <:+ p.path) (hL : setFrom l i nStep size = some L) (hpos : 0 < nStep)
    (hstep : nDistance = size ∧ nStep = 1 ∧ size ≤ 10 ∨ 10 < nDistance ∧ 10 < size)
    (hheight : l.length+nDistance = p.nHeight+1+i) :
    (∀ hash ∈ L, mainEntry n hash = none) ∨
    ∃ b, L.findSome? (mainEntry n) = some b ∧ Listed n p.path L b ∧
      (∀ b', Listed n p.path L b' → b'.nHeight ≤ b.nHeight) ∧
      ∀ L', getDistanceFrom n (L++L') nDistance nStep+b.nHeight = p.nHeight := by
  induction l generalizing i nStep size nDistance L with
  | nil =>
    obtain rfl : [] = L := some.inj (by rw [← hL,setFrom])
    exact .inl (by simp)
  | cons d ds ih =>
    have hsds := (suffix_cons d ds).trans hs
    rw [length_cons] at hheight
    cases i with
    | succ i => exact ih hsds hL hpos hstep (by omega)
    | zero =>
      have hlisted := mem_setFrom hL
      obtain ⟨L,rfl,hL'⟩ := setFrom_cons hL
      have hentry := mainEntry_eq ht hp hs
      by_cases hmain : n.isInMainChain ⟨d,ds⟩
      · rw [if_pos hmain] at hentry
        refine .inr ⟨⟨d,ds⟩,by simp [hentry],⟨hs,mem_cons_self,hmain⟩,fun b' hb' => ?_,fun L' => ?_⟩
        · obtain ⟨e,es,hes,hhash⟩ := hlisted _ hb'.2.1
          have hle := hes.length_le
          rw [eq_of_hash ht hp (hes.trans hs) hb'.1 hhash]
          simpa [nHeight] using hle
        · rw [cons_append,getDistanceFrom,hentry,if_pos (by rfl)]
          change nDistance+ds.length = _
          omega
      · rw [if_neg hmain] at hentry
        have hnext : (if size+1 > 10 then nStep*2 else nStep) =
            if nDistance+nStep > 10 then nStep*2 else nStep := by
          split_ifs <;> omega
        rcases @ih _ _ _ (nDistance+nStep) _ hsds hL' (by split_ifs <;> omega)
          (by split_ifs <;> omega) (by omega) with
          hnone | ⟨b,hfind,hb,hmax,hdist⟩
        · exact .inl (forall_mem_cons.mpr ⟨hentry,hnone⟩)
        · refine .inr ⟨b,by rw [findSome?_cons,hentry]; exact hfind,⟨hb.1,mem_cons_of_mem _ hb.2.1,hb.2.2⟩,
            fun b' ⟨hpath,hmem,hmain'⟩ => ?_,fun L' => ?_⟩
          · rcases mem_cons.mp hmem with heq | hmem
            · exact absurd (eq_of_hash ht hp hs hpath heq.symm ▸ hmain') hmain
            · exact hmax b' ⟨hpath,hmem,hmain'⟩
          · rw [cons_append,getDistanceFrom,hentry,if_neg (by simp),← hnext]
            exact hdist L'

theorem setFrom_doubling {k : ℕ} (hk : k ≤ 30) :
    setFrom l i (2^k) (k+10) = none ↔ 2^30-2^k+i < l.length := by
  induction l generalizing i k with
  | nil => simp [setFrom]
  | cons d ds ih =>
    cases i with
    | succ i =>
      rw [setFrom,ih hk,length_cons]
      omega
    | zero =>
      have hnext : (if k+10+1 > 10 then 2^k*2 else 2^k) = 2^(k+1) := by rw [if_pos (by omega),pow_succ]
      rw [setFrom,hnext,length_cons]
      rcases hk.lt_or_eq with hlt | rfl
      · have hpos : 0 < 2^k := Nat.two_pow_pos k
        have hpow' : 2^(k+1) ≤ 2^30 := Nat.pow_le_pow_right (by decide) hlt
        rw [if_pos (by omega),map_eq_none_iff,show k+10+1 = k+1+10 by omega,ih hlt]
        omega
      · simp

theorem setFrom_eq_none (hsize : size ≤ 10) :
    setFrom l 0 1 size = none ↔ 2^30+9 < l.length+size := by
  induction l generalizing size with
  | nil => simp [setFrom]; omega
  | cons d ds ih =>
    rcases hsize.lt_or_eq with hlt | rfl
    · have hnext : (if size+1 > 10 then 1*2 else 1) = 1 := if_neg (by omega)
      rw [setFrom,hnext,if_pos (by decide),map_eq_none_iff,ih hlt,length_cons]
      omega
    · exact (setFrom_doubling (k := 0) (by decide)).trans (by omega)

/-- A locator does what it is for exactly if its step does not overflow. -/
theorem locates_iff (ht : Tree P gen n.mapBlockIndex) (hgen : gen.getHash P = P.hashGenesisBlock)
    (hroot : ∀ (h : UInt256) (p : CBlockIndex), n.mapBlockIndex[h]? = some p → p.ancestors = [] →
      n.isInMainChain p)
    (hp : n.mapBlockIndex[h]? = some p) : Locates n P p ↔ p.nHeight < 2^30+9 := by
  have hsome : (∃ L, setFrom p.path 0 1 0 = some L) ↔ p.nHeight < 2^30+9 := by
    rw [← Option.ne_none_iff_exists',ne_eq,setFrom_eq_none (by decide)]
    simp [path,nHeight]
  rw [← hsome]
  constructor
  · rintro ⟨vHave,b,hset,-⟩
    obtain ⟨L,hL,-⟩ := map_eq_some_iff.mp hset
    exact ⟨L,hL⟩
  · rintro ⟨L,hL⟩
    have hset : set P p = some (L++[P.hashGenesisBlock]) := by rw [set,hL]; rfl
    obtain ⟨l,r,hr⟩ := (eq_nil_or_concat' p.path).resolve_left p.path_ne_nil
    have hs : [r] <:+ p.path := ⟨l,hr.symm⟩
    have hentry := ht.mem_of_suffix hp hs
    have hhash : r.hashBlock = P.hashGenesisBlock := by
      rw [← hgen,← ht.root _ _ hentry rfl]
      exact (ht.hash _ _ hentry).symm
    -- the hash at the end of the list is the one of the first block, which is below all others
    have hlast : ∀ b', Listed n p.path (L++[P.hashGenesisBlock]) b' → Listed n p.path L b' ∨ b' = ⟨r,[]⟩ := by
      rintro b' ⟨hpath,hmem,hmain⟩
      rcases mem_append.mp hmem with hmem | hmem
      · exact .inl ⟨hpath,hmem,hmain⟩
      · exact .inr (eq_of_hash ht hp hs hpath (hhash.trans (mem_singleton.mp hmem).symm))
    rcases setFrom_spec ht hp suffix_rfl hL Nat.one_pos (.inl ⟨rfl,rfl,by decide⟩) (by simp [path,nHeight]) with
      hnone | ⟨b,hfind,hb,hmax,hdist⟩
    · have hmain := hroot _ _ hentry rfl
      have hno : ∀ b', ¬Listed n p.path L b' := by
        rintro b' ⟨hpath,hmem,hmain'⟩
        have hfound := hnone _ hmem
        rw [getBlockHash,mainEntry_eq ht hp hpath,if_pos hmain'] at hfound
        cases hfound
      refine ⟨_,⟨r,[]⟩,hset,?_,⟨hs,by simp [getBlockHash,hhash],hmain⟩,fun b' hb' => ?_,fun hmem => ?_⟩
      · rw [getBlockIndex,findSome?_append,findSome?_eq_none_iff.mpr hnone,← hhash]
        simp [mainEntry_eq ht hp hs,hmain]
      · rw [(hlast b' hb').resolve_left (hno b')]
      · rw [dropLast_concat] at hmem
        exact absurd ⟨hs,hmem,hmain⟩ (hno ⟨r,[]⟩)
    · refine ⟨_,b,hset,by simp [getBlockIndex,findSome?_append,hfind],⟨hb.1,mem_append_left _ hb.2.1,hb.2.2⟩,
        fun b' hb' => ?_,fun _ => hdist _⟩
      rcases hlast b' hb' with hb' | rfl
      · exact hmax b' hb'
      · exact Nat.zero_le _

open Sample

theorem locates_iff_a₁ :
    Locates (call files a₁ (started.addIndex acceptEnv a₁)) chainParams a₁ := by
  have hsync := (reach_a₁ attaches_a₁).synced (fun _ _ _ h => h) (injOn_treeTxs (by decide +kernel))
  have hmain : ∀ e ∈ (call files a₁ (started.addIndex acceptEnv a₁)).mapBlockIndex.toList,
    (call files a₁ (started.addIndex acceptEnv a₁)).isInMainChain e.2 := by decide +kernel
  exact (locates_iff (h := a₁.getBlockHash) hsync.tree (by decide +kernel)
    (fun h p hp _ => hmain (h,p) (Std.ExtTreeMap.mem_toList_iff_getElem?_eq_some.mpr hp)) (by decide +kernel)).mpr (by decide)

def longChain (nHeight : ℕ) : CBlockIndex :=
  let hashed (i : ℕ) : BlockIndexData := { genesis with hashBlock := BitVec.ofNat 256 i }
  ⟨hashed 0,(range' 1 nHeight).map hashed⟩

theorem longChain_spec {k : ℕ} (hlow : 2^30+9 ≤ k) (hlt : k < 2^256) :
    (longChain k).nHeight = k ∧ Distinct (longChain k).path ∧ set chainParams
    (longChain k) = none := by
  have hheight : (longChain k).nHeight = k := by simp [longChain,nHeight]
  refine ⟨hheight,?_,?_⟩
  · have hhash : (longChain k).path.map BlockIndexData.hashBlock = (range' 0 (k+1)).map (BitVec.ofNat 256) := by
      simp [longChain,path,range'_succ,Function.comp_def]
    rw [Distinct,hhash]
    refine Nodup.map_on (fun i hi j hj heq => ?_) nodup_range'
    have hnat : i%2^256 = j%2^256 := congrArg BitVec.toNat heq
    rw [mem_range'_1] at hi hj
    rwa [Nat.mod_eq_of_lt (by omega),Nat.mod_eq_of_lt (by omega)] at hnat
  · have hlen : 2^30+9 < (longChain k).path.length+0 := Nat.lt_succ_of_le (hlow.trans_eq hheight.symm)
    rw [set,(setFrom_eq_none (by decide)).mpr hlen]
    rfl

/-- For a block at the height 2^30+9 the step overflows. -/
theorem set_overflows :
    (longChain (2^30+9)).nHeight = 2^30+9 ∧ Distinct (longChain (2^30+9)).path ∧
      set chainParams (longChain (2^30+9)) = none :=
  longChain_spec le_rfl (by norm_num)

end CBlockLocator

end DarkSilk
