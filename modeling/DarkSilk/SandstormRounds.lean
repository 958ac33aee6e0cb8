import DarkSilk.Sandstorm

/-! How many times an output of the wallet was mixed. The rounds of an output are found by
recursion over the own inputs of its transaction, cut off at a depth of 100, and are
remembered in a table that lives as long as the process. -/
namespace DarkSilk

open List
open Option hiding any_eq_true map_map

namespace SandstormRounds

def isDenominatedAmount (nInputAmount : CAmount) : Bool :=
  sandStormDenominations.contains nInputAmount

def isCollateralAmount (nInputAmount : CAmount) : Bool :=
  nInputAmount ≠ 0 && nInputAmount%SANDSTORM_COLLATERAL = 0 && nInputAmount < SANDSTORM_COLLATERAL*5 &&
    SANDSTORM_COLLATERAL < nInputAmount

structure MixWallet where
  mapWallet : HashMap CTransaction
  isMineOut : CTxOut → Bool

/-- The remembered rounds of the outputs of each transaction; -10 stands for none. -/
abbrev DenomWtxes := HashMap (List ℤ)

/-- The shortest chain so far, and the table as the look-ups left it. -/
structure Look where
  nShortest : ℤ
  fDenomFound : Bool
  mDenomWtxes : DenomWtxes

variable (W : MixWallet)

def isMine (txin : CTxIn) : Bool :=
  match W.mapWallet[txin.prevout.hash]? with
  | none => false
  | some prev => (prev.vout[txin.prevout.n.toNat]?).any W.isMineOut

/-- The rounds of an output that are known without its inputs. -/
def fixedRounds (wtx : CTransaction) (out : CTxOut) : Option ℤ :=
  if isCollateralAmount out.nValue then some (-3)
  else if !isDenominatedAmount out.nValue then some (-2)
  else if !wtx.vout.all (fun o => isDenominatedAmount o.nValue) then some 0
  else none

def store (m : DenomWtxes) (o : COutPoint) (nRounds : ℤ) : DenomWtxes :=
  m.insert o.hash (((m[o.hash]?).getD []).set o.n.toNat nRounds)

/-- One input of a transaction with only denominated outputs. -/
def lookUp (rounds : DenomWtxes → COutPoint → Option (ℤ × DenomWtxes)) (a : Look) (in2 : CTxIn) :
    Option Look :=
  if isMine W in2 then
    (rounds a.mDenomWtxes in2.prevout).map fun r =>
      if 0 ≤ r.1 && (r.1 < a.nShortest || a.nShortest = -10) then ⟨r.1,true,r.2⟩ else { a with mDenomWtxes := r.2 }
  else some a

/-- The rounds of an output that are not in the table yet. -/
def compute (rounds : DenomWtxes → COutPoint → Option (ℤ × DenomWtxes)) (wtx : CTransaction)
    (o : COutPoint) (m : DenomWtxes) : Option (ℤ × DenomWtxes) :=
  match wtx.vout[o.n.toNat]? with
  | none => some (-4,m)
  | some out =>
    match fixedRounds wtx out with
    | some nRounds => some (nRounds,store m o nRounds)
    | none => (wtx.vin.foldlM (lookUp W rounds) ⟨-10,false,m⟩).map fun a =>
        let nRounds := if a.fDenomFound then (if 99 ≤ a.nShortest then 100 else a.nShortest+1) else 0
        (nRounds,store a.mDenomWtxes o nRounds)

/-- The rounds of an output, with the number of calls that are left before the recursion
is cut off: the depth is 100 less this number. There is no result if the table is read
outside of the outputs of a transaction. -/
def getRealInputSandstormRounds : ℕ → DenomWtxes → COutPoint → Option (ℤ × DenomWtxes)
  | 0, m, _ => some (99,m)
  | k+1, m, o =>
    match W.mapWallet[o.hash]? with
    | none => some (98-k,m)
    | some wtx =>
      match m[o.hash]? with
      | none => compute W (getRealInputSandstormRounds k) wtx o (m.insert o.hash (List.replicate wtx.vout.length (-10)))
      | some vout =>
        match vout[o.n.toNat]? with
        | none => none
        | some nRounds =>
          if nRounds ≠ -10 then some (nRounds,m) else compute W (getRealInputSandstormRounds k) wtx o m

def query (m : DenomWtxes) (o : COutPoint) : Option (ℤ × DenomWtxes) :=
  getRealInputSandstormRounds W 100 m o

def tableAfter (history : List COutPoint) : Option DenomWtxes :=
  history.foldlM (fun m o => (query W m o).map Prod.snd) ∅

def freshRounds (o : COutPoint) : Option ℤ := (query W ∅ o).map Prod.fst

/-- One more than the shortest chain among the inputs, at most 100. -/
def onTop (vals : List ℤ) : ℤ :=
  match (vals.filter fun n => 0 ≤ n).min? with
  | none => 0
  | some n => min (n+1) 100

/-- The recursion without the table, cut off after a number of calls. -/
def rounds : ℕ → COutPoint → ℤ
  | 0, _ => 99
  | k+1, o =>
    match W.mapWallet[o.hash]? with
    | none => -1
    | some wtx =>
      match wtx.vout[o.n.toNat]? with
      | none => -4
      | some out =>
        match fixedRounds wtx out with
        | some nRounds => nRounds
        | none => onTop ((wtx.vin.filter (isMine W)).map fun i => rounds k i.prevout)

/-- The rounds of the first output are looked up in those of the second. -/
def Link (o o' : COutPoint) : Prop :=
  ∃ wtx out, W.mapWallet[o.hash]? = some wtx ∧ wtx.vout[o.n.toNat]? = some out ∧ fixedRounds wtx out = none ∧
    ∃ i ∈ wtx.vin, isMine W i ∧ i.prevout = o'

/-- A chain of so many links starts at the output. -/
def Chain : ℕ → COutPoint → Prop
  | 0, _ => True
  | n+1, o => ∃ o', Link W o o' ∧ Chain n o'

def hasChain : ℕ → COutPoint → Bool
  | 0, _ => true
  | n+1, o => (W.mapWallet[o.hash]?).any fun wtx => (wtx.vout[o.n.toNat]?).any fun out =>
      (fixedRounds wtx out).isNone && wtx.vin.any fun i => isMine W i && hasChain n i.prevout

structure Asked (o : COutPoint) : Prop where
  inRange : ∀ wtx, W.mapWallet[o.hash]? = some wtx → o.n.toNat < wtx.vout.length
  short : ¬ Chain W 100 o

variable {W} {m : DenomWtxes} {o : COutPoint} {k : ℕ}

theorem hasChain_iff : hasChain W k o ↔ Chain W k o := by
  induction k generalizing o with
  | zero => simp [hasChain,Chain]
  | succ k ih =>
    simp only [hasChain,Chain,Link,Option.any_eq_true,Bool.and_eq_true,Option.isNone_iff_eq_none,any_eq_true,ih]
    constructor
    · rintro ⟨wtx,hw,out,ho,hf,i,hi,hmine,hchain⟩
      exact ⟨i.prevout,⟨wtx,out,hw,ho,hf,i,hi,hmine,rfl⟩,hchain⟩
    · rintro ⟨-,⟨wtx,out,hw,ho,hf,i,hi,hmine,rfl⟩,hchain⟩
      exact ⟨wtx,hw,out,ho,hf,i,hi,hmine,hchain⟩

instance (k : ℕ) (o : COutPoint) : Decidable (Chain W k o) := decidable_of_iff _ hasChain_iff

theorem asked_iff :
    ((W.mapWallet[o.hash]?).all (fun wtx => o.n.toNat < wtx.vout.length) ∧ ¬ Chain W 100 o) ↔
      Asked W o := by
  simp only [Option.all_eq_true,decide_eq_true_eq]
  exact ⟨fun h => ⟨h.1,h.2⟩,fun h => ⟨h.inRange,h.short⟩⟩

instance (o : COutPoint) : Decidable (Asked W o) := decidable_of_iff _ asked_iff

theorem Chain.pred (h : Chain W (k+1) o) : Chain W k o := by
  induction k generalizing o with
  | zero => trivial
  | succ k ih =>
    obtain ⟨o',hlink,hchain⟩ := h
    exact ⟨o',hlink,ih hchain⟩

variable {wtx : CTransaction} {out : CTxOut} {f : DenomWtxes → COutPoint → Option (ℤ × DenomWtxes)}

theorem rounds_of_inputs (hw : W.mapWallet[o.hash]? = some wtx)
    (hout : wtx.vout[o.n.toNat]? = some out) (hfix : fixedRounds wtx out = none) :
    rounds W (k+1) o = onTop ((wtx.vin.filter (isMine W)).map fun i => rounds W k i.prevout) := by
  simp only [rounds,hw,hout,hfix]

theorem rounds_succ (h : ¬ Chain W k o) : rounds W (k+1) o = rounds W k o := by
  induction k generalizing o with
  | zero => exact absurd trivial h
  | succ k ih =>
    unfold rounds
    cases hw : W.mapWallet[o.hash]? with
    | none => rfl
    | some wtx =>
      cases ho : wtx.vout[o.n.toNat]? with
      | none => simp [ho]
      | some out =>
        cases hf : fixedRounds wtx out with
        | some r => simp [ho,hf]
        | none =>
          simp only [ho,hf]
          congr 1
          refine map_congr_left fun i hi => ih fun hchain => h ⟨i.prevout,?_,hchain⟩
          obtain ⟨hmem,hmine⟩ := mem_filter.mp hi
          exact ⟨wtx,out,hw,ho,hf,i,hmem,hmine,rfl⟩

theorem rounds_of_le {j} (hj : k ≤ j) (h : ¬ Chain W k o) : rounds W j o = rounds W k o := by
  induction j, hj using Nat.le_induction with
  | base => rfl
  | succ j hj ih =>
    rw [← ih]
    exact rounds_succ fun hchain => h (Nat.decreasingInduction (fun _ _ hc => hc.pred) hchain hj)

def shortest (a : ℤ × Bool) (n : ℤ) : ℤ × Bool :=
  if 0 ≤ n && (n < a.1 || a.1 = -10) then (n,true) else a

theorem foldl_shortest_true (vals : List ℤ) {v} (hv : 0 ≤ v) :
    vals.foldl shortest (v,true) = ((vals.filter fun n => 0 ≤ n).foldl min v,true) := by
  induction vals generalizing v with
  | nil => rfl
  | cons n vals ih =>
    rw [foldl_cons]
    by_cases hn : 0 ≤ n
    · have hstep : shortest (v,true) n = (min v n,true) := by
        simp only [shortest,hn,decide_true,Bool.true_and,Bool.or_eq_true,decide_eq_true_eq]
        split_ifs with h
        · have hlt : n < v := h.resolve_right (by omega)
          rw [min_eq_right hlt.le]
        · rw [min_eq_left (by omega)]
      rw [hstep,ih (le_min hv hn)]
      simp [hn]
    · have hstep : shortest (v,true) n = (v,true) := by simp [shortest,hn]
      rw [hstep,ih hv]
      simp [hn]

theorem foldl_shortest (vals : List ℤ) : vals.foldl shortest (-10,false) =
    match (vals.filter fun n => 0 ≤ n).min? with
    | none => (-10,false)
    | some v => (v,true) := by
  induction vals with
  | nil => rfl
  | cons n vals ih =>
    rw [foldl_cons]
    by_cases hn : 0 ≤ n
    · have hstep : shortest (-10,false) n = (n,true) := by simp [shortest,hn]
      rw [hstep,foldl_shortest_true vals hn,filter_cons_of_pos (by simpa using hn),min?_cons']
    · have hstep : shortest (-10,false) n = (-10,false) := by simp [shortest,hn]
      rw [hstep,ih]
      simp [hn]

theorem onTop_eq (vals : List ℤ) : onTop vals = if (vals.foldl shortest (-10,false)).2 then
      (if 99 ≤ (vals.foldl shortest (-10,false)).1 then 100
        else (vals.foldl shortest (-10,false)).1+1) else 0 := by
  rw [foldl_shortest,onTop]
  cases (vals.filter fun n => 0 ≤ n).min? with
  | none => rfl
  | some v =>
    simp only [if_true]
    split_ifs with h
    · exact min_eq_right (by omega)
    · exact min_eq_left (by omega)

structure Correct (W : MixWallet) (m : DenomWtxes) : Prop where
  outputs : ∀ (h : UInt256) (l : List ℤ), m[h]? = some l →
    ∃ wtx, W.mapWallet[h]? = some wtx ∧ l.length = wtx.vout.length
  right : ∀ (o : COutPoint) (l : List ℤ) (r : ℤ), m[o.hash]? = some l → l[o.n.toNat]? = some r →
    r = -10 ∨ r = rounds W 100 o

/-- No transaction is ever dropped from the table. -/
def Grows (m m' : DenomWtxes) : Prop := ∀ h : UInt256, (m[h]?).isSome → (m'[h]?).isSome

theorem correct_empty : Correct W ∅ := ⟨by simp,by simp⟩

theorem Correct.insert (h : Correct W m) {hash} (hw : W.mapWallet[hash]? = some wtx) :
    Correct W (m.insert hash (replicate wtx.vout.length (-10))) := by
  constructor
  · intro h' l hl
    rw [getElem?_insert] at hl
    split_ifs at hl with hh
    · exact ⟨wtx,hh ▸ hw,by rw [← some.inj hl,length_replicate]⟩
    · exact h.outputs h' l hl
  · intro o l r hl hr
    rw [getElem?_insert] at hl
    split_ifs at hl
    · rw [← some.inj hl] at hr
      exact .inl (eq_of_mem_replicate (mem_of_getElem? hr))
    · exact h.right o l r hl hr

theorem Correct.store (h : Correct W m) (hm : (m[o.hash]?).isSome) :
    Correct W (store m o (rounds W 100 o)) := by
  obtain ⟨l₀,hl₀⟩ := isSome_iff_exists.mp hm
  constructor
  · intro h' l hl
    simp only [SandstormRounds.store,hl₀,getElem?_insert] at hl
    split_ifs at hl with hh
    · obtain ⟨wtx,hw,hlen⟩ := h.outputs o.hash l₀ hl₀
      exact ⟨wtx,hh ▸ hw,by rw [← some.inj hl,getD_some,length_set,hlen]⟩
    · exact h.outputs h' l hl
  · intro o' l r hl hr
    simp only [SandstormRounds.store,hl₀,getElem?_insert] at hl
    split_ifs at hl with hh
    · rw [← some.inj hl,getD_some,getElem?_set] at hr
      split_ifs at hr with hn hlen
      · have heq : o' = o := by
          rcases o with ⟨h1,n₁⟩
          rcases o' with ⟨h2,n₂⟩
          obtain rfl : h1 = h2 := hh
          obtain rfl : n₁ = n₂ := UInt32.toNat_inj.mp hn
          rfl
        exact .inr (by rw [heq]; exact (some.inj hr).symm)
      · exact h.right o' l₀ r (hh ▸ hl₀) hr
    · exact h.right o' l r hl hr

theorem grows_insert {h l} : Grows m (m.insert h l) := by
  intro h' hm
  rw [getElem?_insert]
  split_ifs
  · rfl
  · exact hm

/-- A function that finds the right rounds for the own inputs of a transaction. -/
def Finds (W : MixWallet) (k : ℕ) (vin : List CTxIn)
    (f : DenomWtxes → COutPoint → Option (ℤ × DenomWtxes)) : Prop :=
  ∀ i ∈ vin, isMine W i → ∀ m, Correct W m →
    ∃ m', f m i.prevout = some (rounds W k i.prevout,m') ∧ Correct W m' ∧ Grows m m'

theorem foldlM_lookUp (vin) (hf : Finds W k vin f) (a) (hm : Correct W a.mDenomWtxes) :
    ∃ m', vin.foldlM (lookUp W f) a =
        some ⟨(((vin.filter (isMine W)).map fun i => rounds W k i.prevout).foldl shortest
          (a.nShortest,a.fDenomFound)).1,
          (((vin.filter (isMine W)).map fun i => rounds W k i.prevout).foldl shortest
            (a.nShortest,a.fDenomFound)).2,m'⟩ ∧
      Correct W m' ∧ Grows a.mDenomWtxes m' := by
  induction vin generalizing a with
  | nil => exact ⟨a.mDenomWtxes,rfl,hm,fun _ h => h⟩
  | cons i vin ih =>
    have hrest : Finds W k vin f := fun j hj => hf j (mem_cons_of_mem i hj)
    rw [foldlM_cons,bind_eq_bind]
    by_cases hi : isMine W i
    · obtain ⟨m₁,hm₁,hc₁,hg₁⟩ := hf i mem_cons_self hi a.mDenomWtxes hm
      have hstep : lookUp W f a i = some ⟨(shortest (a.nShortest,a.fDenomFound) (rounds W k i.prevout)).1,
          (shortest (a.nShortest,a.fDenomFound) (rounds W k i.prevout)).2,m₁⟩ := by
        simp only [lookUp,hi,if_true,hm₁,map_some,shortest]
        split_ifs <;> rfl
      obtain ⟨m₂,hm₂,hc₂,hg₂⟩ := ih hrest ⟨_,_,m₁⟩ hc₁
      refine ⟨m₂,?_,hc₂,fun h hh => hg₂ h (hg₁ h hh)⟩
      rw [hstep,bind_some,hm₂]
      simp [hi]
    · have hstep : lookUp W f a i = some a := by simp [lookUp,hi]
      obtain ⟨m₂,hm₂,hc₂,hg₂⟩ := ih hrest a hm
      refine ⟨m₂,?_,hc₂,hg₂⟩
      rw [hstep,bind_some,hm₂]
      simp [hi]

theorem compute_spec (hk : k < 100) (hchain : ¬ Chain W (k+1) o)
    (hw : W.mapWallet[o.hash]? = some wtx)
    (ho : wtx.vout[o.n.toNat]? = some out) (hf : fixedRounds wtx out = none → Finds W k wtx.vin f)
    (hm : Correct W m) (hmem : (m[o.hash]?).isSome) :
    ∃ m', compute W f wtx o m = some (rounds W (k+1) o,m') ∧ Correct W m' ∧ Grows m m' := by
  have hsame : rounds W 100 o = rounds W (k+1) o := rounds_of_le hk hchain
  unfold compute
  cases hfix : fixedRounds wtx out with
  | some r =>
    have hr : rounds W (k+1) o = r := by simp [rounds,hw,ho,hfix]
    refine ⟨store m o r,by simp only [ho,hfix,hr],?_,grows_insert⟩
    rw [← hr,← hsame]
    exact hm.store hmem
  | none =>
    obtain ⟨m',hfold,hc,hg⟩ := foldlM_lookUp wtx.vin (hf hfix) ⟨-10,false,m⟩ hm
    have hr : rounds W (k+1) o = onTop ((wtx.vin.filter (isMine W)).map fun i => rounds W k i.prevout) := by
      simp [rounds,hw,ho,hfix]
    refine ⟨store m' o (rounds W 100 o),?_,hc.store (hg _ hmem),fun h hh => grows_insert h (hg h hh)⟩
    simp only [ho,hfix,hfold,map_some]
    rw [hsame,hr,onTop_eq]

/-- Where the recursion is not cut off, the table changes nothing. -/
theorem getRealInputSandstormRounds_spec (hk : k ≤ 100) (hchain : ¬ Chain W k o) (hm : Correct W m)
    (hrange : ∀ wtx, W.mapWallet[o.hash]? = some wtx → o.n.toNat < wtx.vout.length)
    (hknown : (W.mapWallet[o.hash]?).isSome ∨ k = 100) :
    ∃ m', getRealInputSandstormRounds W k m o = some (rounds W k o,m') ∧ Correct W m' ∧
      Grows m m' := by
  induction k generalizing m o with
  | zero => exact absurd trivial hchain
  | succ k ih =>
    unfold getRealInputSandstormRounds
    cases hw : W.mapWallet[o.hash]? with
    | none =>
      have hk' : k = 99 := by simpa [hw] using hknown
      exact ⟨m,by simp [rounds,hw,hk'],hm,fun _ h => h⟩
    | some wtx =>
      obtain ⟨out,ho⟩ : ∃ out, wtx.vout[o.n.toNat]? = some out :=
        ⟨_,getElem?_eq_getElem (hrange wtx hw)⟩
      -- the own inputs exist, and their chains are shorter by one link
      have hfinds : fixedRounds wtx out = none → Finds W k wtx.vin (getRealInputSandstormRounds W k) := by
        intro hfix i hi hmine m₁ hm₁
        have hin : ∃ prev, W.mapWallet[i.prevout.hash]? = some prev ∧ i.prevout.n.toNat < prev.vout.length := by
          unfold isMine at hmine
          cases hp : W.mapWallet[i.prevout.hash]? with
          | none => simp [hp] at hmine
          | some prev =>
            simp only [hp] at hmine
            obtain ⟨x,hx,-⟩ := (Option.any_eq_true _ _).mp hmine
            exact ⟨prev,rfl,(List.getElem?_eq_some_iff.mp hx).1⟩
        obtain ⟨prev,hprev,hlt⟩ := hin
        refine ih (by omega) (fun hc => hchain ⟨i.prevout,⟨wtx,out,hw,ho,hfix,i,hi,hmine,rfl⟩,hc⟩)
          hm₁ ?_ (.inl ?_)
        · intro wtx' hw'
          rw [hprev] at hw'
          exact some.inj hw' ▸ hlt
        · rw [hprev]
          rfl
      cases hmemo : m[o.hash]? with
      | none =>
        obtain ⟨m',hm',hc,hg⟩ := compute_spec (by omega) hchain hw ho hfinds (hm.insert hw) (by simp)
        exact ⟨m',hm',hc,fun h hh => hg h (grows_insert h hh)⟩
      | some l =>
        obtain ⟨wtx',hw',hlen⟩ := hm.outputs o.hash l hmemo
        obtain rfl : wtx = wtx' := some.inj (hw.symm.trans hw')
        have hl : o.n.toNat < l.length := hlen ▸ hrange wtx hw
        simp only [getElem?_eq_getElem hl]
        split_ifs with hr
        · have hsame := (hm.right o l l[o.n.toNat] hmemo (getElem?_eq_getElem hl)).resolve_left hr
          exact ⟨m,by rw [hsame,rounds_of_le hk hchain],hm,fun _ h => h⟩
        · exact compute_spec (by omega) hchain hw ho hfinds hm (by rw [hmemo]; rfl)

theorem query_spec (ho : Asked W o) (hm : Correct W m) :
    ∃ m', query W m o = some (rounds W 100 o,m') ∧ Correct W m' := by
  obtain ⟨m',hm',hc,-⟩ := getRealInputSandstormRounds_spec le_rfl ho.short hm ho.inRange (.inr rfl)
  exact ⟨m',hm',hc⟩

theorem freshRounds_eq (ho : Asked W o) : freshRounds W o = some (rounds W 100 o) := by
  obtain ⟨m',hm',-⟩ := query_spec ho correct_empty
  rw [freshRounds,hm',map_some]

theorem tableAfter_spec {history} (hh : ∀ q ∈ history, Asked W q) :
    ∃ m, tableAfter W history = some m ∧ Correct W m := by
  unfold tableAfter
  induction history using reverseRecOn with
  | nil => exact ⟨∅,rfl,correct_empty⟩
  | append_singleton l q ih =>
    obtain ⟨m,hm,hc⟩ := ih fun x hx => hh x (mem_append_left [q] hx)
    obtain ⟨m',hm',hc'⟩ := query_spec (hh q (by simp)) hc
    refine ⟨m',?_,hc'⟩
    rw [foldlM_append,hm,bind_eq_bind,bind_some]
    simp [hm']

theorem not_isCollateralAmount {nValue} (h : isDenominatedAmount nValue) :
    isCollateralAmount nValue = false := by
  have hall : sandStormDenominations.all fun d => !isCollateralAmount d := by decide +kernel
  simpa using all_eq_true.mp hall nValue (contains_iff_mem.mp h)

theorem Asked.input {i} (ho : Asked W o) (hw : W.mapWallet[o.hash]? = some wtx)
    (hout : wtx.vout[o.n.toNat]? = some out) (hfix : fixedRounds wtx out = none) (hi : i ∈ wtx.vin)
    (hmine : isMine W i) : Asked W i.prevout ∧ ¬ Chain W 99 i.prevout := by
  have hshort : ¬ Chain W 99 i.prevout := fun hc => ho.short ⟨i.prevout,⟨wtx,out,hw,hout,hfix,i,hi,hmine,rfl⟩,hc⟩
  refine ⟨⟨fun prev hprev => ?_,fun hc => hshort hc.pred⟩,hshort⟩
  simp only [isMine,hprev] at hmine
  obtain ⟨x,hx,-⟩ := (Option.any_eq_true _ _).mp hmine
  exact (List.getElem?_eq_some_iff.mp hx).1

end SandstormRounds

open SandstormRounds

/-- As long as only existing outputs are asked for and no chain is long enough to be cut
off, the rounds do not depend on what was asked before, and they follow the rule. -/
theorem rounds_historyIndependent {W : MixWallet} {history : List COutPoint} {o : COutPoint}
    (hh : ∀ q ∈ history, Asked W q) (ho : Asked W o) :
    ∃ m r m', tableAfter W history = some m ∧ query W m o = some (r,m') ∧ freshRounds W o = some r ∧
      ∀ wtx, W.mapWallet[o.hash]? = some wtx →
      wtx.vout.all (fun out => isDenominatedAmount out.nValue) →
        ∃ vals, (wtx.vin.filter (isMine W)).map (fun i => freshRounds W i.prevout) = vals.map some ∧
        r = onTop vals := by
  obtain ⟨m,hm,hc⟩ := tableAfter_spec hh
  obtain ⟨m',hm',-⟩ := query_spec ho hc
  refine ⟨m,_,m',hm,hm',freshRounds_eq ho,fun wtx hw hall => ?_⟩
  obtain ⟨out,hout⟩ : ∃ out, wtx.vout[o.n.toNat]? = some out := ⟨_,getElem?_eq_getElem (ho.inRange wtx hw)⟩
  have hden : isDenominatedAmount out.nValue := all_eq_true.mp hall out (mem_of_getElem? hout)
  have hfix : fixedRounds wtx out = none := by
    simp [fixedRounds,not_isCollateralAmount hden,hden,hall]
  refine ⟨(wtx.vin.filter (isMine W)).map fun i => rounds W 99 i.prevout,?_,?_⟩
  · rw [map_map]
    refine map_congr_left fun i hi => ?_
    obtain ⟨hmem,hmine⟩ := mem_filter.mp hi
    obtain ⟨hasked,hshort⟩ := ho.input hw hout hfix hmem hmine
    rw [freshRounds_eq hasked,Function.comp_apply,rounds_of_le (by decide) hshort]
  · exact rounds_of_inputs hw hout hfix

namespace Sample

/-- A payment with one denominated output and change, and mixings on top of each other. -/
def mixed : ℕ → List (UInt256 × CTransaction)
  | 0 =>
    let tx := payment 10 [⟨1,0⟩] [⟨COIN+1000,opTrue⟩,⟨5,opTrue⟩]
    [(tx.getHash params,tx)]
  | n+1 =>
    match mixed n with
    | [] => []
    | (hash,tx)::l =>
      let next := payment 10 [⟨hash,0⟩] [⟨COIN+1000,opTrue⟩]
      (next.getHash params,next)::(hash,tx)::l

def mixWallet (n : ℕ) : MixWallet := ⟨.ofList (mixed n),fun _ => true⟩

def mixedOut (n : ℕ) : COutPoint := ⟨(((mixed n).head?).map Prod.fst).getD 0,0⟩

end Sample

open Sample

/-- The second of two mixings is asked for after the first. -/
theorem rounds_historyIndependent_two :
    (Asked (mixWallet 2) (mixedOut 1) ∧ Asked (mixWallet 2) (mixedOut 2) ∧
      freshRounds (mixWallet 2) (mixedOut 2) = some 2) ∧
    ∃ m r m', tableAfter (mixWallet 2) [mixedOut 1] = some m ∧
      query (mixWallet 2) m (mixedOut 2) = some (r,m') ∧
      freshRounds (mixWallet 2) (mixedOut 2) = some r ∧
      ∀ wtx, (mixWallet 2).mapWallet[(mixedOut 2).hash]? = some wtx →
        wtx.vout.all (fun out => isDenominatedAmount out.nValue) →
        ∃ vals, (wtx.vin.filter (isMine (mixWallet 2))).map (fun i =>
          freshRounds (mixWallet 2) i.prevout) =
          vals.map some ∧ r = onTop vals := by
  have h : Asked (mixWallet 2) (mixedOut 1) ∧ Asked (mixWallet 2) (mixedOut 2) ∧
      freshRounds (mixWallet 2) (mixedOut 2) = some 2 := by decide +kernel
  exact ⟨h,rounds_historyIndependent (forall_mem_singleton.mpr h.1) h.2.1⟩

/-- Asked for after the hundredth mixing the first one has 100 rounds in place of 1, and an
output that does not exist is read outside of its transaction when asked for again. -/
theorem rounds_of_history : (freshRounds (mixWallet 100) (mixedOut 1) = some 1 ∧
      ((tableAfter (mixWallet 100) [mixedOut 100]).bind fun m =>
        query (mixWallet 100) m (mixedOut 1)).map Prod.fst =
        some 100) ∧
    (query (mixWallet 0) ∅ { mixedOut 0 with n := 2 }).isSome ∧
      tableAfter (mixWallet 0) [{ mixedOut 0 with n := 2 },{ mixedOut 0 with n := 2 }] = none := by
  decide +kernel

end DarkSilk
