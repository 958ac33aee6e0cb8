import DarkSilk.SandstormSigs

/-! The client of a mixing pool: it is to sign the final transaction if its own outputs are in it,
and it makes the outputs that are mixed. Before the first output is looked at the transaction is
written to the log, and the exception there ends the call: a client never signs. -/
namespace DarkSilk

open List

/-- How many pairs of an output of the transaction and an output of the entry are equal,
and what they are worth. An output that was received has the default for its rounds. -/
def matchOutputs (vout : List CTxOut) (own : List CTxSSOut) : ℕ × CAmount :=
  vout.foldl (fun r o' => own.foldl (fun r o => if CTxSSOut.received o' = o then (r.1+1,r.2+o'.nValue) else r) r) (0,0)

/-- Are my outputs present? -/
def CSandStormEntry.outputsPresent (e : CSandStormEntry) (vout : List CTxOut) : Bool :=
  let r := matchOutputs vout e.vout
  !(r.1 < e.vout.length || r.2 ≠ e.vout.foldl (fun v o => v+o.nValue) 0)

/-- The last input of a transaction that is the given one in all of it. -/
def lastInput (s : CTxIn) (vin : List CTxIn) : Option ℕ :=
  vin.zipIdx.foldl (fun r x => if x.1 = s then some x.2 else r) none

variable (signSignature : CScript → CTransaction → ℕ → CScript)

/-- Sign the inputs one by one; the script that is left in an input depends on the keys.
The first input whose entry lacks outputs stops it. Beside each signature stands the
entry it is for. -/
def signEach : List (CSandStormEntry × CTxSSIn) → CTransaction →
    Option (List (CSandStormEntry × CTxIn) × CTransaction)
  | [], final => some ([],final)
  | (e,s)::l, final =>
    match lastInput s.toCTxIn final.vin with
    | none => signEach l final
    | some mine =>
      if e.outputsPresent final.vout then
        let signed := { s.toCTxIn with scriptSig := signSignature s.prevPubKey final mine }
        (signEach l { final with vin := final.vin.set mine signed }).map fun r => ((e,signed)::r.1,r.2)
      else none

/-- The signatures that are sent back, and the pool after that; an error is an exception, with the
pool that it leaves. The text of the transaction is asked for again behind each entry. -/
def signFinalTransaction (fStormNode : Bool) (E : PoolEnv) (finalTransactionNew : CTransaction)
    (p : CSandstormPool) :
    Except CSandstormPool (List (CSandStormEntry × CTxIn) × CSandstormPool) :=
  if fStormNode then .ok ([],p)
  else if CMutableTransaction.toStringThrows then .error { p with finalTransaction := finalTransactionNew }
  else
    match signEach signSignature (p.entries.flatMap fun e => e.sev.map fun s => (e,s)) finalTransactionNew with
    | none => .ok ([],{ p with finalTransaction := finalTransactionNew }.setNull E)
    | some (sigs,final) => .ok (sigs,{ p with finalTransaction := final })

/-- What a call signs, with the entries it is signed for. -/
def signedFor (fStormNode : Bool) (E : PoolEnv) (finalTransactionNew : CTransaction)
    (p : CSandstormPool) :
    List (CSandStormEntry × CTxIn) :=
  match signFinalTransaction signSignature fStormNode E finalTransactionNew p with
  | .error _ => []
  | .ok (sigs,_) => sigs

/-- The outputs of the entry, by value and script, are contained in those of the transaction. -/
def CSandStormEntry.Contained (e : CSandStormEntry) (vout : List CTxOut) : Prop :=
  (e.vout.map CTxSSOut.toCTxOut : Multiset CTxOut) ≤ (vout : Multiset CTxOut)

/-- Whatever the entries and the final transaction are, all that is signed is paid for: the
exception comes before anything is signed, and a stormnode leaves at once. -/
theorem signed_contained (fStormNode : Bool) (E : PoolEnv) (finalTransactionNew : CTransaction)
    (p : CSandstormPool) :
    (∀ x ∈ signedFor signSignature fStormNode E finalTransactionNew p,
      x.1.Contained finalTransactionNew.vout) ∧
      signedFor signSignature fStormNode E finalTransactionNew p = [] := by
  have hnone : signedFor signSignature fStormNode E finalTransactionNew p = [] := by
    unfold signedFor signFinalTransaction
    rw [CMutableTransaction.toStringThrows_eq]
    cases fStormNode <;> rfl
  rw [hnone]
  exact ⟨fun x hx => absurd hx not_mem_nil,rfl⟩

def DENOMS_COUNT_MAX : ℤ := 100

structure DenomWallet where
  hasCollateralInputs : Bool
  countInputsWithAmount : CAmount → ℤ
  sandStormDenominationsSkipped : List CAmount

def addOutputs (v : CAmount) : ℕ → ℤ → List CAmount × ℤ
  | 0, nValueLeft => ([],nValueLeft)
  | n+1, nValueLeft =>
    if nValueLeft-v.toInt ≥ 0 then
      let r := addOutputs v n (nValueLeft-v.toInt)
      (v::r.1,r.2)
    else ([],nValueLeft)

/-- A denomination is on the list of skipped ones, or put there now. -/
def DenomWallet.skips (W : DenomWallet) (v : CAmount) : Bool :=
  W.sandStormDenominationsSkipped.contains v ||
    (v ≠ sandStormDenominations.headD 0 && W.countInputsWithAmount v > DENOMS_COUNT_MAX)

/-- The loop over the denominations. Its test nOutputs <= 10 lets eleven outputs through. -/
def addDenoms (W : DenomWallet) : List CAmount → ℤ → List CAmount
  | [], _ => []
  | v::l, nValueLeft =>
    if W.skips v then addDenoms W l nValueLeft
    else
      let r := addOutputs v 11 nValueLeft
      r.1++if r.2 = 0 then [] else addDenoms W l r.2

def DenomWallet.valueLeft (W : DenomWallet) (nTotalValue : ℤ) : ℤ :=
  if W.hasCollateralInputs then nTotalValue else nTotalValue-4*SANDSTORM_COLLATERAL.toInt

/-- The values of the payments, the collateral first, then from the smallest denomination on. -/
def createDenominated (W : DenomWallet) (nTotalValue : ℤ) : List CAmount :=
  (if W.hasCollateralInputs then [] else [SANDSTORM_COLLATERAL*4])++
    addDenoms W sandStormDenominations.reverse (W.valueLeft nTotalValue)

variable {W : DenomWallet} {v : CAmount} {l : List CAmount} {left : ℤ} {n : ℕ}

theorem addOutputs_spec (hleft : 0 ≤ left) :
    ∃ k ≤ n, addOutputs v n left = (replicate k v,left-k*v.toInt) ∧ 0 ≤ left-k*v.toInt ∧
      (k = n ∨ left-k*v.toInt < v.toInt) := by
  induction n generalizing left with
  | zero => exact ⟨0,le_rfl,by simp [addOutputs],by simpa using hleft,.inl rfl⟩
  | succ n ih =>
    rw [addOutputs]
    split_ifs with h
    · obtain ⟨k,hk,heq,hpos,hend⟩ := ih h
      have hnext : left-v.toInt-k*v.toInt = left-(k+1 : ℕ)*v.toInt := by
        push_cast
        ring
      rw [hnext] at heq hpos hend
      exact ⟨k+1,by omega,by rw [heq]; rfl,hpos,hend.imp (by omega) id⟩
    · exact ⟨0,Nat.zero_le _,by simp,by simpa using hleft,.inr (by push_cast; omega)⟩

theorem addDenoms_of_lt (h : ∀ v ∈ l, left < v.toInt) : addDenoms W l left = [] := by
  induction l with
  | nil => rfl
  | cons v l ih =>
    obtain ⟨hv,hl⟩ := forall_mem_cons.mp h
    have hnone : addOutputs v 11 left = ([],left) := by rw [addOutputs,if_neg (by omega)]
    simp [addDenoms,hnone,ih hl]

theorem sum_addDenoms_le (hpos : ∀ v ∈ l, 0 < v.toInt) (hleft : 0 ≤ left) :
    ((addDenoms W l left).map Int64.toInt).sum ≤ left := by
  induction l generalizing left with
  | nil => simpa [addDenoms] using hleft
  | cons v l ih =>
    obtain ⟨hv,hl⟩ := forall_mem_cons.mp hpos
    rw [addDenoms]
    split_ifs
    · exact ih hl hleft
    · obtain ⟨k,-,heq,hrest,-⟩ := addOutputs_spec (v := v) (n := 11) hleft
      have hih := ih hl hrest
      simp only [heq,map_append,sum_append,map_replicate,sum_replicate,nsmul_eq_mul]
      split_ifs
      · simpa using hrest
      · linarith

/-- A denomination that is not skipped comes eleven times if the value suffices for that. -/
theorem lt_of_count_addDenoms_le (hl : l.Pairwise fun v w => v.toInt < w.toInt) (hleft : 0 ≤ left)
    (hcount : ∀ v ∈ l, (addDenoms W l left).count v ≤ 10) :
    ∀ v ∈ l, W.skips v = false → left < 11*v.toInt := by
  induction l with
  | nil => simp
  | cons v l ih =>
    obtain ⟨hv,hl⟩ := pairwise_cons.mp hl
    rw [addDenoms] at hcount
    by_cases hskip : W.skips v
    · rw [if_pos hskip] at hcount
      refine forall_mem_cons.mpr ⟨fun h => absurd hskip (by simp [h]),ih hl fun w hw => ?_⟩
      exact hcount w (mem_cons_of_mem v hw)
    · obtain ⟨k,-,heq,-,hend⟩ := addOutputs_spec (v := v) (n := 11) hleft
      have hk : k ≤ 10 := by
        have h := hcount v mem_cons_self
        rw [if_neg hskip,heq,count_append,count_replicate_self] at h
        omega
      have hlt : left < 11*v.toInt := by
        have hrest := hend.resolve_left (by omega)
        nlinarith
      refine forall_mem_cons.mpr ⟨fun _ => hlt,fun w hw _ => ?_⟩
      have hw' := hv w hw
      omega

/-- Otherwise all is spent on the first denomination, and less than the next one is left. -/
theorem count_addDenoms_le (hl : l.Pairwise fun v w => v.toInt < w.toInt) (hleft : 0 ≤ left)
    (hlt : ∀ v ∈ l, W.skips v = false → left < 11*v.toInt) (u) :
    (addDenoms W l left).count u ≤ 10 := by
  induction l with
  | nil => simp [addDenoms]
  | cons v l ih =>
    obtain ⟨hv,hl⟩ := pairwise_cons.mp hl
    obtain ⟨hhead,htail⟩ := forall_mem_cons.mp hlt
    rw [addDenoms]
    split_ifs with hskip
    · exact ih hl htail
    · obtain ⟨k,hmax,heq,hrest,hend⟩ := addOutputs_spec (v := v) (n := 11) hleft
      have hfirst := hhead (by simpa using hskip)
      have hk : k ≤ 10 := by
        by_contra hgt
        obtain rfl : k = 11 := by omega
        omega
      have hless := hend.resolve_left (by omega)
      have hnone : addDenoms W l (left-k*v.toInt) = [] := addDenoms_of_lt fun w hw => hless.trans (hv w hw)
      simp only [heq,hnone,ite_self,append_nil,count_replicate]
      split_ifs <;> omega

/-- The payments keep to the total and to ten of each denomination exactly if the value left
for denominations is not negative and less than eleven times each one that is not skipped. -/
theorem createDenominated_iff (W : DenomWallet) (nTotalValue : ℤ) :
    (((createDenominated W nTotalValue).map Int64.toInt).sum ≤ nTotalValue ∧
      ∀ v ∈ sandStormDenominations, (createDenominated W nTotalValue).count v ≤ 10) ↔
    0 ≤ W.valueLeft nTotalValue ∧
      ∀ v ∈ sandStormDenominations, W.skips v = false → W.valueLeft nTotalValue < 11*v.toInt := by
  have hpos : ∀ v ∈ sandStormDenominations.reverse, 0 < v.toInt := by
    have h : (sandStormDenominations.reverse.all fun v => 0 < v.toInt) = true := by decide +kernel
    simpa using h
  have hl : sandStormDenominations.reverse.Pairwise fun v w => v.toInt < w.toInt := by decide +kernel
  have hsum : ((createDenominated W nTotalValue).map Int64.toInt).sum ≤ nTotalValue ↔
      ((addDenoms W sandStormDenominations.reverse (W.valueLeft nTotalValue)).map Int64.toInt).sum ≤
        W.valueLeft nTotalValue := by
    unfold createDenominated DenomWallet.valueLeft
    have hcoll : (SANDSTORM_COLLATERAL*4).toInt = 4*SANDSTORM_COLLATERAL.toInt := by decide
    split_ifs
    · simp
    · simp only [cons_append,nil_append,map_cons,sum_cons,hcoll]
      omega
  have hcount : ∀ v ∈ sandStormDenominations, (createDenominated W nTotalValue).count v =
      (addDenoms W sandStormDenominations.reverse (W.valueLeft nTotalValue)).count v := by
    intro v hv
    have hne : SANDSTORM_COLLATERAL*4 ∉ sandStormDenominations := by decide +kernel
    unfold createDenominated
    split_ifs
    · rfl
    · rw [count_append,count_eq_zero.mpr (by rintro h; exact hne (mem_singleton.mp h ▸ hv)),zero_add]
  rw [hsum]
  constructor
  · rintro ⟨hle,hten⟩
    have hleft : 0 ≤ W.valueLeft nTotalValue := by
      by_contra hneg
      rw [addDenoms_of_lt fun v hv => (not_le.mp hneg).trans (hpos v hv)] at hle
      exact hneg hle
    refine ⟨hleft,fun v hv => lt_of_count_addDenoms_le hl hleft (fun v hv => ?_) v (mem_reverse.mpr hv)⟩
    have hv := mem_reverse.mp hv
    exact hcount v hv ▸ hten v hv
  · rintro ⟨hleft,hlt⟩
    refine ⟨sum_addDenoms_le hpos hleft,fun v hv => ?_⟩
    rw [hcount v hv]
    exact count_addDenoms_le hl hleft (fun v hv => hlt v (mem_reverse.mp hv)) v

theorem createDenominated_iff_coin :
    ((createDenominated ⟨true,fun _ => 0,[]⟩ 100000000).map Int64.toInt).sum ≤ 100000000 := by
  refine ((createDenominated_iff ⟨true,fun _ => 0,[]⟩ 100000000).mpr ⟨by decide,?_⟩).1
  have h : (sandStormDenominations.all fun v => (100000000 : ℤ) < 11*v.toInt) = true := by decide +kernel
  exact fun v hv _ => of_decide_eq_true (all_eq_true.mp h v hv)

/-- Without inputs for a collateral, its payment can exceed the total; and with 1.2 coins the
smallest denomination comes eleven times. -/
theorem createDenominated_exceeds : createDenominated ⟨false,fun _ => 0,[]⟩ 1000 = [4000000] ∧
      (createDenominated ⟨true,fun _ => 0,[]⟩ 120000000).count 10000100 = 11 := by
  decide +kernel

end DarkSilk
