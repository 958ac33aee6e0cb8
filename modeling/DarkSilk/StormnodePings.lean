import DarkSilk.Stormnode
import DarkSilk.Runs

/-! An entry of the list under pings and checks. Pings do not reach the entry, so what a
check makes of it depends on the ping that came with the broadcast and on the clock. -/

namespace DarkSilk

open List

namespace Stormnode

inductive Event
  | snp (E : Env) (snp : CStormnodePing)
  | check (E : Env)
  | checkOne (E : Env) (forceCheck : Bool) (vin : CTxIn)

def Event.env : Event → Env
  | .snp E _ => E
  | .check E => E
  | .checkOne E _ _ => E

def CStormnodeMan.checkOne (E : Env) (forceCheck : Bool) (vin : CTxIn) (man : CStormnodeMan) :
    CStormnodeMan :=
  { man with
    vStormnodes := updateFirst (fun sn => sn.vin.prevout = vin.prevout) (CStormnode.check E forceCheck) man.vStormnodes }

def CStormnodeMan.step (K : Crypto) (man : CStormnodeMan) : Event → CStormnodeMan
  | .snp E snp => man.processMessage K (.snp E snp)
  | .check E => man.check E
  | .checkOne E forceCheck vin => man.checkOne E forceCheck vin

variable {E : Env} {sn : CStormnode}

def CStormnode.Alive (sn : CStormnode) : Prop :=
  sn.activeState ≠ .STORMNODE_EXPIRED ∧ sn.activeState ≠ .STORMNODE_REMOVE

instance (sn : CStormnode) : Decidable sn.Alive := inferInstanceAs (Decidable (_ ∧ _))

/-- A check that is not skipped, of an entry that is not spent. -/
def Makes (E : Env) (forceCheck : Bool) (sn : CStormnode) : Prop :=
  E.shutdownRequested = false ∧ (forceCheck = true ∨ ¬ E.nTime-sn.lastTimeChecked < STORMNODE_CHECK_SECONDS) ∧
    sn.activeState ≠ .STORMNODE_VIN_SPENT

/-- The last ping is at most ten minutes newer than the broadcast, or it is a ping and has not
expired. -/
def Fresh (E : Env) (sn : CStormnode) : Prop :=
  sn.lastPing.sigTime-sn.sigTime < STORMNODE_MIN_SNP_SECONDS ∨
    sn.lastPing.isNone = false ∧ E.nAdjustedTime-sn.lastPing.sigTime < STORMNODE_EXPIRATION_SECONDS

instance (E : Env) (forceCheck : Bool) (sn : CStormnode) : Decidable (Makes E forceCheck sn) :=
  inferInstanceAs (Decidable (_ ∧ _))

instance (E : Env) (sn : CStormnode) : Decidable (Fresh E sn) := inferInstanceAs (Decidable (_ ∨ _))

theorem toCStormnodeBroadcast_check (E forceCheck) (sn : CStormnode) :
    (sn.check E forceCheck).toCStormnodeBroadcast = sn.toCStormnodeBroadcast := by
  unfold CStormnode.check
  dsimp only
  split_ifs <;> rfl

theorem activeState_check_of_not_makes {forceCheck} (h : ¬ Makes E forceCheck sn) :
    (sn.check E forceCheck).activeState = sn.activeState := by
  unfold CStormnode.check
  dsimp only
  split_ifs with h1 h2 h3 <;> try rfl
  all_goals
    refine absurd ⟨Bool.eq_false_of_not_eq_true h1,?_,h3⟩ h
    cases forceCheck with
    | true => exact .inl rfl
    | false => exact .inr (by simpa using h2)

/-- A removal comes ten minutes after the entry has expired. -/
theorem isPingedWithin_removal {now} (h : sn.isPingedWithin E STORMNODE_EXPIRATION_SECONDS now) :
    sn.isPingedWithin E STORMNODE_REMOVAL_SECONDS now := by
  simp only [CStormnode.isPingedWithin,Bool.and_eq_true,decide_eq_true_eq] at h ⊢
  refine ⟨h.1,Int64.lt_trans h.2 (by decide)⟩

theorem alive_check_iff {forceCheck} (h : Makes E forceCheck sn) :
    (sn.check E forceCheck).Alive ↔ Fresh E sn := by
  obtain ⟨hrun,hdue,hunspent⟩ := h
  have hskip : ¬ (!forceCheck && decide (E.nTime-sn.lastTimeChecked < STORMNODE_CHECK_SECONDS)) := by
    rcases hdue with rfl | hdue
    · simp
    · simp [hdue]
  have hpinged : sn.isPingedWithin E STORMNODE_EXPIRATION_SECONDS (-1) ↔
      sn.lastPing.isNone = false ∧ E.nAdjustedTime-sn.lastPing.sigTime < STORMNODE_EXPIRATION_SECONDS := by
    simp [CStormnode.isPingedWithin]
  unfold CStormnode.check
  rw [if_neg (by simp [hrun]),if_neg hskip]
  rw [if_neg hunspent]
  by_cases hpre : sn.lastPing.sigTime-sn.sigTime < STORMNODE_MIN_SNP_SECONDS
  · rw [if_pos hpre]
    exact iff_of_true ⟨by simp,by simp⟩ (.inl hpre)
  rw [if_neg hpre]
  have hsame : ∀ seconds, CStormnode.isPingedWithin E seconds (-1) { sn with lastTimeChecked := E.nTime } =
      sn.isPingedWithin E seconds (-1) := fun _ => rfl
  rw [hsame,hsame]
  by_cases hping : sn.isPingedWithin E STORMNODE_EXPIRATION_SECONDS (-1)
  · rw [if_neg (by simp [isPingedWithin_removal hping]),if_neg (by simp [hping])]
    exact iff_of_true ⟨by simp,by simp⟩ (.inr (hpinged.mp hping))
  · have hstale : ¬ Fresh E sn := not_or.mpr ⟨hpre,fun hfresh => hping (hpinged.mpr hfresh)⟩
    rw [if_pos (show (!sn.isPingedWithin E STORMNODE_EXPIRATION_SECONDS (-1)) by simpa using hping)]
    split_ifs
    · exact iff_of_false (fun halive => halive.2 rfl) hstale
    · exact iff_of_false (fun halive => halive.1 rfl) hstale

variable {K : Crypto} {man : CStormnodeMan} {vin : CTxIn}

/-- What an event does to the entry of an outpoint. -/
def Event.react (vin : CTxIn) : Event → CStormnode → CStormnode
  | .snp _ _, sn => sn
  | .check E, sn => sn.check E false
  | .checkOne E forceCheck vin', sn => if vin'.prevout = vin.prevout then sn.check E forceCheck else sn

variable {α : Type} {sn' : CStormnode}

theorem find?_map_of_fits {fits f} (hf : ∀ a, fits (f a) = fits a) (l : List α) :
    (l.map f).find? fits = (l.find? fits).map f := by
  rw [find?_map]
  have hcomp : fits ∘ f = fits := funext hf
  rw [hcomp]

theorem find?_updateFirst {fits f} (hf : ∀ a, fits (f a) = fits a) (l : List α) :
    (updateFirst fits f l).find? fits = (l.find? fits).map f := by
  induction l with
  | nil => rfl
  | cons a l ih =>
    rw [updateFirst]
    by_cases ha : fits a
    · rw [if_pos ha,find?_cons_of_pos ((hf a).trans ha),find?_cons_of_pos ha]
      rfl
    · rw [if_neg ha,find?_cons_of_neg ha,find?_cons_of_neg ha,ih]

theorem find?_updateFirst_of_apart {fits other f}
    (hf : ∀ a, fits a → other (f a) = false ∧ other a = false) (l : List α) :
    (updateFirst fits f l).find? other = l.find? other := by
  induction l with
  | nil => rfl
  | cons a l ih =>
    rw [updateFirst]
    by_cases ha : fits a
    · obtain ⟨h1,h2⟩ := hf a ha
      rw [if_pos ha,find?_cons_of_neg (by simp [h1]),find?_cons_of_neg (by simp [h2])]
    · rw [if_neg ha,find?_cons,find?_cons,ih]

open CStormnodeMan

theorem find_step (ev : Event) : (man.step K ev).find vin = (man.find vin).map (ev.react vin) := by
  have hvin : ∀ (E : Env) (forceCheck : Bool) (sn : CStormnode), (sn.check E forceCheck).vin = sn.vin :=
    fun E forceCheck sn => congrArg CStormnodeBroadcast.vin (toCStormnodeBroadcast_check E forceCheck sn)
  cases ev with
  | snp E snp =>
    have hlist : (man.step K (.snp E snp)).vStormnodes = man.vStormnodes := by
      simp only [step,processMessage,processSnp]
      split_ifs <;> rfl
    rw [find,hlist]
    exact Option.map_id'.symm
  | check E => exact find?_map_of_fits (fun sn => by rw [hvin]) _
  | checkOne E forceCheck vin' =>
    by_cases hsame : vin'.prevout = vin.prevout
    · have hreact : (Event.checkOne E forceCheck vin').react vin = CStormnode.check E forceCheck := by
        funext sn
        exact if_pos hsame
      rw [hreact,find,find,step,checkOne,hsame]
      exact find?_updateFirst (fun sn => by rw [hvin]) _
    · have hreact : (Event.checkOne E forceCheck vin').react vin = id := by
        funext sn
        exact if_neg hsame
      rw [hreact,Option.map_id]
      apply find?_updateFirst_of_apart
      intro sn hfits
      have hne : ¬ sn.vin.prevout = vin.prevout := fun heq => hsame ((of_decide_eq_true hfits).symm.trans heq)
      rw [hvin]
      exact ⟨decide_eq_false hne,decide_eq_false hne⟩

/-- The event makes a check of the entry. -/
def Event.Checks (vin : CTxIn) (sn : CStormnode) : Event → Prop
  | .snp _ _ => False
  | .check E => Makes E false sn
  | .checkOne E forceCheck vin' => vin'.prevout = vin.prevout ∧ Makes E forceCheck sn

instance (vin : CTxIn) (sn : CStormnode) : ∀ ev : Event, Decidable (ev.Checks vin sn)
  | .snp _ _ => .isFalse id
  | .check E => inferInstanceAs (Decidable (Makes E false sn))
  | .checkOne E forceCheck vin' => inferInstanceAs (Decidable (vin'.prevout = vin.prevout ∧
      Makes E forceCheck sn))

theorem toCStormnodeBroadcast_react (ev : Event) (sn : CStormnode) :
    (ev.react vin sn).toCStormnodeBroadcast = sn.toCStormnodeBroadcast := by
  cases ev with
  | snp E snp => rfl
  | check E => exact toCStormnodeBroadcast_check E false sn
  | checkOne E forceCheck vin' =>
    rw [Event.react]
    split_ifs
    · exact toCStormnodeBroadcast_check E forceCheck sn
    · rfl

theorem alive_react_iff {ev : Event} (halive : sn.Alive) :
    (ev.react vin sn).Alive ↔ (ev.Checks vin sn → Fresh ev.env sn) := by
  have hcheck : ∀ (E : Env) (forceCheck : Bool), (sn.check E forceCheck).Alive ↔
      (Makes E forceCheck sn → Fresh E sn) := by
    intro E forceCheck
    by_cases hmade : Makes E forceCheck sn
    · rw [alive_check_iff hmade]
      exact ⟨fun h _ => h,fun h => h hmade⟩
    · refine iff_of_true ?_ fun h => absurd h hmade
      rw [CStormnode.Alive,activeState_check_of_not_makes hmade]
      exact halive
  cases ev with
  | snp E snp => exact iff_of_true halive fun h => absurd h id
  | check E => exact hcheck E false
  | checkOne E forceCheck vin' =>
    by_cases hsame : vin'.prevout = vin.prevout
    · rw [Event.react,if_pos hsame,hcheck]
      exact ⟨fun h hc => h hc.2,fun h hm => h ⟨hsame,hm⟩⟩
    · rw [Event.react,if_neg hsame]
      exact iff_of_true halive fun h => absurd h.1 hsame

theorem fresh_congr (h : sn'.toCStormnodeBroadcast = sn.toCStormnodeBroadcast) :
    Fresh E sn' ↔ Fresh E sn := by
  unfold Fresh
  rw [h]

/-- If the event makes a check of the entry, the clock finds the entry that the run began
with fresh. -/
def Due (vin : CTxIn) (sn : CStormnode) (man : CStormnodeMan) (ev : Event) : Prop :=
  ∀ sn' ∈ man.find vin, ev.Checks vin sn' → Fresh ev.env sn

instance (vin : CTxIn) (sn : CStormnode) (man : CStormnodeMan) (ev : Event) :
    Decidable (Due vin sn man ev) :=
  inferInstanceAs (Decidable (∀ sn' ∈ man.find vin, _))

theorem due_congr (h : sn'.toCStormnodeBroadcast = sn.toCStormnodeBroadcast) :
    Due vin sn' = Due vin sn := by
  funext man ev
  simp only [Due,fresh_congr h]

/-- No check of a run lets the entry expire or marks it for removal if and only if every
check that is made finds the first ping fresh. Whatever pings arrive makes no difference. -/
theorem staysAlive_iff (K : Crypto) {man : CStormnodeMan} {vin : CTxIn} {sn : CStormnode}
    (hfind : man.find vin = some sn) (halive : sn.Alive) (l : List Event) :
    (∀ l₁, l₁ <+: l → ∃ sn', (l₁.foldl (step K) man).find vin = some sn' ∧ sn'.Alive) ↔
      Runs.Always (step K) (Due vin sn) man l := by
  -- the broadcast of the entry, which is all that the condition looks at, never changes
  refine Runs.forall_prefix_iff_always_of_invariant
    (J := fun (man : CStormnodeMan) => ∃ sn', man.find vin = some sn' ∧
      sn'.toCStormnodeBroadcast = sn.toCStormnodeBroadcast)
    (I := fun (man : CStormnodeMan) => ∃ sn', man.find vin = some sn' ∧ sn'.Alive) ?_ ?_
    ⟨sn,hfind,rfl⟩ ⟨sn,hfind,halive⟩
  · rintro man ev ⟨sn',hsn',hb⟩
    refine ⟨ev.react vin sn',?_,(toCStormnodeBroadcast_react ev sn').trans hb⟩
    rw [find_step,hsn']
    rfl
  · rintro man ev ⟨sn',hsn',hb⟩ ⟨sn'',hsn'',halive'⟩
    obtain rfl := Option.some.inj (hsn'.symm.trans hsn'')
    have hnext : (man.step K ev).find vin = some (ev.react vin sn') := by rw [find_step,hsn']; rfl
    rw [← due_congr hb,Due,hsn',hnext]
    simp [alive_react_iff halive']

/-- Signed pings of the entry, with increasing times, arrive so often that at no event the
last one has expired. -/
def Live (K : Crypto) (sn : CStormnode) : Int64 → List Event → Prop
  | _, [] => True
  | last, .snp E snp::l =>
    E.nAdjustedTime-last < STORMNODE_EXPIRATION_SECONDS ∧ snp.vin = sn.vin ∧ last < snp.sigTime ∧
      snp.sigTime = E.nAdjustedTime ∧
      K.verifyMessage sn.pubkey2 snp.vchSig (.snp snp.vin snp.blockHash snp.sigTime) = true ∧ Live K sn snp.sigTime l
  | last, .check E::l => E.nAdjustedTime-last < STORMNODE_EXPIRATION_SECONDS ∧ Live K sn last l
  | last, .checkOne E _ _::l => E.nAdjustedTime-last < STORMNODE_EXPIRATION_SECONDS ∧ Live K sn last l

instance decidableLive (K : Crypto) (sn : CStormnode) : ∀ last l, Decidable (Live K sn last l)
  | _, [] => .isTrue trivial
  | _, .snp _ snp::l =>
    have := decidableLive K sn snp.sigTime l
    inferInstanceAs (Decidable (_ ∧ _ ∧ _ ∧ _ ∧ _ ∧ _))
  | last, .check _::l =>
    have := decidableLive K sn last l
    inferInstanceAs (Decidable (_ ∧ _))
  | last, .checkOne _ _ _::l =>
    have := decidableLive K sn last l
    inferInstanceAs (Decidable (_ ∧ _))

namespace Sample

/-- The signature of a stormnode is the byte one. -/
def crypto : Crypto := ⟨DarkSilk.Sample.params,fun _ vchSig _ => vchSig = [1]⟩

def envAt (nTime : Int64) : Env where
  fLiteMode := false
  isBlockchainSynced := true
  shutdownRequested := false
  nTime := nTime
  nAdjustedTime := nTime
  minStormnodePaymentsProto := 60000
  getTransaction := fun _ => none
  acceptableInputs := fun _ => false
  getInputAge := fun _ => 0
  lockMain := true
  fStormNode := false
  activeVin := ⟨0,0⟩
  activePubKey := []
  collateralPubKey := []

def collateral : CTxIn := ⟨⟨5,0⟩,[],0xFFFFFFFF⟩

def pingAt (sigTime : Int64) : CStormnodePing := ⟨collateral,0,sigTime,[1]⟩

/-- An entry that was announced at one time, and whose first ping came at another. -/
def entry (sigTime pinged : Int64) : CStormnode :=
  ⟨⟨collateral,⟨1,31000⟩,[2],[3],[1],sigTime,60027,pingAt pinged,0⟩,.STORMNODE_ENABLED,pinged⟩

def listed (sigTime pinged : Int64) : CStormnodeMan := ⟨[entry sigTime pinged],∅,∅⟩

/-- A ping every half hour, and a check after each of them. -/
def pinged (n : ℕ) : List Event :=
  (List.range n).flatMap fun i =>
    let nTime : Int64 := 2800+1800*Int64.ofNat i
    [.snp (envAt nTime) (pingAt nTime),.check (envAt (nTime+10))]

end Sample

open DarkSilk.Stormnode.Sample

theorem staysAlive_iff_pinged : (listed 0 1000).find collateral = some (entry 0 1000) ∧
      (∀ l₁, l₁ <+: pinged 2 → ∃ sn', (l₁.foldl (step crypto) (listed 0 1000)).find
        collateral = some sn' ∧ sn'.Alive) :=
  ⟨rfl,(staysAlive_iff crypto rfl (by decide +kernel) (pinged 2)).mpr (by decide +kernel)⟩

/-- A stormnode that pings every half hour is marked for removal by the check after the third
ping. -/
theorem pinged_expires : Live crypto (entry 0 1000) 1000 (pinged 3) ∧
    (((pinged 3).foldl (step crypto) (listed 0 1000)).find collateral).map
      (fun sn => sn.activeState) = some .STORMNODE_REMOVE := by
  decide +kernel

end Stormnode

end DarkSilk
