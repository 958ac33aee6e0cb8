import DarkSilk.StormnodePings

/-! What a message that is refused leaves behind. A ping leaves nothing that the list depends
on. A broadcast leaves its hash, which covers the time and the key of the collateral but not
the signature, and every later broadcast with this hash is passed over. -/

namespace DarkSilk

open List

namespace Stormnode

/-- Whatever messages follow, the list is the one it would be without this message. -/
def NoTrace (K : Crypto) (man : CStormnodeMan) (msg : Message) : Prop :=
  ∀ l : List Message, (l.foldl (CStormnodeMan.processMessage K) (man.processMessage K msg)).vStormnodes =
    (l.foldl (CStormnodeMan.processMessage K) man).vStormnodes

def CStormnodeMan.note (K : Crypto) (man : CStormnodeMan) (snb : CStormnodeBroadcast) :
    CStormnodeMan :=
  { man with mapSeenStormnodeBroadcast := man.mapSeenStormnodeBroadcast.insert (snb.getHash K) snb }

/-- A message that is handled, new, and turned down: a ping by its check, a broadcast by its
check or because the transaction of its outpoint does not pay its key. -/
def Message.Rejected (K : Crypto) (man : CStormnodeMan) (msg : Message) : Prop :=
  msg.env.fLiteMode = false ∧ msg.env.isBlockchainSynced = true ∧
    match msg with
    | .snb E b =>
      man.mapSeenStormnodeBroadcast.contains (b.getHash K) = false ∧
        ((b.checkAndUpdate K E (man.note K b)).toBool = false ∨ isVinAssociatedWithPubkey K E b.vin b.pubkey = false)
    | .snp E p =>
      man.mapSeenStormnodePing.contains (p.getHash K) = false ∧ (p.checkAndUpdate K E true man).toBool = false

instance (K : Crypto) (man : CStormnodeMan) : ∀ msg : Message, Decidable (msg.Rejected K man)
  | .snb _ _ => inferInstanceAs (Decidable (_ ∧ _ ∧ _ ∧ (_ ∨ _)))
  | .snp _ _ => inferInstanceAs (Decidable (_ ∧ _ ∧ _ ∧ _))

/-- The signature and the port are right: what of the checks depends on the broadcast alone. -/
def CStormnodeBroadcast.Genuine (K : Crypto) (snb : CStormnodeBroadcast) : Prop :=
  K.verifyMessage snb.pubkey snb.vchSig snb.text = true ∧ snb.portOk K = true

/-- A ping, or a broadcast whose hash is not the one of any genuine broadcast. -/
def Message.Harmless (K : Crypto) : Message → Prop
  | .snb _ b => ∀ b' : CStormnodeBroadcast, b'.getHash K = b.getHash K → ¬ b'.Genuine K
  | .snp _ _ => True

variable {K : Crypto} {E : Env} {snb : CStormnodeBroadcast} {man : CStormnodeMan}

variable {H : UInt256 → Prop} {A B : CStormnodeMan}

structure Alike (H : UInt256 → Prop) (A B : CStormnodeMan) : Prop where
  list : A.vStormnodes = B.vStormnodes
  seen : ∀ h, ¬ H h → A.mapSeenStormnodeBroadcast.contains h = B.mapSeenStormnodeBroadcast.contains h

open CStormnodeMan

theorem Alike.find (h : Alike H A B) (vin) : A.find vin = B.find vin := by
  rw [CStormnodeMan.find,CStormnodeMan.find,h.list]

theorem Alike.note (h : Alike H A B) (snb) : Alike H (A.note K snb) (B.note K snb) := by
  refine ⟨h.list,fun k hk => ?_⟩
  show (A.mapSeenStormnodeBroadcast.insert _ _).contains k = (B.mapSeenStormnodeBroadcast.insert _ _).contains k
  rw [contains_insert,contains_insert,h.seen k hk]

theorem Alike.forget (h : Alike H A B) (hash) : Alike H (A.forget hash) (B.forget hash) := by
  refine ⟨h.list,fun k hk => ?_⟩
  show (A.mapSeenStormnodeBroadcast.erase _).contains k = (B.mapSeenStormnodeBroadcast.erase _).contains k
  rw [contains_erase,contains_erase,h.seen k hk]

theorem Alike.remove (h : Alike H A B) (vin) : Alike H (A.remove vin) (B.remove vin) :=
  ⟨congrArg (eraseP _) h.list,h.seen⟩

theorem Alike.add (h : Alike H A B) (sn) : Alike H (A.add sn) (B.add sn) := by
  unfold CStormnodeMan.add
  rw [h.find]
  split_ifs
  · exact h
  · cases B.find sn.vin with
    | none => exact ⟨congrArg (· ++[sn]) h.list,h.seen⟩
    | some psn => exact h

/-- The ping of a broadcast is refused, so the entry takes the same in both lists. -/
theorem Alike.update (h : Alike H A B) (snb) : Alike H (A.update K E snb) (B.update K E snb) := by
  refine ⟨?_,h.seen⟩
  have hsame : ∀ sn : CStormnode, sn.updateFromNewBroadcast K E A snb = sn.updateFromNewBroadcast K E B snb := by
    intro sn
    simp only [CStormnode.updateFromNewBroadcast,CStormnodePing.checkAndUpdate_toBool]
  show updateFirst _ _ A.vStormnodes = updateFirst _ _ B.vStormnodes
  simp only [hsame,h.list]

theorem Alike.checkAndUpdate (h : Alike H A B) (snb : CStormnodeBroadcast) :
    (∃ nDos, snb.checkAndUpdate K E A = .error nDos ∧ snb.checkAndUpdate K E B = .error nDos) ∨
      ∃ A' B', snb.checkAndUpdate K E A = .ok A' ∧ snb.checkAndUpdate K E B = .ok B' ∧
      Alike H A' B' := by
  unfold CStormnodeBroadcast.checkAndUpdate
  rw [h.find]
  cases snb.checkFields K E with
  | error nDos => exact .inl ⟨nDos,rfl,rfl⟩
  | ok u =>
    cases B.find snb.vin with
    | none => exact .inr ⟨A,B,rfl,rfl,h⟩
    | some psn =>
      dsimp only
      split_ifs
      · exact .inl ⟨0,rfl,rfl⟩
      · exact .inr ⟨_,_,rfl,rfl,h.update snb⟩
      · exact .inr ⟨A,B,rfl,rfl,h⟩

theorem Alike.addNew (h : Alike H A B) (snb) :
    Alike H (CStormnodeBroadcast.checkInputsAndAdd.addNew K E snb A).2
      (CStormnodeBroadcast.checkInputsAndAdd.addNew K E snb B).2 := by
  unfold CStormnodeBroadcast.checkInputsAndAdd.addNew
  split_ifs
  · exact h.forget _
  · exact h
  · exact h.forget _
  · exact h.add (.ofBroadcast snb)

theorem Alike.checkInputsAndAdd (h : Alike H A B) (snb : CStormnodeBroadcast) :
    Alike H (snb.checkInputsAndAdd K E A).2 (snb.checkInputsAndAdd K E B).2 := by
  unfold CStormnodeBroadcast.checkInputsAndAdd
  rw [h.find]
  split_ifs
  · exact h
  · cases B.find snb.vin with
    | none => exact h.addNew snb
    | some psn =>
      dsimp only
      split_ifs
      · exact h
      · exact (h.remove psn.vin).addNew snb

theorem processSnb_of_seen (h : man.mapSeenStormnodeBroadcast.contains (snb.getHash K)) :
    man.processSnb K E snb = man :=
  if_pos h

theorem processSnb_of_error {nDos}
    (hnew : man.mapSeenStormnodeBroadcast.contains (snb.getHash K) = false)
    (h : snb.checkAndUpdate K E (man.note K snb) = .error nDos) :
    man.processSnb K E snb = man.note K snb := by
  rw [note] at h
  rw [processSnb,if_neg (by simp [hnew])]
  simp only [h,note]

theorem processSnb_of_ok {man'}
    (hnew : man.mapSeenStormnodeBroadcast.contains (snb.getHash K) = false)
    (h : snb.checkAndUpdate K E (man.note K snb) = .ok man') :
    man.processSnb K E snb =
      if isVinAssociatedWithPubkey K E snb.vin snb.pubkey then (snb.checkInputsAndAdd K E man').2
        else man' := by
  rw [note] at h
  rw [processSnb,if_neg (by simp [hnew])]
  simp only [h]

theorem Alike.processSnb (h : Alike H A B) (hsnb : ¬ H (snb.getHash K)) :
    Alike H (A.processSnb K E snb) (B.processSnb K E snb) := by
  cases hnew : B.mapSeenStormnodeBroadcast.contains (snb.getHash K) with
  | true =>
    rw [processSnb_of_seen ((h.seen _ hsnb).trans hnew),processSnb_of_seen hnew]
    exact h
  | false =>
    have hnewA := (h.seen _ hsnb).trans hnew
    rcases (h.note (K := K) snb).checkAndUpdate (K := K) (E := E) snb with ⟨nDos,hA,hB⟩ | ⟨A',B',hA,hB,h'⟩
    · rw [processSnb_of_error hnewA hA,processSnb_of_error hnew hB]
      exact h.note snb
    · rw [processSnb_of_ok hnewA hA,processSnb_of_ok hnew hB]
      split_ifs
      · exact h'.checkInputsAndAdd snb
      · exact h'

theorem Alike.symm (h : Alike H A B) : Alike H B A := ⟨h.list.symm,fun k hk => (h.seen k hk).symm⟩

theorem Alike.trans {C} (h : Alike H A B) (h' : Alike H B C) : Alike H A C :=
  ⟨h.list.trans h'.list,fun k hk => (h.seen k hk).trans (h'.seen k hk)⟩

theorem alike_note (hsnb : H (snb.getHash K)) : Alike H (man.note K snb) man := by
  refine ⟨rfl,fun k hk => ?_⟩
  show (man.mapSeenStormnodeBroadcast.insert _ _).contains k = _
  have hne : snb.getHash K ≠ k := by
    rintro rfl
    exact hk hsnb
  rw [contains_insert]
  simp [hne]

theorem alike_processSnp (man snp) : Alike H (man.processSnp K snp) man := by
  unfold processSnp
  split_ifs <;> exact ⟨rfl,fun _ _ => rfl⟩

theorem alike_processSnb (hsnb : H (snb.getHash K)) (hgen : ¬ snb.Genuine K) :
    Alike H (man.processSnb K E snb) man := by
  have hfields : ∃ nDos, snb.checkFields K E = .error nDos := by
    unfold CStormnodeBroadcast.checkFields
    split_ifs with h1 h2 h3 h4 h5 h6 h7 <;> try exact ⟨_,rfl⟩
    refine absurd ⟨?_,?_⟩ hgen
    · simpa using h6
    · simpa using h7
  obtain ⟨nDos,hfields⟩ := hfields
  cases hnew : man.mapSeenStormnodeBroadcast.contains (snb.getHash K) with
  | true =>
    rw [processSnb_of_seen hnew]
    exact ⟨rfl,fun _ _ => rfl⟩
  | false =>
    have herror : snb.checkAndUpdate K E (man.note K snb) = .error nDos := by
      rw [CStormnodeBroadcast.checkAndUpdate,hfields]
    rw [processSnb_of_error hnew herror]
    exact alike_note hsnb

theorem Alike.processMessage (hH : ∀ snb : CStormnodeBroadcast, H (snb.getHash K) → ¬ snb.Genuine K)
    (h : Alike H A B) (msg) : Alike H (A.processMessage K msg) (B.processMessage K msg) := by
  unfold CStormnodeMan.processMessage
  split_ifs
  · exact h
  · cases msg with
    | snb E snb =>
      by_cases hsnb : H (snb.getHash K)
      · exact (alike_processSnb hsnb (hH snb hsnb)).trans (h.trans (alike_processSnb hsnb (hH snb hsnb)).symm)
      · exact h.processSnb hsnb
    | snp E snp => exact (alike_processSnp A snp).trans (h.trans (alike_processSnp B snp).symm)

theorem Alike.foldl (hH : ∀ snb : CStormnodeBroadcast, H (snb.getHash K) → ¬ snb.Genuine K)
    (h : Alike H A B)
    (l : List Message) :
    Alike H (l.foldl (CStormnodeMan.processMessage K) A)
      (l.foldl (CStormnodeMan.processMessage K) B) :=
  foldl_rel h fun msg _ _ _ h => h.processMessage hH msg

/-- An environment that has nothing against a broadcast: late enough, content with its
version, and with the collateral in every transaction. -/
def Env.welcome (K : Crypto) (snb : CStormnodeBroadcast) : Env where
  fLiteMode := false
  isBlockchainSynced := true
  shutdownRequested := false
  nTime := 0
  nAdjustedTime := Int64.maxValue-60*60
  minStormnodePaymentsProto := snb.protocolVersion
  getTransaction := fun _ => some ⟨1,0,[],[⟨1000*COIN,payee K snb.pubkey⟩],0⟩
  acceptableInputs := fun _ => true
  getInputAge := fun _ => STORMNODE_MIN_CONFIRMATIONS
  lockMain := true
  fStormNode := false
  activeVin := ⟨0,0⟩
  activePubKey := []
  collateralPubKey := []

theorem length_payee (K pubkey) : (payee K pubkey).length = 25 := by
  have hheader : (Script.pushHeader 20).length = 1 := by decide
  simp [payee,Script.getScriptForDestination,Script.pushVector,hheader]

theorem checkFields_welcome (hgen : snb.Genuine K) (hsig : snb.vin.scriptSig = []) :
    snb.checkFields K (.welcome K snb) = .ok () := by
  have htime : ¬ snb.sigTime > (Env.welcome K snb).nAdjustedTime+60*60 := by
    have hmax : Int64.maxValue-60*60+60*60 = Int64.maxValue := by decide
    show ¬ Int64.maxValue-60*60+60*60 < snb.sigTime
    rw [hmax]
    exact Int64.not_lt.mpr (Int64.le_maxValue _)
  have hproto : ¬ snb.protocolVersion < (Env.welcome K snb).minStormnodePaymentsProto :=
    lt_irrefl snb.protocolVersion
  unfold CStormnodeBroadcast.checkFields
  rw [if_neg htime,if_neg hproto]
  simp [length_payee,hsig,hgen.1,hgen.2]

theorem vStormnodes_processSnb_welcome
    (hnew : man.mapSeenStormnodeBroadcast.contains (snb.getHash K) = false)
    (hgen : snb.Genuine K) (hsig : snb.vin.scriptSig = []) (hfree : man.find snb.vin = none) :
    (man.processSnb K (.welcome K snb) snb).vStormnodes = man.vStormnodes++[.ofBroadcast snb] := by
  have hfind : (man.note K snb).find snb.vin = none := hfree
  have hcheck : snb.checkAndUpdate K (.welcome K snb) (man.note K snb) = .ok (man.note K snb) := by
    rw [CStormnodeBroadcast.checkAndUpdate,checkFields_welcome hgen hsig,hfind]
  have hpays : isVinAssociatedWithPubkey K (.welcome K snb) snb.vin snb.pubkey := by
    simp [isVinAssociatedWithPubkey,Env.welcome]
  have hadd : (snb.checkInputsAndAdd K (.welcome K snb) (man.note K snb)).2 =
      (man.note K snb).add (.ofBroadcast snb) := by
    rw [CStormnodeBroadcast.checkInputsAndAdd,hfind]
    simp [CStormnodeBroadcast.checkInputsAndAdd.addNew,Env.welcome]
  rw [processSnb_of_ok hnew hcheck,if_pos hpays,hadd,add]
  have hfind' : (man.note K snb).find (CStormnode.ofBroadcast snb).vin = none := hfree
  rw [hfind']
  rfl

theorem length_updateFirst {α : Type} (fits : α → Bool) (f : α → α) (l) :
    (updateFirst fits f l).length = l.length := by
  induction l with
  | nil => rfl
  | cons a l ih =>
    rw [updateFirst]
    split_ifs <;> simp [ih]

theorem checkAndUpdate_eq_ok {man'} (h : snb.checkAndUpdate K E man = .ok man') :
    man' = man ∨ man' = man.update K E snb := by
  unfold CStormnodeBroadcast.checkAndUpdate at h
  split at h
  · cases h
  · split at h
    · exact .inl (Except.ok.inj h).symm
    · split_ifs at h
      · exact .inr (Except.ok.inj h).symm
      · exact .inl (Except.ok.inj h).symm

/-- What the handler leaves of a broadcast that it refuses: the hash is seen, and no entry has
come or gone. -/
theorem processSnb_of_rejected
    (hnew : man.mapSeenStormnodeBroadcast.contains (snb.getHash K) = false)
    (hrej : (snb.checkAndUpdate K E (man.note K snb)).toBool = false ∨
      isVinAssociatedWithPubkey K E snb.vin snb.pubkey = false) :
    (man.processSnb K E snb).vStormnodes.length = man.vStormnodes.length ∧
      (man.processSnb K E snb).mapSeenStormnodeBroadcast.contains (snb.getHash K) := by
  have hseen : (man.note K snb).mapSeenStormnodeBroadcast.contains (snb.getHash K) := by
    show (man.mapSeenStormnodeBroadcast.insert _ _).contains _
    simp
  cases hcheck : snb.checkAndUpdate K E (man.note K snb) with
  | error nDos =>
    rw [processSnb_of_error hnew hcheck]
    exact ⟨rfl,hseen⟩
  | ok man' =>
    have hother : isVinAssociatedWithPubkey K E snb.vin snb.pubkey = false := by
      rw [hcheck] at hrej
      exact hrej.resolve_left (by simp [Except.toBool])
    rw [processSnb_of_ok hnew hcheck,if_neg (by simp [hother])]
    rcases checkAndUpdate_eq_ok hcheck with rfl | rfl
    · exact ⟨rfl,hseen⟩
    · exact ⟨length_updateFirst _ _ _,hseen⟩

/-- A list that a machine can hold leaves outpoints free. -/
theorem exists_free_outpoint {l : List CStormnode} (hl : l.length < 2^64) :
    ∃ o : COutPoint, ∀ sn ∈ l, sn.vin.prevout ≠ o := by
  by_contra hall
  have hused : ∀ o : COutPoint, o ∈ l.map fun sn => sn.vin.prevout := by
    intro o
    by_contra hfree
    exact hall ⟨o,fun sn hsn heq => hfree (mem_map.mpr ⟨sn,hsn,heq⟩)⟩
  let name : Fin (2^64) → COutPoint := fun i => ⟨BitVec.ofNat 256 i,0⟩
  have hinj : Function.Injective name := by
    intro i j hij
    have hhash : BitVec.ofNat 256 i = BitVec.ofNat 256 j := congrArg COutPoint.hash hij
    have hnat := congrArg BitVec.toNat hhash
    rw [BitVec.toNat_ofNat,BitVec.toNat_ofNat,Nat.mod_eq_of_lt (by omega),Nat.mod_eq_of_lt (by omega)] at hnat
    exact Fin.ext hnat
  have hsub : (Finset.univ.image name) ⊆ (l.map fun sn => sn.vin.prevout).toFinset :=
    fun o _ => mem_toFinset.mpr (hused o)
  have hcard := Finset.card_le_card hsub
  rw [Finset.card_image_of_injective _ hinj,Finset.card_univ,Fintype.card_fin] at hcard
  have hle := toFinset_card_le (l.map fun sn => sn.vin.prevout)
  rw [length_map] at hle
  omega

/-- A message that is refused leaves no trace if and only if it is a ping, or a broadcast with
whose hash there is no genuine one. The list has no more entries than a vector can have. -/
theorem noTrace_iff_harmless (K : Crypto) (man : CStormnodeMan)
    (hsize : man.vStormnodes.length < 2^64) (msg : Message)
    (hrej : msg.Rejected K man) : NoTrace K man msg ↔ msg.Harmless K := by
  have hon : ∀ msg : Message, msg.env.fLiteMode = false → msg.env.isBlockchainSynced = true →
      ¬ (msg.env.fLiteMode || !msg.env.isBlockchainSynced) = true := by
    intro msg h₁ h₂
    simp [h₁,h₂]
  obtain ⟨hlite,hsynced,hrej⟩ := hrej
  cases msg with
  | snp E snp =>
    refine iff_of_true (fun l => ?_) trivial
    rw [CStormnodeMan.processMessage,if_neg (hon _ hlite hsynced)]
    exact ((alike_processSnp (H := fun _ => False) man snp).foldl (fun _ h => h.elim) l).list
  | snb E snb =>
    constructor
    · -- a genuine broadcast with the hash, moved to a free outpoint, is added in the one run only
      intro htrace snb' hhash hgen
      obtain ⟨o,ho⟩ := exists_free_outpoint hsize
      let moved : CStormnodeBroadcast := { snb' with vin := ⟨o,[],0⟩ }
      have hmoved : moved.getHash K = snb.getHash K := hhash
      have hfree : man.find moved.vin = none :=
        find?_eq_none.mpr fun sn hsn heq => ho sn hsn (of_decide_eq_true heq)
      have hnew : man.mapSeenStormnodeBroadcast.contains (moved.getHash K) =
          false := by rw [hmoved]; exact hrej.1
      have hadded := vStormnodes_processSnb_welcome hnew (show moved.Genuine K from hgen) rfl hfree
      obtain ⟨hlength,hseen⟩ := processSnb_of_rejected hrej.1 hrej.2
      have hskipped := processSnb_of_seen (E := .welcome K moved) ((congrArg _ hmoved).trans hseen)
      have hsame := htrace [.snb (.welcome K moved) moved]
      simp only [foldl_cons,foldl_nil] at hsame
      have hwelcome : ∀ man : CStormnodeMan, man.processMessage K (.snb (.welcome K moved) moved) =
          man.processSnb K (.welcome K moved) moved := fun _ => rfl
      rw [hwelcome,hwelcome,CStormnodeMan.processMessage,if_neg (hon _ hlite hsynced)] at hsame
      rw [hskipped,hadded] at hsame
      have := congrArg List.length hsame
      rw [hlength,length_append] at this
      simp at this
    · intro hharm l
      rw [CStormnodeMan.processMessage,if_neg (hon _ hlite hsynced)]
      have hfirst : Alike (· = snb.getHash K) (man.processSnb K E snb) man :=
        alike_processSnb rfl (hharm snb rfl)
      exact (Alike.foldl (H := (· = snb.getHash K)) hharm hfirst l).list

namespace Sample

/-- A newer broadcast of the entry that the list has. -/
def renewed : CStormnodeBroadcast := (entry 5000 5000).toCStormnodeBroadcast

/-- The broadcast with a signature that anybody can make up. -/
def forged : CStormnodeBroadcast := { renewed with vchSig := [0] }

end Sample

open DarkSilk.Stormnode.Sample

theorem noTrace_iff_harmless_forged :
    NoTrace crypto (listed 1000 1000) (.snp (envAt 2000) (pingAt 2000)) ∧
    ¬ NoTrace crypto (listed 1000 1000) (.snb (envAt 5000) forged) := by
  constructor
  · exact (noTrace_iff_harmless crypto (listed 1000 1000) (by decide) _ (by decide +kernel)).mpr trivial
  · intro htrace
    have hharm := (noTrace_iff_harmless crypto (listed 1000 1000) (by decide) _ (by decide +kernel)).mp htrace
    exact hharm renewed rfl ⟨by decide +kernel,by decide +kernel⟩

/-- A forged broadcast is refused, and then the genuine one does not renew the entry. -/
theorem forged_keeps_out : (Message.snb (envAt 5000) forged).Rejected crypto (listed 1000 1000) ∧
    (([.snb (envAt 5000) renewed] : List Message).foldl (processMessage crypto)
      ((listed 1000 1000).processMessage crypto (.snb (envAt 5000) forged))).vStormnodes.map
        (fun sn => sn.sigTime) = [1000] ∧
    (([.snb (envAt 5000) renewed] : List Message).foldl (processMessage crypto)
      (listed 1000 1000)).vStormnodes.map (fun sn => sn.sigTime) = [5000] := by
  decide +kernel

end Stormnode

end DarkSilk
