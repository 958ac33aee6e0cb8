import DarkSilk.ConnectBlock
import DarkSilk.Argmax

/-! Sporks: signed switches of the network. The active spork of an identifier is replaced by
a later one with a good signature; the signature covers the decimal texts of the identifier,
the value and the time, one after the other. -/
namespace DarkSilk

open Argmax PrefixCode List

structure CSporkMessage where
  vchSig : List UInt8
  nSporkID : Int32
  nValue : Int64
  nTimeSigned : Int64
  deriving DecidableEq, Repr

def SPORK_11_RESET_BUDGET : Int32 := 10010
def SPORK_12_RECONSIDER_BLOCKS : Int32 := 10011

/-- The bytes in memory from the identifier to the time. Those between the identifier and the
value belong to no field. -/
def CSporkMessage.getHash (P : Params) (padding : List UInt8) (spork : CSporkMessage) : UInt256 :=
  P.hash (leBytes 4 spork.nSporkID.toUInt32.toNat++padding++leBytes 8 spork.nValue.toUInt64.toNat++
    leBytes 8 spork.nTimeSigned.toUInt64.toNat)

def CSporkMessage.strMessage (spork : CSporkMessage) : String :=
  toString spork.nSporkID++toString spork.nValue++toString spork.nTimeSigned

def CSporkMessage.triple (spork : CSporkMessage) : Int32 × Int64 × Int64 :=
  (spork.nSporkID,spork.nValue,spork.nTimeSigned)

structure SporkNode where
  fLiteMode : Bool
  strMainPubKey : List UInt8
  verifyMessage : List UInt8 → List UInt8 → String → Bool

def SporkNode.checkSignature (N : SporkNode) (spork : CSporkMessage) : Bool :=
  N.verifyMessage N.strMainPubKey spork.vchSig spork.strMessage

structure SporkSigner where
  setKey : Option (List UInt8 × List UInt8)
  signMessage : String → List UInt8 → Option (List UInt8)

def SporkNode.sign (N : SporkNode) (S : SporkSigner) (spork : CSporkMessage) :
    Option CSporkMessage := do
  let (key2,pubkey2) ← S.setKey
  let vchSig ← S.signMessage spork.strMessage key2
  if N.verifyMessage pubkey2 vchSig spork.strMessage then some { spork with vchSig := vchSig } else none

structure SporkState where
  mapSporks : HashMap CSporkMessage
  mapSporksActive : Std.ExtTreeMap Int32 CSporkMessage

def SporkState.empty : SporkState := ⟨∅,∅⟩

/-- The tasks of ExecuteSpork. Only the first does something; the second is not implemented. -/
inductive SporkTask
  | clearBudget
  | reprocessBlocks (nBlocks : Int32)
  deriving DecidableEq, Repr

def executeSpork (nSporkID nValue : Int32) : List SporkTask :=
  (if nSporkID = SPORK_11_RESET_BUDGET && nValue = 1 then [.clearBudget] else [])++
    if nSporkID = SPORK_12_RECONSIDER_BLOCKS && nValue > 0 then [.reprocessBlocks nValue] else []

inductive SporkReply
  | ignored
  | misbehaving (nDoS : ℕ)
  | relayed (hash : UInt256) (tasks : List SporkTask)
  | sporks (l : List CSporkMessage)
  deriving DecidableEq, Repr

inductive SporkCommand
  | spork (spork : CSporkMessage)
  | getsporks
  deriving DecidableEq, Repr

/-- A command as it arrives: whether there is a best block, and what the memory between the
fields of the message holds. -/
structure SporkDelivery where
  strCommand : SporkCommand
  hasBest : Bool
  padding : List UInt8

/-- Whether an active spork is as late as the message. -/
def SporkState.seen (s : SporkState) (spork : CSporkMessage) : Bool :=
  (s.mapSporksActive[spork.nSporkID]?).any fun active => active.nTimeSigned ≥ spork.nTimeSigned

/-- Store and relay a spork, and do its task. The value is cut to 32 bits there. -/
def SporkState.accept (P : Params) (padding : List UInt8) (spork : CSporkMessage) (s : SporkState) :
    SporkReply × SporkState :=
  let hash := spork.getHash P padding
  (.relayed hash (executeSpork spork.nSporkID spork.nValue.toInt32),
    ⟨s.mapSporks.insert hash spork,s.mapSporksActive.insert spork.nSporkID spork⟩)

def SporkNode.processSpork (N : SporkNode) (P : Params) (d : SporkDelivery) (s : SporkState) :
    SporkReply × SporkState :=
  if N.fLiteMode then (.ignored,s)
  else match d.strCommand with
    | .spork spork =>
      if !d.hasBest then (.ignored,s)
      else if s.seen spork then (.ignored,s)
      else if !N.checkSignature spork then (.misbehaving 100,s)
      else s.accept P d.padding spork
    | .getsporks => (.sporks s.mapSporksActive.values,s)

def SporkNode.run (N : SporkNode) (P : Params) (l : List SporkDelivery) : SporkState :=
  l.foldl (fun s d => (N.processSpork P d s).2) .empty

variable {m m' : CSporkMessage}

/-- Two triples of texts are one text, cut at two places: the characters `u` lie between the
first cuts, and `v` between the second ones. -/
def CutApart (u v a b c a' b' c' : List Char) : Prop :=
  a' = a++u ∧ (u++b' = b++v ∧ c = v++c' ∨ b = u++b'++v ∧ c' = v++c) ∨
    a = a'++u ∧ (u++b = b'++v ∧ c' = v++c ∨ b' = u++b++v ∧ c = v++c')

theorem append_eq_iff_cutApart (a b c a' b' c') :
    a++b++c = a'++b'++c' ↔ ∃ u v, CutApart u v a b c a' b' c' := by
  rw [append_assoc,append_assoc,append_eq_append_iff]
  constructor
  · rintro (⟨u,rfl,h⟩ | ⟨u,rfl,h⟩) <;> rw [← append_assoc,append_eq_append_iff] at h
    · rcases h with ⟨v,hb,hc⟩ | ⟨v,hb,hc⟩
      · exact ⟨u,v,.inl ⟨rfl,.inl ⟨hb,hc⟩⟩⟩
      · exact ⟨u,v,.inl ⟨rfl,.inr ⟨hb,hc⟩⟩⟩
    · rcases h with ⟨v,hb,hc⟩ | ⟨v,hb,hc⟩
      · exact ⟨u,v,.inr ⟨rfl,.inl ⟨hb,hc⟩⟩⟩
      · exact ⟨u,v,.inr ⟨rfl,.inr ⟨hb,hc⟩⟩⟩
  · rintro ⟨u,v,⟨rfl,h⟩ | ⟨rfl,h⟩⟩
    · refine .inl ⟨u,rfl,?_⟩
      rw [← append_assoc]
      rcases h with ⟨hb,rfl⟩ | ⟨rfl,rfl⟩
      · rw [hb,append_assoc]
      · rw [append_assoc]
    · refine .inr ⟨u,rfl,?_⟩
      rw [← append_assoc]
      rcases h with ⟨hb,rfl⟩ | ⟨rfl,rfl⟩
      · rw [hb,append_assoc]
      · rw [append_assoc]

theorem cutApart_nil {a b c a' b' c'} :
    CutApart [] [] a b c a' b' c' ↔ a = a' ∧ b = b' ∧ c = c' := by
  simp only [CutApart,append_nil,nil_append]
  grind

/-- Digits or signs of one message stand in another field of the other one: one decimal text is
cut at other places. -/
def Recombined (m m' : CSporkMessage) : Prop :=
  ∃ u v, (u ≠ [] ∨ v ≠ []) ∧
    CutApart u v (toString m.nSporkID).toList (toString m.nValue).toList (toString m.nTimeSigned).toList
      (toString m'.nSporkID).toList (toString m'.nValue).toList (toString m'.nTimeSigned).toList

theorem toList_strMessage (m : CSporkMessage) : m.strMessage.toList =
    (toString m.nSporkID).toList++(toString m.nValue).toList++(toString m.nTimeSigned).toList := by
  rw [CSporkMessage.strMessage,String.toList_append,String.toList_append]

theorem toString_int32_inj {n k : Int32} : (toString n).toList = (toString k).toList ↔ n = k := by
  rw [String.toList_inj]
  exact Int.repr_inj.trans Int32.toInt_inj

theorem toString_int64_inj {n k : Int64} : (toString n).toList = (toString k).toList ↔ n = k := by
  rw [String.toList_inj]
  exact Int.repr_inj.trans Int64.toInt_inj

/-- The same text is signed for the same triple, and for a recombined one. -/
theorem strMessage_eq_iff :
    m.strMessage = m'.strMessage ↔ m.triple = m'.triple ∨ Recombined m m' := by
  rw [← String.toList_inj,toList_strMessage,toList_strMessage,append_eq_iff_cutApart]
  constructor
  · rintro ⟨u,v,h⟩
    by_cases huv : u = [] ∧ v = []
    · obtain ⟨rfl,rfl⟩ := huv
      rw [cutApart_nil,toString_int32_inj,toString_int64_inj,toString_int64_inj] at h
      obtain ⟨hid,hvalue,htime⟩ := h
      exact .inl (by rw [CSporkMessage.triple,hid,hvalue,htime]; rfl)
    · exact .inr ⟨u,v,not_and_or.mp huv,h⟩
  · rintro (h | ⟨u,v,-,h⟩)
    · obtain ⟨hid,hvalue,htime⟩ : m.nSporkID = m'.nSporkID ∧ m.nValue = m'.nValue ∧
        m.nTimeSigned = m'.nTimeSigned := by
        simpa [CSporkMessage.triple] using h
      exact ⟨[],[],cutApart_nil.mpr (by rw [hid,hvalue,htime]; exact ⟨rfl,rfl,rfl⟩)⟩
    · exact ⟨u,v,h⟩

theorem CutApart.eq_nil {u v a b c a' b' c'} (h : CutApart u v a b c a' b' c') :
    (a.length = a'.length → u = []) ∧ (c.length = c'.length → v = []) := by
  rcases h with ⟨rfl,⟨-,rfl⟩ | ⟨-,rfl⟩⟩ | ⟨rfl,⟨-,rfl⟩ | ⟨-,rfl⟩⟩ <;>
    simp only [length_append,← length_eq_zero_iff] <;> omega

theorem not_recombined_of_length
    (hid : (toString m.nSporkID).toList.length = (toString m'.nSporkID).toList.length)
    (htime : (toString m.nTimeSigned).toList.length = (toString m'.nTimeSigned).toList.length) :
    ¬ Recombined m m' := by
  rintro ⟨u,v,huv,h⟩
  rcases huv with hu | hv
  · exact hu (h.eq_nil.1 hid)
  · exact hv (h.eq_nil.2 htime)

theorem not_recombined_of_triple (h : m.triple = m'.triple) : ¬ Recombined m m' := by
  simp only [CSporkMessage.triple,Prod.mk.injEq] at h
  exact not_recombined_of_length (by rw [h.1]) (by rw [h.2.2])

/-- Different triples have different texts if and only if they are not recombined. A signature
for a triple passes for every recombined one, and for no other triple where a signature is good
for one text only. -/
theorem strMessage_ne_iff (N : SporkNode) (m m' : CSporkMessage) :
    ((m.triple ≠ m'.triple → m.strMessage ≠ m'.strMessage) ↔ ¬ Recombined m m') ∧
      (Recombined m m' → ∀ vchSig,
        N.checkSignature { m with vchSig := vchSig } =
          N.checkSignature { m' with vchSig := vchSig }) ∧
      ((∀ vchSig text text', N.verifyMessage N.strMainPubKey vchSig text = true →
          N.verifyMessage N.strMainPubKey vchSig text' = true → text = text') →
        ¬ Recombined m m' → ∀ vchSig, N.checkSignature { m with vchSig := vchSig } = true →
          N.checkSignature { m' with vchSig := vchSig } = true → m.triple = m'.triple) := by
  refine ⟨⟨fun h hrec => ?_,fun h htriple heq => ?_⟩,fun hrec vchSig => ?_,fun hbinds hrec vchSig h h' => ?_⟩
  · have htriple : m.triple ≠ m'.triple := fun htriple => not_recombined_of_triple htriple hrec
    exact h htriple (strMessage_eq_iff.mpr (.inr hrec))
  · exact (strMessage_eq_iff.mp heq).elim htriple h
  · show N.verifyMessage _ _ m.strMessage = N.verifyMessage _ _ m'.strMessage
    rw [strMessage_eq_iff.mpr (.inr hrec)]
  · have heq : m.strMessage = m'.strMessage := hbinds vchSig _ _ h h'
    exact (strMessage_eq_iff.mp heq).resolve_right hrec

namespace Sample

/-- A signature is the text itself here. -/
def sporkNode : SporkNode where
  fLiteMode := false
  strMainPubKey := [2]
  verifyMessage := fun pubkey vchSig text => pubkey = [2] && vchSig = text.toList.map fun c => c.toNat.toUInt8

def sporkSigner : SporkSigner where
  setKey := some ([1],[2])
  signMessage := fun text _ => some (text.toList.map fun c => c.toNat.toUInt8)

def signedSpork : CSporkMessage :=
  (sporkNode.sign sporkSigner ⟨[],10004,1234,1450000000⟩).getD ⟨[],0,0,0⟩

/-- The same signature for the value 12 and a time far in the future. -/
def forgedSpork : CSporkMessage := ⟨signedSpork.vchSig,10004,12,341450000000⟩

def delivery (spork : CSporkMessage) : SporkDelivery := ⟨.spork spork,true,[0,0,0,0]⟩

end Sample

open Sample

/-- Two digits of a signed value are put in front of the time: the signature still passes, and
the forged spork replaces the signed one. -/
theorem forgedSpork_replaces :
    signedSpork.triple = (10004,1234,1450000000) ∧ forgedSpork.triple ≠ signedSpork.triple ∧
      forgedSpork.strMessage = signedSpork.strMessage ∧
      (sporkNode.run params [delivery signedSpork,
        delivery forgedSpork]).mapSporksActive[(10004 : Int32)]? = some forgedSpork := by
  decide +kernel

variable {N : SporkNode} {P : Params}

def SporkNode.looksAt (N : SporkNode) (d : SporkDelivery) : Option CSporkMessage :=
  match d.strCommand with
  | .spork spork => if !N.fLiteMode && d.hasBest then some spork else none
  | .getsporks => none

def SporkNode.processed (N : SporkNode) (l : List SporkDelivery) : List CSporkMessage :=
  l.filterMap N.looksAt

/-- The active spork of one identifier after one more spork. -/
def SporkNode.replace (N : SporkNode) (nSporkID : Int32) (active : Option CSporkMessage)
    (spork : CSporkMessage) :
    Option CSporkMessage :=
  if (spork.nSporkID = nSporkID && N.checkSignature spork) && active.all fun old => old.nTimeSigned < spork.nTimeSigned
  then some spork else active

theorem getElem?_insert_active (m : Std.ExtTreeMap Int32 CSporkMessage) (k id spork) :
    (m.insert k spork)[id]? = if k = id then some spork else m[id]? := by
  simp [Std.ExtTreeMap.getElem?_insert]

theorem seen_eq_false_iff (s : SporkState) (spork : CSporkMessage) : s.seen spork = false ↔
    (s.mapSporksActive[spork.nSporkID]?).all (fun old => old.nTimeSigned < spork.nTimeSigned) := by
  unfold SporkState.seen
  cases s.mapSporksActive[spork.nSporkID]? with
  | none => simp
  | some active => simp [Int64.not_le]

/-- One delivery changes the active sporks by the spork that it makes the node look at. -/
theorem processSpork_active (d) (s : SporkState) (nSporkID) :
    (N.processSpork P d s).2.mapSporksActive[nSporkID]? =
      (N.looksAt d).elim s.mapSporksActive[nSporkID]?
        (N.replace nSporkID s.mapSporksActive[nSporkID]?) := by
  unfold SporkNode.processSpork SporkNode.looksAt
  cases N.fLiteMode
  case true => cases d.strCommand <;> rfl
  case false =>
    cases d.strCommand with
    | getsporks => rfl
    | spork spork =>
      cases d.hasBest
      case false => rfl
      case true =>
        cases hseen : s.seen spork
        case true =>
          have hlate :
              ¬ (s.mapSporksActive[spork.nSporkID]?).all (fun old => old.nTimeSigned < spork.nTimeSigned) :=
            fun h => by simp [(seen_eq_false_iff s spork).mpr h] at hseen
          by_cases hid : spork.nSporkID = nSporkID
          · subst hid
            simp [SporkNode.replace,hseen,hlate]
          · simp [SporkNode.replace,hseen,hid]
        case false =>
          have hlater := (seen_eq_false_iff s spork).mp hseen
          cases hsig : N.checkSignature spork
          case false => simp [SporkNode.replace,hseen,hsig]
          case true =>
            by_cases hid : spork.nSporkID = nSporkID
            · subst hid
              simp [SporkNode.replace,SporkState.accept,hseen,hsig,hlater]
            · simp [SporkNode.replace,SporkState.accept,getElem?_insert_active,hseen,hsig,hid]

theorem run_active (l nSporkID) :
    (N.run P l).mapSporksActive[nSporkID]? = (N.processed l).foldl (N.replace nSporkID) none := by
  induction l using reverseRecOn with
  | nil => simp [SporkNode.run,SporkNode.processed,SporkState.empty]
  | append_singleton l d ih =>
    have hrun : N.run P (l++[d]) = (N.processSpork P d (N.run P l)).2 := by
      simp [SporkNode.run]
    rw [hrun,processSpork_active,ih]
    unfold SporkNode.processed
    rw [filterMap_append,foldl_append]
    cases h : N.looksAt d <;> simp [h]

/-- The signed message of the identifier with the greatest time, among some messages. -/
structure SporkNode.Latest (N : SporkNode) (C : List CSporkMessage) (nSporkID : Int32)
    (spork : CSporkMessage) : Prop where
  mem : spork ∈ C
  id : spork.nSporkID = nSporkID
  signed : N.checkSignature spork = true
  latest : ∀ m ∈ C, m.nSporkID = nSporkID → N.checkSignature m = true → m.nTimeSigned ≤ spork.nTimeSigned

/-- The time of an active spork; where there is none, a time before all others. -/
def activeTime : Option CSporkMessage → ℤ
  | none => -2^63-1
  | some spork => spork.nTimeSigned.toInt

theorem activeTime_none_lt (spork : CSporkMessage) : activeTime none < spork.nTimeSigned.toInt := by
  have hle := spork.nTimeSigned.le_toInt
  simp only [activeTime]
  omega

theorem replace_eq (nSporkID active) (spork : CSporkMessage) : N.replace nSporkID active spork =
      if (spork.nSporkID = nSporkID && N.checkSignature spork) && activeTime active <
        spork.nTimeSigned.toInt
      then some spork else active := by
  cases active with
  | none => simp [SporkNode.replace,activeTime_none_lt]
  | some old =>
    simp only [SporkNode.replace,Option.all_some,Int64.lt_iff_toInt_lt]
    rfl

theorem foldl_replace_cases (nSporkID) (l : List CSporkMessage) :
    (l.foldl (N.replace nSporkID) none = none ∧ ∀ m ∈ l, m.nSporkID = nSporkID →
      N.checkSignature m = false) ∨
      ∃ spork, l.foldl (N.replace nSporkID) none = some spork ∧ N.Latest l nSporkID spork := by
  have hcases := foldl_cases (fun m => decide (m.nSporkID = nSporkID) && N.checkSignature m)
    (fun m => m.nTimeSigned.toInt) activeTime some (fun _ => rfl) (replace_eq nSporkID) none l
  rcases hcases with ⟨hnone,hle⟩ | ⟨spork,hwin,-,hsome⟩
  · refine .inl ⟨hnone,fun m hm hid => ?_⟩
    by_contra hsig
    exact absurd (activeTime_none_lt m) (hle m hm (by simp [hid,hsig])).not_gt
  · have helig := hwin.eligible
    simp only [Bool.and_eq_true,decide_eq_true_eq] at helig
    refine .inr ⟨spork,hsome,hwin.mem,helig.1,helig.2,fun m hm hid hsig => ?_⟩
    exact Int64.le_iff_toInt_le.mpr (hwin.le hm (by simp [hid,hsig]))

/-- The signed messages of one identifier have different times. -/
def SporkNode.Timed (N : SporkNode) (C : List CSporkMessage) : Prop :=
  ∀ m ∈ C, ∀ m' ∈ C, N.checkSignature m = true → N.checkSignature m' = true → m.nSporkID = m'.nSporkID →
    m.nTimeSigned = m'.nTimeSigned → m = m'

/-- A run delivers the signed messages of a collection, in some order and number, and among
them any messages without a good signature. -/
def SporkNode.Delivers (N : SporkNode) (C : List CSporkMessage) (l : List SporkDelivery) : Prop :=
  ∀ m, N.checkSignature m = true → (m ∈ N.processed l ↔ m ∈ C)

theorem SporkNode.Latest.unique {C nSporkID} (hC : N.Timed C) (h : N.Latest C nSporkID m)
    (h' : N.Latest C nSporkID m') : m = m' := by
  have hle := h'.latest m h.mem h.id h.signed
  have hge := h.latest m' h'.mem h'.id h'.signed
  exact hC m h.mem m' h'.mem h.signed h'.signed (h.id.trans h'.id.symm) (Int64.le_antisymm hle hge)

variable {C : List CSporkMessage} {l : List SporkDelivery}

theorem SporkNode.Delivers.latest_iff (hl : N.Delivers C l) {nSporkID} :
    N.Latest (N.processed l) nSporkID m ↔ N.Latest C nSporkID m := by
  constructor
  · intro h
    refine ⟨(hl m h.signed).mp h.mem,h.id,h.signed,fun m' hm' hid hsig => ?_⟩
    exact h.latest m' ((hl m' hsig).mpr hm') hid hsig
  · intro h
    refine ⟨(hl m h.signed).mpr h.mem,h.id,h.signed,fun m' hm' hid hsig => ?_⟩
    exact h.latest m' ((hl m' hsig).mp hm') hid hsig

theorem active_eq_some_iff (hC : N.Timed C) (hl : N.Delivers C l) (nSporkID m) :
    (N.run P l).mapSporksActive[nSporkID]? = some m ↔ N.Latest C nSporkID m := by
  rw [run_active]
  rcases foldl_replace_cases nSporkID (N.processed l) with ⟨hnone,hno⟩ | ⟨spork,hsome,hlatest⟩
  · rw [hnone]
    refine iff_of_false (by simp) fun h => ?_
    have := hno m ((hl m h.signed).mpr h.mem) h.id
    rw [h.signed] at this
    cases this
  · rw [hsome,Option.some_inj]
    have hspork := hl.latest_iff.mp hlatest
    constructor
    · rintro rfl
      exact hspork
    · exact hspork.unique hC

/-- Two runs that deliver the same signed messages, of different times for each identifier, end
with the same active sporks: for each identifier the signed message with the greatest time. -/
theorem activeSporks_converge {C : List CSporkMessage} {l l' : List SporkDelivery} (hC : N.Timed C)
    (hl : N.Delivers C l) (hl' : N.Delivers C l') :
    (N.run P l).mapSporksActive = (N.run P l').mapSporksActive ∧
      ∀ nSporkID m, (N.run P l).mapSporksActive[nSporkID]? = some m ↔ N.Latest C nSporkID m := by
  refine ⟨Std.ExtTreeMap.ext_getElem? fun nSporkID => Option.ext fun m => ?_,active_eq_some_iff hC hl⟩
  rw [active_eq_some_iff hC hl,active_eq_some_iff hC hl']

namespace Sample

def laterSpork : CSporkMessage :=
  (sporkNode.sign sporkSigner ⟨[],10004,500,1450000001⟩).getD ⟨[],0,0,0⟩

def otherSpork : CSporkMessage :=
  (sporkNode.sign sporkSigner ⟨[],10001,0,1450000000⟩).getD ⟨[],0,0,0⟩

/-- The latest of all, but with a bad signature. -/
def wrongSpork : CSporkMessage := ⟨[1],10004,7,1500000000⟩

end Sample

open Sample

/-- Two orders of three signed messages, one with a repetition and a wrongly signed message. -/
theorem activeSporks_converge_sample : let C := [signedSpork,laterSpork,otherSpork]
    let l := [delivery laterSpork,delivery wrongSpork,delivery signedSpork,
      delivery otherSpork,delivery laterSpork]
    sporkNode.Timed C ∧ sporkNode.Delivers C l ∧ (sporkNode.run params l).mapSporksActive =
        (sporkNode.run params (C.map delivery)).mapSporksActive := by
  intro C l
  have hC : sporkNode.Timed C := by unfold SporkNode.Timed; decide +kernel
  have hl : sporkNode.Delivers C l := by
    intro m hm
    have hwrong : m ≠ wrongSpork := by
      rintro rfl
      exact absurd hm (by decide +kernel)
    have horder : ∀ {a b c d : CSporkMessage}, m ≠ b → (m ∈ [a,b,c,d,a] ↔ m ∈ [c,a,d]) := by
      intro a b c d hb
      simp only [mem_cons,not_mem_nil,or_false]
      tauto
    exact horder hwrong
  have hl' : sporkNode.Delivers C (C.map delivery) := fun m _ => Iff.rfl
  exact ⟨hC,hl,(activeSporks_converge hC hl hl').1⟩

end DarkSilk
