import DarkSilk.BudgetCache

/-! Runs of the budget messages, from the tables that the cache file gave: what the tables hold
of the votes that came, and when that is the vote of every stormnode that counts. -/
namespace DarkSilk

open Std Runs List Option

variable {I V : Type} {P : Params} {E : BudgetEnv} {K : VoteKind V}

theorem checkOrphan_lookup (t : VoteTables I V) {e} (he : K.item e.2 = e.1) (h) :
    (t.checkOrphan P K E e).mapKnown[h]? = (if e.1 = h then
        (t.mapKnown[h]?).map fun x => (x.1,(addOrUpdateVote P K e.2 x.2).2) else t.mapKnown[h]?) ∧
      (t.checkOrphan P K E e).mapOrphanVotes[h]? = if e.1 = h ∧
        ((t.mapKnown[h]?).any fun x =>
          (addOrUpdateVote P K e.2 x.2).1) then none else t.mapOrphanVotes[h]? := by
  unfold VoteTables.checkOrphan VoteTables.update
  rw [he]
  cases hx : t.mapKnown[e.1]? with
  | none =>
    by_cases hh : e.1 = h
    · subst hh
      simp [hx]
    · simp [hh]
  | some x =>
    obtain ⟨i,mapVotes⟩ := x
    dsimp only
    by_cases hh : e.1 = h
    · subst hh
      cases hacc : (addOrUpdateVote P K e.2 mapVotes).1 <;> simp [hx,hacc]
    · cases hacc : (addOrUpdateVote P K e.2 mapVotes).1 <;> simp [hh,getElem?_insert,getElem?_erase]

theorem foldl_checkOrphan_of_notMem (l : List (UInt256 × V)) (hitem : ∀ e ∈ l, K.item e.2 = e.1)
    (t : VoteTables I V) {h} (hh : ∀ e ∈ l, e.1 ≠ h) :
    (l.foldl (VoteTables.checkOrphan P K E) t).mapKnown[h]? = t.mapKnown[h]? ∧
      (l.foldl (VoteTables.checkOrphan P K E) t).mapOrphanVotes[h]? = t.mapOrphanVotes[h]? := by
  induction l generalizing t with
  | nil => exact ⟨rfl,rfl⟩
  | cons e l ih =>
    have he := checkOrphan_lookup (P := P) (E := E) t (hitem e (.head l)) h
    have hne := hh e (.head l)
    rw [foldl_cons,(ih (fun x hx => hitem x (.tail e hx)) _ fun x hx => hh x (.tail e hx)).1,
      (ih (fun x hx => hitem x (.tail e hx)) _ fun x hx => hh x (.tail e hx)).2,he.1,he.2,if_neg hne,
      if_neg fun hc => hne hc.1]
    exact ⟨rfl,rfl⟩

theorem foldl_checkOrphan_of_mem {l : List (UInt256 × V)} (hitem : ∀ e ∈ l, K.item e.2 = e.1)
    (hdis : l.Pairwise fun e e' => e.1 ≠ e'.1) (t : VoteTables I V) {h vote} (hmem : (h,vote) ∈ l) :
    (l.foldl (VoteTables.checkOrphan P K E) t).mapKnown[h]? =
        (t.mapKnown[h]?).map (fun x => (x.1,(addOrUpdateVote P K vote x.2).2)) ∧
      (l.foldl (VoteTables.checkOrphan P K E) t).mapOrphanVotes[h]? =
        if (t.mapKnown[h]?).any (fun x =>
          (addOrUpdateVote P K vote x.2).1) then none else t.mapOrphanVotes[h]? := by
  induction l generalizing t with
  | nil => simp at hmem
  | cons e l ih =>
    have he := checkOrphan_lookup (P := P) (E := E) t (hitem e (.head l)) h
    obtain ⟨hfirst,hrest⟩ := pairwise_cons.mp hdis
    rw [foldl_cons]
    cases hmem with
    | head =>
      have hkeep := foldl_checkOrphan_of_notMem (P := P) (E := E) l (fun x hx => hitem x (.tail _ hx))
        (t.checkOrphan P K E (h,vote)) fun x hx => (hfirst x hx).symm
      rw [hkeep.1,hkeep.2,he.1,he.2]
      simp
    | tail _ hmem =>
      have hne : e.1 ≠ h := hfirst (h,vote) hmem
      rw [if_neg hne,if_neg fun hc => hne hc.1] at he
      have htail := ih (fun x hx => hitem x (.tail e hx)) hrest (t.checkOrphan P K E e) hmem
      rw [htail.1,htail.2,he.1,he.2]
      exact ⟨rfl,rfl⟩

theorem checkOrphanVotes_lookup (t : VoteTables I V)
    (hitem : ∀ (h : UInt256) (vote : V), t.mapOrphanVotes[h]? = some vote → K.item vote = h)
    (h : UInt256) :
    (t.checkOrphanVotes P K E).mapKnown[h]? = (match t.mapOrphanVotes[h]? with
      | some vote => (t.mapKnown[h]?).map fun x => (x.1,(addOrUpdateVote P K vote x.2).2)
      | none => t.mapKnown[h]?) ∧
    (t.checkOrphanVotes P K E).mapOrphanVotes[h]? = match t.mapOrphanVotes[h]? with
      | some vote => if (t.mapKnown[h]?).any fun x =>
        (addOrUpdateVote P K vote x.2).1 then none else some vote
      | none => none := by
  have hlist : ∀ e ∈ t.mapOrphanVotes.toList, K.item e.2 = e.1 := fun e he =>
    hitem e.1 e.2 (ExtTreeMap.mem_toList_iff_getElem?_eq_some.mp he)
  cases hx : t.mapOrphanVotes[h]? with
  | none =>
    have hout := foldl_checkOrphan_of_notMem (P := P) (E := E) _ hlist t (h := h) fun e he heq => by
      have hsome := ExtTreeMap.mem_toList_iff_getElem?_eq_some.mp he
      rw [heq,hx] at hsome
      cases hsome
    rw [hx] at hout
    exact hout
  | some vote =>
    have hin := foldl_checkOrphan_of_mem (P := P) (E := E) hlist
      (t.mapOrphanVotes.distinct_keys_toList.imp fun hab he => hab (by simp [he])) t
      (ExtTreeMap.mem_toList_iff_getElem?_eq_some.mpr hx)
    rw [hx] at hin
    exact hin

variable {votes : List V} {t t' : VoteTables I V} {vote : V}

/-- What the tables hold when these votes have come: for a known item the vote of every
stormnode that counts, and for an unknown one at most one vote, with no other lost. -/
structure TablesInv (P : Params) (K : VoteKind V) (votes : List V) (t : VoteTables I V) : Prop where
  time : ∀ vote ∈ votes, 0 ≤ K.nTime vote
  item : ∀ (h : UInt256) vote, t.mapOrphanVotes[h]? = some vote → K.item vote = h
  waits : ∀ (h : UInt256) vote, t.mapOrphanVotes[h]? = some vote → t.mapKnown[h]? = none
  known : ∀ (h : UInt256) x, t.mapKnown[h]? = some x → ∀ k : UInt256, x.2[k]? = latestVote P K votes h k
  unknown : ∀ h : UInt256, t.mapKnown[h]? = none → ∀ k : UInt256, latestVote P K votes h k =
    (t.mapOrphanVotes[h]?).filter fun vote => voteKey P (K.prevout vote) = k

def VoteTables.held (t : VoteTables I V) : List V :=
  (t.mapKnown.toList.flatMap fun e => e.2.2.toList.map Prod.snd)++t.mapOrphanVotes.toList.map Prod.snd

/-- Every vote stands at the item that it is for, under the key of its stormnode, votes wait for
unknown items only, and none is from before 1970. -/
structure VoteTables.Keyed (P : Params) (K : VoteKind V) (t : VoteTables I V) : Prop where
  time : ∀ vote ∈ t.held, 0 ≤ K.nTime vote
  known : ∀ (h : UInt256) x, t.mapKnown[h]? = some x → ∀ (k : UInt256) vote, x.2[k]? = some vote → votesFor P K h k vote
  item : ∀ (h : UInt256) vote, t.mapOrphanVotes[h]? = some vote → K.item vote = h
  waits : ∀ (h : UInt256) vote, t.mapOrphanVotes[h]? = some vote → t.mapKnown[h]? = none

theorem mem_held :
    vote ∈ t.held ↔ (∃ (h k : UInt256) (x : I × HashMap V), t.mapKnown[h]? = some x ∧
      x.2[k]? = some vote) ∨
    ∃ h : UInt256, t.mapOrphanVotes[h]? = some vote := by
  unfold VoteTables.held
  have hlist : ∀ m : HashMap V, vote ∈ m.toList.map Prod.snd ↔ ∃ k : UInt256, m[k]? = some vote := by
    intro m
    simp [ExtTreeMap.mem_toList_iff_getElem?_eq_some]
  rw [mem_append,hlist,mem_flatMap]
  simp only [hlist,Prod.exists,ExtTreeMap.mem_toList_iff_getElem?_eq_some]
  refine or_congr_left ⟨?_,?_⟩
  · rintro ⟨h,i,m,hx,k,hk⟩
    exact ⟨h,k,i,m,hx,hk⟩
  · rintro ⟨h,k,i,m,hx,hk⟩
    exact ⟨h,i,m,hx,k,hk⟩

theorem VoteTables.Keyed.cases_of_mem (ht : t.Keyed P K) (hmem : vote ∈ t.held) {h k}
    (hv : votesFor P K h k vote) :
    (∃ x, t.mapKnown[h]? = some x ∧ x.2[k]? = some vote) ∨ t.mapOrphanVotes[h]? = some vote := by
  rw [votesFor,Bool.and_eq_true,decide_eq_true_eq,decide_eq_true_eq] at hv
  rcases mem_held.mp hmem with ⟨h',k',x,hx,hvote⟩ | ⟨h',hvote⟩
  · have hkey := ht.known h' x hx k' vote hvote
    rw [votesFor,Bool.and_eq_true,decide_eq_true_eq,decide_eq_true_eq] at hkey
    rw [← hv.1,← hv.2,hkey.1,hkey.2]
    exact .inl ⟨x,hx,hvote⟩
  · rw [← hv.1,ht.item h' vote hvote]
    exact .inr hvote

/-- Tables that were read from the cache hold the votes that stand in them. -/
theorem VoteTables.Keyed.tablesInv (ht : t.Keyed P K) : TablesInv P K t.held t where
  time := ht.time
  item := ht.item
  waits := ht.waits
  known := fun h x hx k => by
    refine (latestVote_eq_of_forall (fun e he hv => ?_) fun e he => ?_).symm
    · rcases ht.cases_of_mem he hv with ⟨y,hy,hye⟩ | horphan
      · obtain rfl := some.inj (hx.symm.trans hy)
        exact hye
      · cases hx.symm.trans (ht.waits h e horphan)
    · exact ⟨mem_held.mpr (.inl ⟨h,k,x,hx,he⟩),ht.known h x hx k e he⟩
  unknown := fun h hx k => by
    refine latestVote_eq_of_forall (fun e he hv => ?_) fun e he => ?_
    · rcases ht.cases_of_mem he hv with ⟨y,hy,-⟩ | horphan
      · cases hx.symm.trans hy
      · rw [votesFor,Bool.and_eq_true] at hv
        rw [horphan]
        exact filter_some_pos hv.2
    · obtain ⟨horphan,hkey⟩ := filter_eq_some_iff.mp he
      exact ⟨mem_held.mpr (.inr ⟨h,horphan⟩),by simpa [votesFor,ht.item h e horphan] using hkey⟩

theorem TablesInv.congr (hinv : TablesInv P K votes t)
    (hknown : ∀ h : UInt256, t'.mapKnown[h]? = t.mapKnown[h]?)
    (horphan : ∀ h : UInt256, t'.mapOrphanVotes[h]? = t.mapOrphanVotes[h]?) :
    TablesInv P K votes t' where
  time := hinv.time
  item := fun h vote hx => hinv.item h vote (by rw [← horphan,hx])
  waits := fun h vote hx => by rw [hknown]; exact hinv.waits h vote (by rw [← horphan,hx])
  known := fun h x hx => hinv.known h x (by rw [← hknown,hx])
  unknown := fun h hx => by rw [horphan]; exact hinv.unknown h (by rw [← hknown,hx])

/-- No vote waits for a known item, so CheckOrphanVotes finds nothing to do. -/
theorem TablesInv.checkOrphanVotes (hinv : TablesInv P K votes t) :
    TablesInv P K votes (t.checkOrphanVotes P K E) := by
  have hlookup := checkOrphanVotes_lookup (P := P) (E := E) t hinv.item
  apply hinv.congr
  · intro h
    rw [(hlookup h).1]
    cases hx : t.mapOrphanVotes[h]? with
    | none => rfl
    | some vote => simp [hinv.waits h vote hx]
  · intro h
    rw [(hlookup h).2]
    cases hx : t.mapOrphanVotes[h]? with
    | none => rfl
    | some vote => simp [hinv.waits h vote hx]

def VoteTables.know (t : VoteTables I V) (hash : UInt256) (i : I) : VoteTables I V :=
  { t with mapKnown := t.mapKnown.insert hash (i,∅) }

theorem VoteTables.know_mapKnown (t : VoteTables I V) (hash) (i : I) (h) :
    (t.know hash i).mapKnown[h]? = if hash = h then some (i,∅) else t.mapKnown[h]? :=
  getElem?_insert _ _ _ _

@[simp] theorem VoteTables.know_mapOrphanVotes (t : VoteTables I V) (hash) (i : I) :
    (t.know hash i).mapOrphanVotes = t.mapOrphanVotes := rfl

theorem addOrUpdateVote_empty (vote : V) :
    addOrUpdateVote P K vote ∅ = (true,(∅ : HashMap V).insert (voteKey P (K.prevout vote))
      vote) := by
  simp [addOrUpdateVote]

theorem checkOrphanVotes_know (hinv : TablesInv P K votes t) (hash : UInt256) (i : I)
    (h : UInt256) :
    ((t.know hash i).checkOrphanVotes P K E).mapKnown[h]? = (if hash = h then
        some (i,match t.mapOrphanVotes[hash]? with
          | some vote => (∅ : HashMap V).insert (voteKey P (K.prevout vote)) vote
          | none => ∅) else t.mapKnown[h]?) ∧
      ((t.know hash i).checkOrphanVotes P K E).mapOrphanVotes[h]? =
        if hash = h then none else t.mapOrphanVotes[h]? := by
  have hlookup := checkOrphanVotes_lookup (P := P) (E := E) (t.know hash i) hinv.item h
  rw [VoteTables.know_mapKnown,VoteTables.know_mapOrphanVotes] at hlookup
  rw [hlookup.1,hlookup.2]
  by_cases hh : hash = h
  · subst hh
    cases hx : t.mapOrphanVotes[hash]? with
    | none => simp
    | some vote => simp [addOrUpdateVote_empty]
  · rw [if_neg hh,if_neg hh,if_neg hh]
    cases hx : t.mapOrphanVotes[h]? with
    | none => exact ⟨rfl,rfl⟩
    | some vote => simp [hinv.waits h vote hx]

theorem TablesInv.know (hinv : TablesInv P K votes t) {hash} (hnew : t.mapKnown[hash]? = none)
    (i : I) :
    TablesInv P K votes ((t.know hash i).checkOrphanVotes P K E) := by
  have hlookup := checkOrphanVotes_know (E := E) hinv hash i
  constructor
  · exact hinv.time
  · intro h vote hx
    rw [(hlookup h).2] at hx
    split_ifs at hx
    exact hinv.item h vote hx
  · intro h vote hx
    rw [(hlookup h).2] at hx
    split_ifs at hx with hh
    rw [(hlookup h).1,if_neg hh]
    exact hinv.waits h vote hx
  · intro h x hx k
    rw [(hlookup h).1] at hx
    split_ifs at hx with hh
    · subst hh
      rw [hinv.unknown hash hnew,← some.inj hx]
      cases t.mapOrphanVotes[hash]? with
      | none => simp
      | some vote =>
        rw [getElem?_insert]
        by_cases hk : voteKey P (K.prevout vote) = k <;> simp [hk,Option.filter]
    · exact hinv.known h x hx k
  · intro h hx k
    rw [(hlookup h).1] at hx
    split_ifs at hx with hh
    rw [(hlookup h).2,if_neg hh]
    exact hinv.unknown h hx k

def VoteKind.genuine (K : VoteKind V) (E : BudgetEnv) (vote : V) : Bool :=
  (E.find (K.prevout vote)).any fun pubkey2 => E.verifyMessage pubkey2 (K.vchSig vote) (K.strMessage vote)

theorem isValid_eq (vote : V) :
    K.isValid E vote = (!(K.nTime vote > E.nTime+60*60) && K.genuine E vote) :=
  rfl

theorem TablesInv.processVote_of_not_genuine (hinv : TablesInv P K votes t)
    (hg : K.genuine E vote = false) :
    TablesInv P K votes (t.processVote P K E vote) := by
  unfold VoteTables.processVote
  rw [isValid_eq,hg,Bool.and_false,if_neg Bool.false_ne_true]
  split_ifs
  · exact hinv
  · exact hinv
  · exact hinv.congr (fun _ => rfl) fun _ => rfl

theorem TablesInv.time_concat (hinv : TablesInv P K votes t) (htime : 0 ≤ K.nTime vote) :
    ∀ v ∈ votes++[vote], 0 ≤ K.nTime v := by
  intro v hv
  rcases mem_append.mp hv with hv | hv
  · exact hinv.time v hv
  · rwa [mem_singleton.mp hv]

theorem TablesInv.update_known (hinv : TablesInv P K votes t) (htime : 0 ≤ K.nTime vote) {x}
    (hx : t.mapKnown[K.item vote]? = some x) :
    TablesInv P K (votes++[vote]) (t.update P K E true vote).2 := by
  have hupdate : (t.update P K E true vote).2 = { t with
      mapKnown := t.mapKnown.insert (K.item vote) (x.1,(addOrUpdateVote P K vote x.2).2) } := by
    rw [VoteTables.update,hx]
  rw [hupdate]
  constructor
  · exact hinv.time_concat htime
  · exact hinv.item
  · intro h w hw
    rw [getElem?_insert,if_neg]
    · exact hinv.waits h w hw
    · rintro rfl
      rw [hinv.waits _ w hw] at hx
      cases hx
  · intro h y hy k
    rw [getElem?_insert] at hy
    rw [latestVote_concat]
    split_ifs at hy with hh
    · subst hh
      have hold : ∀ old, x.2[k]? = some old → 0 ≤ K.nTime old := fun old hold => by
        rw [hinv.known _ x hx] at hold
        exact hinv.time old (mem_of_latestVote hold).1
      rw [← some.inj hy,addOrUpdateVote_lookup vote x.2 k hold,hinv.known _ x hx]
      simp [votesFor]
    · rw [if_neg (by simp [votesFor,hh])]
      exact hinv.known h y hy k
  · intro h hy k
    rw [getElem?_insert] at hy
    split_ifs at hy with hh
    rw [latestVote_concat,if_neg (by simp [votesFor,hh])]
    exact hinv.unknown h hy k

theorem TablesInv.update_unknown (hinv : TablesInv P K votes t) (htime : 0 ≤ K.nTime vote)
    (hx : t.mapKnown[K.item vote]? = none)
    (hsync : E.isSynced) (hslot : ∀ old ∈ t.mapOrphanVotes[K.item vote]?,
      K.prevout old = K.prevout vote ∧ K.nTime old+BUDGET_VOTE_UPDATE_MIN ≤ K.nTime vote) :
    TablesInv P K (votes++[vote]) (t.update P K E true vote).2 := by
  have hupdate : (t.update P K E true vote).2 = { t with
      mapOrphanVotes := t.mapOrphanVotes.insert (K.item vote) vote } := by
    rw [VoteTables.update,hx]
    simp [hsync]
  rw [hupdate]
  constructor
  · exact hinv.time_concat htime
  · intro h w hw
    rw [getElem?_insert] at hw
    split_ifs at hw with hh
    · rw [← some.inj hw]
      exact hh
    · exact hinv.item h w hw
  · intro h w hw
    rw [getElem?_insert] at hw
    split_ifs at hw with hh
    · rw [← hh]
      exact hx
    · exact hinv.waits h w hw
  · intro h y hy k
    rw [latestVote_concat,if_neg]
    · exact hinv.known h y hy k
    · intro hv
      rw [votesFor,Bool.and_eq_true,decide_eq_true_eq] at hv
      rw [hv.1] at hx
      cases hx.symm.trans hy
  · intro h hy k
    rw [latestVote_concat,getElem?_insert,hinv.unknown h hy]
    by_cases hh : K.item vote = h
    · subst hh
      rw [if_pos rfl]
      by_cases hk : voteKey P (K.prevout vote) = k
      · rw [if_pos (by simp [votesFor,hk])]
        cases hold : t.mapOrphanVotes[K.item vote]? with
        | none => simp [supersede,Option.filter,hk]
        | some old =>
          obtain ⟨hvoter,htime⟩ := hslot old hold
          simp [supersede,Option.filter,hvoter,hk,htime]
      · rw [if_neg (by simp [votesFor,hk])]
        cases hold : t.mapOrphanVotes[K.item vote]? with
        | none => simp [Option.filter,hk]
        | some old => simp [Option.filter,(hslot old hold).1,hk]
    · rw [if_neg (by simp [votesFor,hh]),if_neg hh]

/-- What a genuine vote must find: a node that takes part, and its hash either noted for
the same vote, or new and the vote not from the future, with its item known or the place
of a waiting vote free for it. -/
@[mk_iff]
structure Heard (K : VoteKind V) (votes : List V) (t : VoteTables I V) (E : BudgetEnv) (vote : V) :
    Prop where
  active : E.fLiteMode = false ∧ E.isBlockchainSynced = true
  positive : 0 ≤ K.nTime vote
  noted : ∀ w ∈ t.mapSeenVotes[K.getHash vote]?,
    w ∈ votes ∧ K.item w = K.item vote ∧ K.prevout w = K.prevout vote ∧ K.nTime w = K.nTime vote
  time : t.mapSeenVotes[K.getHash vote]? = none → K.nTime vote ≤ E.nTime+60*60
  place : t.mapSeenVotes[K.getHash vote]? = none → t.mapKnown[K.item vote]? = none → E.isSynced = true ∧
    ∀ old ∈ t.mapOrphanVotes[K.item vote]?,
      K.prevout old = K.prevout vote ∧ K.nTime old+BUDGET_VOTE_UPDATE_MIN ≤ K.nTime vote

instance [DecidableEq V] : Decidable (Heard K votes t E vote) :=
  decidable_of_iff' _ (heard_iff K votes t E vote)

theorem TablesInv.processVote (hinv : TablesInv P K votes t) (hg : K.genuine E vote)
    (hheard : Heard K votes t E vote) :
    TablesInv P K (votes++[vote]) (t.processVote P K E vote) := by
  unfold VoteTables.processVote
  cases hseen : t.mapSeenVotes[K.getHash vote]? with
  | some w =>
    obtain ⟨hmem,hitem,hvoter,htime⟩ := hheard.noted w hseen
    rw [if_pos (by simp [ExtTreeMap.contains_eq_isSome_getElem?,hseen])]
    -- nothing is done, and nothing was to be done
    have hsame := fun h k => latestVote_concat_of_mem (P := P) (h := h) (k := k) hmem hitem hvoter htime
    exact ⟨hinv.time_concat hheard.positive,hinv.item,hinv.waits,
      fun h x hx k => (hsame h k).symm ▸ hinv.known h x hx k,
      fun h hx k => (hsame h k).symm ▸ hinv.unknown h hx k⟩
  | none =>
    have hvalid : K.isValid E vote := by
      rw [isValid_eq,hg]
      simpa using hheard.time hseen
    have hfind : (E.find (K.prevout vote)).isNone = false := by
      cases hf : E.find (K.prevout vote) with
      | none => simp [VoteKind.genuine,hf] at hg
      | some pubkey2 => rfl
    rw [if_neg (by simp [ExtTreeMap.contains_eq_isSome_getElem?,hseen]),if_neg (by simp [hfind]),if_pos hvalid]
    have hnoted : TablesInv P K votes
        { t with mapSeenVotes := t.mapSeenVotes.insert (K.getHash vote) vote } := hinv.congr (fun _ => rfl) fun _ => rfl
    cases hx : t.mapKnown[K.item vote]? with
    | none =>
      obtain ⟨hsync,hslot⟩ := hheard.place hseen hx
      exact hnoted.update_unknown hheard.positive hx hsync hslot
    | some x => exact hnoted.update_known hheard.positive hx

theorem TablesInv.receive (hinv : TablesInv P K votes t)
    (hheard : K.genuine E vote → Heard K votes t E vote) :
    TablesInv P K (votes++((some vote).filter (K.genuine E)).toList)
      (if E.fLiteMode || !E.isBlockchainSynced then t else t.processVote P K E vote) := by
  cases hg : K.genuine E vote with
  | false =>
    rw [show (some vote).filter (K.genuine E) = none by simp [hg],toList_none,append_nil]
    split_ifs
    · exact hinv
    · exact hinv.processVote_of_not_genuine hg
  | true =>
    rw [show (some vote).filter (K.genuine E) = some vote by simp [hg],toList_some,
      if_neg (by simp [(hheard hg).active])]
    exact hinv.processVote hg (hheard hg)

theorem TablesInv.processItem (hinv : TablesInv P K votes t) (hash) (i : I)
    (collateralValid valid) :
    let r := t.processItem hash i collateralValid valid
    TablesInv P K votes (if r.1 then r.2.checkOrphanVotes P K E else r.2) := by
  have hseen : TablesInv P K votes { t with mapSeen := t.mapSeen.insert hash i } :=
    hinv.congr (fun _ => rfl) fun _ => rfl
  unfold VoteTables.processItem
  by_cases h1 : t.mapSeen.contains hash
  · rw [if_pos h1]
    exact hinv
  rw [if_neg h1]
  cases collateralValid with
  | false => exact hinv
  | true =>
    cases valid with
    | false => exact hseen
    | true =>
      by_cases h2 : t.mapKnown.contains hash
      · simpa [h2] using hseen.checkOrphanVotes
      · have hnew : t.mapKnown[hash]? = none := by simpa using h2
        simpa [h2,VoteTables.know] using hseen.know hnew i

def BudgetMessage.svote? : BudgetMessage → Option CBudgetVote
  | .svote vote => some vote.received
  | _ => none

def BudgetMessage.fbvote? : BudgetMessage → Option CFinalizedBudgetVote
  | .fbvote vote => some vote.received
  | _ => none

/-- The tables in the course of a run, and the votes so far that came with the signature of a
stormnode known at that time, after those that the tables held at the start. -/
structure BudgetRun where
  tables : BudgetTables
  svotes : List CBudgetVote
  fbvotes : List CFinalizedBudgetVote

namespace BudgetRun

def start (t : BudgetTables) : BudgetRun := ⟨t,t.proposals.held,t.budgets.held⟩

def step (P : Params) (r : BudgetRun) (m : BudgetEnv × BudgetMessage) : BudgetRun where
  tables := r.tables.processMessage P m
  svotes := r.svotes++(m.2.svote?.filter ((budgetVotes P).genuine m.1)).toList
  fbvotes := r.fbvotes++(m.2.fbvote?.filter ((finalizedBudgetVotes P).genuine m.1)).toList

def HeardMessage (P : Params) (r : BudgetRun) (m : BudgetEnv × BudgetMessage) : Prop :=
  match m.2 with
  | .svote vote => (budgetVotes P).genuine m.1 vote.received →
    Heard (budgetVotes P) r.svotes r.tables.proposals m.1 vote.received
  | .fbvote vote => (finalizedBudgetVotes P).genuine m.1 vote.received →
    Heard (finalizedBudgetVotes P) r.fbvotes r.tables.budgets m.1 vote.received
  | _ => True

instance (r : BudgetRun) : (m : BudgetEnv × BudgetMessage) → Decidable (HeardMessage P r m)
  | (_,.sprop _) => .isTrue trivial
  | (E,.svote vote) => inferInstanceAs (Decidable (_ → Heard _ _ _ E vote.received))
  | (_,.fbs _) => .isTrue trivial
  | (E,.fbvote vote) => inferInstanceAs (Decidable (_ → Heard _ _ _ E vote.received))

structure Inv (P : Params) (r : BudgetRun) : Prop where
  proposals : TablesInv P (budgetVotes P) r.svotes r.tables.proposals
  budgets : TablesInv P (finalizedBudgetVotes P) r.fbvotes r.tables.budgets

variable {r : BudgetRun}

theorem Inv.proposals_step (hinv : r.Inv P) (E m) (hheard : r.HeardMessage P (E,m)) :
    TablesInv P (budgetVotes P) (r.step P (E,m)).svotes (r.step P (E,m)).tables.proposals := by
  have hproposals := hinv.proposals
  rw [step,BudgetTables.processMessage,apply_ite BudgetTables.proposals]
  cases m with
  | sprop p =>
    have hitem := hproposals.processItem (E := E) (p.getHash P) p
      (isBudgetCollateralValid E p.nFeeTXHash (p.getHash P)).toBool (p.isValid P E ∅ true).toBool
    dsimp only at hitem
    simp only [BudgetMessage.svote?,filter_none,toList_none,append_nil]
    split_ifs with hoff hadded
    · exact hproposals
    · rw [if_pos hadded] at hitem
      exact hitem
    · rw [if_neg hadded] at hitem
      exact hitem
  | svote vote => exact hproposals.receive hheard
  | fbs b =>
    simp only [BudgetMessage.svote?,filter_none,toList_none,append_nil]
    split_ifs
    · exact hproposals
    · exact hproposals.checkOrphanVotes
    · exact hproposals
  | fbvote vote =>
    simp only [BudgetMessage.svote?,filter_none,toList_none,append_nil,ite_self]
    exact hproposals

theorem Inv.budgets_step (hinv : r.Inv P) (E m) (hheard : r.HeardMessage P (E,m)) :
    TablesInv P (finalizedBudgetVotes P) (r.step P (E,m)).fbvotes
      (r.step P (E,m)).tables.budgets := by
  have hbudgets := hinv.budgets
  rw [step,BudgetTables.processMessage,apply_ite BudgetTables.budgets]
  cases m with
  | sprop p =>
    simp only [BudgetMessage.fbvote?,filter_none,toList_none,append_nil]
    split_ifs
    · exact hbudgets
    · exact hbudgets.checkOrphanVotes
    · exact hbudgets
  | svote vote =>
    simp only [BudgetMessage.fbvote?,filter_none,toList_none,append_nil,ite_self]
    exact hbudgets
  | fbs b =>
    have hitem := hbudgets.processItem (E := E) (b.getHash P) b
      (isBudgetCollateralValid E b.nFeeTXHash (b.getHash P)).toBool (b.isValid P E true).toBool
    dsimp only at hitem
    simp only [BudgetMessage.fbvote?,filter_none,toList_none,append_nil]
    split_ifs with hoff hadded
    · exact hbudgets
    · rw [if_pos hadded] at hitem
      exact hitem
    · rw [if_neg hadded] at hitem
      exact hitem
  | fbvote vote => exact hbudgets.receive hheard

theorem Inv.step (hinv : r.Inv P) (m) (hheard : r.HeardMessage P m) : (r.step P m).Inv P :=
  ⟨hinv.proposals_step m.1 m.2 hheard,hinv.budgets_step m.1 m.2 hheard⟩

end BudgetRun

/-- Every known item has the vote of every stormnode that counts, and so the newest one of
each stormnode that keeps to the interval. -/
def VotesKept (P : Params) {I : Type} (K : VoteKind V) (votes : List V) (t : VoteTables I V) :
    Prop :=
  ∀ (h : UInt256) x, t.mapKnown[h]? = some x → (∀ k : UInt256, x.2[k]? = latestVote P K votes h k) ∧
    ∀ vote ∈ votes, K.item vote = h → (∀ w ∈ votes, K.item w = h → K.prevout w = K.prevout vote →
      w = vote ∨ K.nTime w+BUDGET_VOTE_UPDATE_MIN ≤ K.nTime vote) → x.2[voteKey P (K.prevout vote)]? = some vote

def KeysApart (P : Params) (K : VoteKind V) (votes : List V) : Prop :=
  ∀ vote ∈ votes, ∀ w ∈ votes, voteKey P (K.prevout w) = voteKey P (K.prevout vote) → K.prevout w = K.prevout vote

instance (K : VoteKind V) (votes : List V) : Decidable (KeysApart P K votes) :=
  inferInstanceAs (Decidable (∀ vote ∈ votes, ∀ w ∈ votes, _ → _))

theorem TablesInv.votesKept
    (hinv : TablesInv P K votes t) (hkeys : KeysApart P K votes) : VotesKept P K votes t := by
  intro h x hx
  refine ⟨hinv.known h x hx,fun vote hmem hitem hnew => ?_⟩
  rw [hinv.known h x hx]
  apply latestVote_of_newest hmem
  · simp [votesFor,hitem]
  · intro w hw hv
    rw [votesFor,Bool.and_eq_true,decide_eq_true_eq,decide_eq_true_eq] at hv
    exact hnew w hw hv.1 (hkeys vote hmem w hw hv.2)

/-- From tables that are in order, and as long as every genuine vote comes to a node that can
take it, no vote is lost. -/
theorem budget_votes_kept (t : BudgetTables) (hproposals : t.proposals.Keyed P (budgetVotes P))
    (hbudgets : t.budgets.Keyed P (finalizedBudgetVotes P)) (l : List (BudgetEnv × BudgetMessage))
    (hheard : Always (BudgetRun.step P) (BudgetRun.HeardMessage P) (.start t) l)
    (hsvotes : KeysApart P (budgetVotes P) (l.foldl (BudgetRun.step P) (.start t)).svotes)
    (hfbvotes : KeysApart P (finalizedBudgetVotes P)
      (l.foldl (BudgetRun.step P) (.start t)).fbvotes) :
    let r := l.foldl (BudgetRun.step P) (.start t)
    VotesKept P (budgetVotes P) r.svotes r.tables.proposals ∧
      VotesKept P (finalizedBudgetVotes P) r.fbvotes r.tables.budgets := by
  have hstart : (BudgetRun.start t).Inv P := ⟨hproposals.tablesInv,hbudgets.tablesInv⟩
  have hinv : (l.foldl (BudgetRun.step P) (.start t)).Inv P :=
    Always.invariant (fun r m hr hm => BudgetRun.Inv.step hr m hm) hstart hheard
  exact ⟨hinv.proposals.votesKept hsvotes,hinv.budgets.votesKept hfbvotes⟩

theorem keyed_of_forall (htime : ∀ vote ∈ t.held, 0 ≤ K.nTime vote)
    (hknown : ∀ e ∈ t.mapKnown.toList, ∀ e' ∈ e.2.2.toList, votesFor P K e.1 e'.1 e'.2)
    (horphan : ∀ e ∈ t.mapOrphanVotes.toList, K.item e.2 = e.1 ∧ t.mapKnown[e.1]?.isNone) :
    t.Keyed P K where
  time := htime
  known := fun h x hx k vote hvote => hknown (h,x) (ExtTreeMap.mem_toList_iff_getElem?_eq_some.mpr hx) (k,vote)
    (ExtTreeMap.mem_toList_iff_getElem?_eq_some.mpr hvote)
  item := fun h vote hvote => (horphan (h,vote) (ExtTreeMap.mem_toList_iff_getElem?_eq_some.mpr hvote)).1
  waits := fun h vote hvote =>
    isNone_iff_eq_none.mp (horphan (h,vote) (ExtTreeMap.mem_toList_iff_getElem?_eq_some.mpr hvote)).2

/-! A finalized budget of the main net in the cache file of a node, with a vote of one stormnode,
and votes for it of others. -/
namespace Sample

def budgetBase : BudgetEnv where
  fLiteMode := false
  isBlockchainSynced := true
  isSynced := true
  nTime := 10000
  find := fun _ => some [7]
  verifyMessage := fun _ vchSig _ => vchSig = [1]
  countEnabled := 20
  nBestHeight := none
  mainHeight := fun _ => none
  getTransaction := fun _ => none
  getIXConfirmations := fun _ => 0

def budgetEnvAt (nTime : ℤ) : BudgetEnv :=
  BudgetEnv.on params { budgetBase with nTime := nTime } blockFiles .empty onA₁ .empty 10

def finalBudget : CFinalizedBudgetBroadcast := ⟨[0x6d],41091,[⟨3,opTrue,100⟩],9⟩

def budgetVoter (n : UInt32) : CTxIn := ⟨⟨5,n⟩,[],0xFFFFFFFF⟩

def fileVotes : HashMap CFinalizedBudgetVote :=
  (∅ : HashMap CFinalizedBudgetVote).insert (voteKey params (budgetVoter 3).prevout)
    ⟨true,false,budgetVoter 3,finalBudget.getHash params,9000,[1]⟩

def budgetFile : List UInt8 :=
  BudgetCache.CBudgetDB.write params #v[1,2,3,4] ⟨∅,(∅ : HashMap BudgetCache.CFinalizedBudget).insert
    (finalBudget.getHash params) ⟨false,true,[0x6d],41091,[⟨3,opTrue,100⟩],fileVotes,9,0⟩,∅,∅,∅,∅,∅,∅⟩

def fileTables : BudgetTables :=
  ((BudgetCache.CBudgetDB.read params #v[1,2,3,4] budgetFile).toOption.map fun M => M.clearSeen.tables).getD .empty

def budgetVote (n : UInt32) (nTime : Int64) (vchSig : List UInt8) : CFinalizedBudgetVote :=
  ⟨true,false,budgetVoter n,finalBudget.getHash params,nTime,vchSig⟩

def fbvote (n : UInt32) (vchSig : List UInt8) : BudgetEnv × BudgetMessage :=
  (budgetEnvAt 10000,.fbvote (budgetVote n 10000 vchSig))

def voteAfter (n : UInt32) (l : List (BudgetEnv × BudgetMessage)) : Option CFinalizedBudgetVote :=
  ((l.foldl (BudgetTables.processMessage params) fileTables).budgets.mapKnown[finalBudget.getHash params]?).bind
    fun x => x.2[voteKey params (budgetVoter n).prevout]?

end Sample

open Sample

/-- Votes of two stormnodes beside the one from the file, and one that somebody made up. -/
theorem budget_votes_kept_three :
    ∃ x, ([fbvote 0 [1],fbvote 2 [0],fbvote 1 [1]].foldl (BudgetRun.step params)
        (.start fileTables)).tables.budgets.mapKnown[finalBudget.getHash params]? = some x ∧
      x.2[voteKey params (budgetVoter 0).prevout]? = some (budgetVote 0 10000 [1]) ∧
      x.2[voteKey params (budgetVoter 3).prevout]? = some (budgetVote 3 9000 [1]) := by
  have hkept := (budget_votes_kept (P := params) fileTables
    (keyed_of_forall (by decide +kernel) (by decide +kernel) (by decide +kernel))
    (keyed_of_forall (by decide +kernel) (by decide +kernel) (by decide +kernel)) [fbvote 0 [1],fbvote 2 [0],fbvote 1 [1]]
    (by decide +kernel) (by decide +kernel) (by decide +kernel)).2
  obtain ⟨x,hx⟩ := isSome_iff_exists.mp (by decide +kernel : ([fbvote 0 [1],fbvote 2 [0],fbvote 1 [1]].foldl
    (BudgetRun.step params) (.start fileTables)).tables.budgets.mapKnown[finalBudget.getHash params]?.isSome)
  exact ⟨x,hx,(hkept _ x hx).2 (budgetVote 0 10000 [1]) (by decide +kernel) rfl (by decide +kernel),
    (hkept _ x hx).2 (budgetVote 3 9000 [1]) (by decide +kernel) rfl (by decide +kernel)⟩

/-- A vote that somebody else made up takes the place of the one of the stormnode; a vote that comes
too early is not taken later; and no vote follows one from the beginning of time. -/
theorem budget_votes_lost : voteAfter 0 [fbvote 0 [1]] = some (budgetVote 0 10000 [1]) ∧
      voteAfter 0 [fbvote 0 [0],fbvote 0 [1]] = none ∧
      (finalizedBudgetVotes params).genuine (budgetEnvAt 10000) (budgetVote 0 10000 [1]) ∧
      (finalizedBudgetVotes params).genuine (budgetEnvAt 10000) (budgetVote 0 10000 [0]) = false ∧
      voteAfter 0 [(budgetEnvAt 20000,.fbvote (budgetVote 0 14000 [1]))] =
        some (budgetVote 0 14000 [1]) ∧
      voteAfter 0 [(budgetEnvAt 10000,.fbvote (budgetVote 0 14000 [1])),
        (budgetEnvAt 20000,.fbvote (budgetVote 0 14000 [1]))] = none ∧
      voteAfter 0 [(budgetEnvAt 10000,.fbvote (budgetVote 0 (-2^63) [1])),fbvote 0 [1]] =
        some (budgetVote 0 (-2^63) [1]) := by
  decide +kernel

end DarkSilk
