import Mathlib

/-! Lists of several owners whose elements are found through one map. An element lies at
an address, and the map leads from the key of an element to its owner and its address.
Adding an element, taking one out and dropping a whole list keep the map exact. -/
namespace DarkSilk

open Std List Function
namespace ListIndex

variable {N K α : Type*} {cmp : K → K → Ordering} [Std.TransCmp cmp] [Std.LawfulEqCmp cmp]

def deref (l : List (ℕ × α)) (it : ℕ) : Option α := (l.find? fun e => e.1 = it).map Prod.snd

def eraseAt (l : List (ℕ × α)) (it : ℕ) : List (ℕ × α) := l.filter fun e => e.1 ≠ it

structure Indexed (L : N → List (ℕ × α)) (key : α → K) (m : ExtTreeMap K (N × ℕ) cmp) : Prop where
  nodup : ∀ n, ((L n).map Prod.fst).Nodup
  points : ∀ k n it, m[k]? = some (n,it) ↔ ∃ a, (it,a) ∈ L n ∧ key a = k

variable {L : N → List (ℕ × α)} {key : α → K} {m : ExtTreeMap K (N × ℕ) cmp} {l : List (ℕ × α)} {n : N} {it : ℕ}

theorem eq_of_address (hl : (l.map Prod.fst).Nodup) {a b} (ha : (it,a) ∈ l) (hb : (it,b) ∈ l) :
    a = b :=
  congrArg Prod.snd (inj_on_of_nodup_map hl ha hb rfl)

theorem deref_eq_some (hl : (l.map Prod.fst).Nodup) {a} : deref l it = some a ↔ (it,a) ∈ l := by
  unfold deref
  constructor
  · intro h
    obtain ⟨e,he,rfl⟩ := Option.map_eq_some_iff.mp h
    have hit : e.1 = it := by simpa using find?_some he
    exact hit ▸ mem_of_find?_eq_some he
  · intro h
    cases hf : l.find? fun e => e.1 = it with
    | none => exact absurd (find?_eq_none.mp hf _ h) (by simp)
    | some e =>
      have hit : e.1 = it := by simpa using find?_some hf
      exact congrArg some (eq_of_address hl (hit ▸ mem_of_find?_eq_some hf) h)

theorem mem_eraseAt {e} : e ∈ eraseAt l it ↔ e ∈ l ∧ e.1 ≠ it := by simp [eraseAt]

theorem nodup_eraseAt (hl : (l.map Prod.fst).Nodup) : ((eraseAt l it).map Prod.fst).Nodup :=
  hl.sublist (filter_sublist.map Prod.fst)

theorem perm_eraseAt (hl : (l.map Prod.fst).Nodup) {a} (ha : (it,a) ∈ l) :
    l.Perm ((it,a)::eraseAt l it) := by
  have hnot : (it,a) ∉ eraseAt l it := fun h => (mem_eraseAt.mp h).2 rfl
  rw [perm_ext_iff_of_nodup hl.of_map (nodup_cons.mpr ⟨hnot,(nodup_eraseAt hl).of_map⟩)]
  rintro ⟨it',b⟩
  rw [mem_cons,mem_eraseAt]
  constructor
  · intro hb
    by_cases hit : it' = it
    · subst hit
      exact .inl (congrArg _ (eq_of_address hl hb ha))
    · exact .inr ⟨hb,hit⟩
  · rintro (h | h)
    · exact h ▸ ha
    · exact h.1

omit [Std.LawfulEqCmp cmp] in
theorem Indexed.unique (h : Indexed L key m) {n' e e'} (he : e ∈ L n) (he' : e' ∈ L n')
    (hk : key e.2 = key e'.2) : n = n' ∧ e = e' := by
  have h1 := (h.points (key e.2) n e.1).mpr ⟨e.2,he,rfl⟩
  have h2 := (h.points (key e.2) n' e'.1).mpr ⟨e'.2,he',hk.symm⟩
  rw [h1,Option.some.injEq,Prod.mk.injEq] at h2
  obtain ⟨rfl,hit⟩ := h2
  exact ⟨rfl,inj_on_of_nodup_map (h.nodup n) he he' hit⟩

omit [Std.LawfulEqCmp cmp] in
theorem Indexed.nodup_keys (h : Indexed L key m) (n : N) : ((L n).map fun e => key e.2).Nodup :=
  Nodup.map_on (fun _ he _ he' hk => (h.unique he he' hk).2) (h.nodup n).of_map

theorem getElem?_foldl_erase (l : List (ℕ × α)) (m : ExtTreeMap K (N × ℕ) cmp) (k : K) {x} :
    (l.foldl (fun m e => m.erase (key e.2)) m)[k]? = some x ↔
      m[k]? = some x ∧ ∀ e ∈ l, key e.2 ≠ k := by
  induction l generalizing m with
  | nil => simp
  | cons e l ih =>
    rw [foldl_cons,ih,ExtTreeMap.getElem?_erase,forall_mem_cons]
    by_cases hk : cmp (key e.2) k = .eq
    · simp [Std.LawfulEqCmp.eq_of_compare hk]
    · have hne : key e.2 ≠ k := fun heq => hk (heq ▸ Std.ReflCmp.compare_self)
      simp [hk,hne]

variable [DecidableEq N]

theorem Indexed.push (h : Indexed L key m) (n : N) (it) (a : α) (hk : m[key a]? = none)
    (hit : ∀ e ∈ L n, e.1 ≠ it) :
    Indexed (update L n (L n++[(it,a)])) key (m.insert (key a) (n,it)) := by
  constructor
  · intro n'
    by_cases hn : n' = n
    · subst hn
      rw [update_self,map_append,map_singleton,nodup_append]
      refine ⟨h.nodup n',nodup_singleton it,?_⟩
      intro x hx y hy
      obtain ⟨e,he,rfl⟩ := mem_map.mp hx
      exact mem_singleton.mp hy ▸ hit e he
    · rw [update_of_ne hn]
      exact h.nodup n'
  · intro k n' it'
    rw [ExtTreeMap.getElem?_insert]
    by_cases hkey : key a = k
    · subst hkey
      rw [if_pos Std.ReflCmp.compare_self,Option.some.injEq,Prod.mk.injEq]
      have hold : ∀ (n₁ : N) (it₁ : ℕ) (b : α), (it₁,b) ∈ L n₁ → key b ≠ key a := by
        intro n₁ it₁ b hb heq
        have := (h.points (key a) n₁ it₁).mpr ⟨b,hb,heq⟩
        rw [hk] at this
        contradiction
      constructor
      · rintro ⟨rfl,rfl⟩
        exact ⟨a,by simp,rfl⟩
      · rintro ⟨b,hb,hba⟩
        by_cases hn : n' = n
        · subst hn
          rw [update_self,mem_append,mem_singleton,Prod.mk.injEq] at hb
          rcases hb with hb | hb
          · exact absurd hba (hold _ _ _ hb)
          · exact ⟨rfl,hb.1.symm⟩
        · rw [update_of_ne hn] at hb
          exact absurd hba (hold _ _ _ hb)
    · have hcmp : cmp (key a) k ≠ .eq := fun hc => hkey (Std.LawfulEqCmp.eq_of_compare hc)
      rw [if_neg hcmp,h.points]
      refine exists_congr fun b => and_congr_left fun hb => ?_
      by_cases hn : n' = n
      · subst hn
        have hne : b ≠ a := fun hba => hkey (hba ▸ hb)
        simp [hne]
      · rw [update_of_ne hn]

theorem Indexed.drop (h : Indexed L key m) {k} (hk : m[k]? = some (n,it)) :
    Indexed (update L n (eraseAt (L n) it)) key (m.erase k) := by
  obtain ⟨a,ha,hka⟩ := (h.points k n it).mp hk
  constructor
  · intro n'
    by_cases hn : n' = n
    · subst hn
      rw [update_self]
      exact nodup_eraseAt (h.nodup n')
    · rw [update_of_ne hn]
      exact h.nodup n'
  · intro k' n' it'
    rw [ExtTreeMap.getElem?_erase]
    -- an entry survives exactly if it is not the one that is taken out
    have hsurvives : ∀ b, (it',b) ∈ update L n (eraseAt (L n) it) n' ↔ (it',b) ∈ L n' ∧ key b ≠ k := by
      intro b
      by_cases hn : n' = n
      · subst hn
        rw [update_self,mem_eraseAt]
        refine and_congr_right fun hb => not_congr ?_
        constructor
        · rintro rfl
          rw [eq_of_address (h.nodup n') hb ha,hka]
        · intro hkb
          exact congrArg Prod.fst (h.unique hb ha (hkb.trans hka.symm)).2
      · rw [update_of_ne hn]
        refine ⟨fun hb => ⟨hb,fun hkb => hn (h.unique hb ha (hkb.trans hka.symm)).1⟩,And.left⟩
    by_cases hkk : cmp k k' = .eq
    · obtain rfl := Std.LawfulEqCmp.eq_of_compare hkk
      rw [if_pos hkk]
      simp only [hsurvives,reduceCtorEq,false_iff,not_exists,not_and]
      exact fun b hb hkb => hb.2 hkb
    · rw [if_neg hkk,h.points]
      refine exists_congr fun b => ?_
      rw [hsurvives]
      have hne : key b = k' → key b ≠ k := by
        rintro rfl rfl
        exact hkk Std.ReflCmp.compare_self
      tauto

theorem Indexed.clear (h : Indexed L key m) (n : N) :
    Indexed (update L n []) key ((L n).foldl (fun m e => m.erase (key e.2)) m) := by
  constructor
  · intro n'
    by_cases hn : n' = n
    · subst hn
      simp
    · rw [update_of_ne hn]
      exact h.nodup n'
  · intro k n' it
    rw [getElem?_foldl_erase,h.points]
    by_cases hn : n' = n
    · subst hn
      rw [update_self]
      constructor
      · rintro ⟨⟨a,ha,hk⟩,hno⟩
        exact absurd hk (hno _ ha)
      · rintro ⟨a,ha,-⟩
        exact absurd ha not_mem_nil
    · rw [update_of_ne hn]
      refine ⟨And.left,fun hk => ⟨hk,?_⟩⟩
      obtain ⟨a,ha,hka⟩ := hk
      exact fun e he heq => hn (h.unique ha he (hka.trans heq.symm)).1

end ListIndex
end DarkSilk
