import Mathlib

/-! Sums over the entries of an ordered map. Inserting or erasing one key changes the
sum by that entry alone. -/
namespace DarkSilk

open Std List
namespace MapSum

variable {K V M : Type*} {cmp : K → K → Ordering} [Std.TransCmp cmp] [Std.LawfulEqCmp cmp]
variable {m : ExtTreeMap K V cmp} {k : K} {v : V}

theorem nodup_toList (m : ExtTreeMap K V cmp) : m.toList.Nodup := by
  refine m.distinct_keys_toList.imp fun {a b} hab heq => hab ?_
  rw [heq]
  exact Std.ReflCmp.compare_self

theorem nodup_keys (m : ExtTreeMap K V cmp) : (m.toList.map Prod.fst).Nodup := by
  refine pairwise_map.mpr (m.distinct_keys_toList.imp fun {a b} hab heq => hab ?_)
  rw [heq]
  exact Std.ReflCmp.compare_self

theorem toList_insert_perm (m : ExtTreeMap K V cmp) (k : K) (v : V) :
    (m.insert k v).toList.Perm ((k,v)::(m.erase k).toList) := by
  have hnot : (k,v) ∉ (m.erase k).toList := by
    rw [ExtTreeMap.mem_toList_iff_getElem?_eq_some]
    simp
  rw [perm_ext_iff_of_nodup (nodup_toList _) (nodup_cons.mpr ⟨hnot,nodup_toList _⟩)]
  rintro ⟨k',v'⟩
  rw [mem_cons,ExtTreeMap.mem_toList_iff_getElem?_eq_some,ExtTreeMap.mem_toList_iff_getElem?_eq_some,
    ExtTreeMap.getElem?_insert,ExtTreeMap.getElem?_erase,Prod.mk.injEq]
  by_cases hk : cmp k k' = .eq
  · obtain rfl := Std.LawfulEqCmp.eq_of_compare hk
    simp [eq_comm (a := v')]
  · have hne : k' ≠ k := fun h => hk (h ▸ Std.ReflCmp.compare_self)
    simp [hk,hne]

theorem insert_erase_of_getElem? (h : m[k]? = some v) : (m.erase k).insert k v = m := by
  apply ExtTreeMap.ext_getElem?
  intro k'
  rw [ExtTreeMap.getElem?_insert,ExtTreeMap.getElem?_erase]
  by_cases hk : cmp k k' = .eq
  · obtain rfl := Std.LawfulEqCmp.eq_of_compare hk
    simp [h]
  · simp [hk]

theorem toList_perm_erase (h : m[k]? = some v) : m.toList.Perm ((k,v)::(m.erase k).toList) := by
  have hperm := toList_insert_perm (m.erase k) k v
  have herase : (m.erase k).erase k = m.erase k := by
    apply ExtTreeMap.ext_getElem?
    intro k'
    simp only [ExtTreeMap.getElem?_erase]
    split_ifs <;> rfl
  rwa [insert_erase_of_getElem? h,herase] at hperm

theorem getElem?_modify [DecidableEq K] (m : ExtTreeMap K V cmp) (k j : K) (g : V → V) :
    (m.modify k g)[j]? = if k = j then (m[j]?).map g else m[j]? := by
  rw [ExtTreeMap.getElem?_modify]
  by_cases hk : k = j
  · subst hk
    rw [if_pos Std.ReflCmp.compare_self,if_pos rfl]
  · rw [if_neg fun h => hk (Std.LawfulEqCmp.eq_of_compare h),if_neg hk]

theorem getElem?_erase_eq [DecidableEq K] (m : ExtTreeMap K V cmp) (k j : K) :
    (m.erase k)[j]? = if k = j then none else m[j]? := by
  rw [ExtTreeMap.getElem?_erase]
  exact if_congr Std.LawfulEqCmp.compare_eq_iff_eq rfl rfl

theorem getElem?_insert_eq [DecidableEq K] (m : ExtTreeMap K V cmp) (k j : K) (v : V) :
    (m.insert k v)[j]? = if k = j then some v else m[j]? := by
  rw [ExtTreeMap.getElem?_insert]
  exact if_congr Std.LawfulEqCmp.compare_eq_iff_eq rfl rfl

theorem modify_eq_insert (h : m[k]? = some v) (g : V → V) : m.modify k g = m.insert k (g v) := by
  apply ExtTreeMap.ext_getElem?
  intro k'
  rw [ExtTreeMap.getElem?_modify,ExtTreeMap.getElem?_insert,h,Option.map_some]

variable [AddCommMonoid M]

def entrySum (f : K → V → M) (m : ExtTreeMap K V cmp) : M := (m.toList.map fun e => f e.1 e.2).sum

variable {f : K → V → M}

omit [Std.LawfulEqCmp cmp] in
@[simp] theorem entrySum_empty : entrySum f (∅ : ExtTreeMap K V cmp) = 0 := by
  rw [entrySum,ExtTreeMap.toList_eq_nil_iff.mpr rfl,map_nil,sum_nil]

theorem entrySum_insert (m : ExtTreeMap K V cmp) (k : K) (v : V) :
    entrySum f (m.insert k v) = f k v+entrySum f (m.erase k) := by
  simpa [entrySum] using ((toList_insert_perm m k v).map fun e => f e.1 e.2).sum_eq

theorem entrySum_of_getElem? (h : m[k]? = some v) :
    entrySum f m = f k v+entrySum f (m.erase k) := by
  simpa [entrySum] using ((toList_perm_erase h).map fun e => f e.1 e.2).sum_eq

theorem entrySum_replace (v' : V) (h : m[k]? = some v) :
    entrySum f (m.insert k v')+f k v = entrySum f m+f k v' := by
  rw [entrySum_insert,entrySum_of_getElem? h]
  abel

theorem entrySum_insert_new (h : m[k]? = none) :
    entrySum f (m.insert k v) = f k v+entrySum f m := by
  rw [entrySum_insert]
  congr 2
  apply ExtTreeMap.ext_getElem?
  intro k'
  rw [ExtTreeMap.getElem?_erase]
  by_cases hk : cmp k k' = .eq
  · obtain rfl := Std.LawfulEqCmp.eq_of_compare hk
    simp [h]
  · simp [hk]

theorem entrySum_modify (h : m[k]? = some v) (g : V → V) :
    entrySum f (m.modify k g)+f k v = entrySum f m+f k (g v) := by
  rw [modify_eq_insert h,entrySum_replace (g v) h]

theorem entrySum_congr {W : Type*} {m' : ExtTreeMap K V cmp} {g : V → W} (w : K → W → M)
    (h : ∀ k : K, (m'[k]?).map g = (m[k]?).map g) :
    entrySum (fun k v => w k (g v)) m' = entrySum (fun k v => w k (g v)) m := by
  have hmap : m'.map (fun _ => g) = m.map fun _ => g := by
    apply ExtTreeMap.ext_getElem?
    intro k
    rw [ExtTreeMap.getElem?_map,ExtTreeMap.getElem?_map,h]
  have hlist := congrArg (fun m => (m.toList.map fun e => w e.1 e.2).sum) hmap
  simp only [ExtTreeMap.toList_map,map_map] at hlist
  exact hlist

end MapSum
end DarkSilk
