import Mathlib

/-! Runs of a system that answers a list of inputs one after the other. What every
step preserves a run preserves, and two systems that move in lockstep give the same
answers exactly as long as every single step does. -/
namespace DarkSilk

open List
namespace Runs

variable {S S' M O : Type*}

/-- The answers of a run and the state it ends in. A step without a result stops it. -/
def trace (exec : S → M → Option (O × S)) : S → List M → List O × Option S
  | s, [] => ([],some s)
  | s, m::l =>
    match exec s m with
    | none => ([],none)
    | some (o,t) => (o::(trace exec t l).1,(trace exec t l).2)

/-- As far as the run goes, every input meets a condition in the state that it finds. -/
def Along (exec : S → M → Option (O × S)) (ok : S → M → Prop) : S → List M → Prop
  | _, [] => True
  | s, m::l => ∀ o t, exec s m = some (o,t) → ok s m ∧ Along exec ok t l

/-- `exec'` follows `exec` through an abstraction of the states, and its answer to an
input is the same one exactly under the condition. -/
structure Lockstep (exec : S → M → Option (O × S)) (exec' : S' → M → Option (O × S'))
    (abs : S → S') (ok : S → M → Prop) : Prop where
  stop : ∀ s m, exec s m = none → exec' (abs s) m = none
  go : ∀ s m o t, exec s m = some (o,t) → ∃ o', exec' (abs s) m = some (o',abs t) ∧ (o = o' ↔ ok s m)

variable {exec : S → M → Option (O × S)} {exec' : S' → M → Option (O × S')} {abs : S → S'} {ok : S → M → Prop}

theorem Lockstep.trace_snd (h : Lockstep exec exec' abs ok) (s : S) (l) :
    (trace exec' (abs s) l).2 = (trace exec s l).2.map abs := by
  induction l generalizing s with
  | nil => rfl
  | cons m l ih =>
    cases hx : exec s m with
    | none => simp [trace,hx,h.stop s m hx]
    | some x =>
      obtain ⟨o',ho',-⟩ := h.go s m x.1 x.2 hx
      simp [trace,hx,ho',ih x.2]

theorem Lockstep.trace_fst_eq_iff (h : Lockstep exec exec' abs ok) (s : S) (l) :
    (trace exec s l).1 = (trace exec' (abs s) l).1 ↔ Along exec ok s l := by
  induction l generalizing s with
  | nil => simp [trace,Along]
  | cons m l ih =>
    cases hx : exec s m with
    | none => simp [trace,Along,hx,h.stop s m hx]
    | some x =>
      obtain ⟨o,t⟩ := x
      obtain ⟨o',ho',hok⟩ := h.go s m o t hx
      simp [trace,Along,hx,ho',hok,ih t]

/-- What the steps preserve under the condition holds where a run ends that meets it. -/
theorem Along.invariant {I : S → Prop}
    (hstep : ∀ s m o t, I s → exec s m = some (o,t) → ok s m → I t) {s t l}
    (hs : I s) (h : Along exec ok s l) (ht : (trace exec s l).2 = some t) : I t := by
  induction l generalizing s with
  | nil => exact Option.some.inj ht ▸ hs
  | cons m l ih =>
    cases hx : exec s m with
    | none => simp [trace,hx] at ht
    | some x =>
      obtain ⟨hok,hl⟩ := h x.1 x.2 hx
      exact ih (hstep s m x.1 x.2 hs hx hok) hl (by simpa [trace,hx] using ht)

theorem along_of_forall (h : ∀ s m, ok s m) (s : S) (l) : Along exec ok s l := by
  induction l generalizing s with
  | nil => trivial
  | cons m l ih => exact fun o t _ => ⟨h s m,ih t⟩

variable {step : S → M → S} {s : S} {l : List M}

/-- Every input of a run meets a condition in the state that it finds. -/
def Always (step : S → M → S) (ok : S → M → Prop) : S → List M → Prop
  | _, [] => True
  | s, m::l => ok s m ∧ Always step ok (step s m) l

instance decidableAlways [∀ s m, Decidable (ok s m)] : ∀ s l, Decidable (Always step ok s l)
  | _, [] => .isTrue trivial
  | s, m::l => have :=
  decidableAlways (step s m) l; inferInstanceAs (Decidable (ok s m ∧ Always step ok (step s m) l))

theorem Always.invariant {I : S → Prop} (hstep : ∀ s m, I s → ok s m → I (step s m)) (hs : I s)
    (h : Always step ok s l) : I (l.foldl step s) := by
  induction l generalizing s with
  | nil => exact hs
  | cons m l ih => exact ih (hstep s m hs h.1) h.2

theorem always_concat {m} :
    Always step ok s (l++[m]) ↔ Always step ok s l ∧ ok (l.foldl step s) m := by
  induction l generalizing s with
  | nil => simp [Always]
  | cons a l ih => simp [Always,ih,and_assoc]

theorem always_iff : Always step ok s l ↔ ∀ l₁ m, l₁++[m] <+: l → ok (l₁.foldl step s) m := by
  induction l using reverseRecOn with
  | nil => simp [Always]
  | append_singleton l a ih =>
    rw [always_concat,ih]
    constructor
    · rintro ⟨hl,ha⟩ l₁ m hpre
      rcases prefix_concat_iff.mp hpre with heq | hpre
      · obtain ⟨rfl,hm⟩ := append_inj' heq rfl
        exact singleton_inj.mp hm ▸ ha
      · exact hl l₁ m hpre
    · exact fun h => ⟨fun l₁ m hpre => h l₁ m (hpre.trans (prefix_append l [a])),h l a prefix_rfl⟩

/-- A property that, where an invariant holds, every step keeps exactly under the condition
holds at all points of a run exactly if all steps meet the condition. -/
theorem forall_prefix_iff_always_of_invariant {J I : S → Prop} (hinv : ∀ s m, J s → J (step s m))
    (hstep : ∀ s m, J s → I s → (I (step s m) ↔ ok s m)) (hj : J s) (hs : I s) :
    (∀ l₁, l₁ <+: l → I (l₁.foldl step s)) ↔ Always step ok s l := by
  induction l generalizing s with
  | nil => simpa [Always] using hs
  | cons m l ih =>
    constructor
    · intro h
      have hm : I (step s m) := h [m] (prefix_append [m] l)
      refine ⟨(hstep s m hj hs).mp hm,(ih (hinv s m hj) hm).mp ?_⟩
      intro l₁ hl₁
      exact h (m::l₁) (cons_prefix_cons.mpr ⟨rfl,hl₁⟩)
    · rintro ⟨hm,hl⟩ l₁ hl₁
      rcases prefix_cons_iff.mp hl₁ with rfl | ⟨l₂,rfl,hl₂⟩
      · exact hs
      · exact (ih (hinv s m hj) ((hstep s m hj hs).mpr hm)).mpr hl l₂ hl₂

theorem forall_prefix_iff_always {I : S → Prop} (hstep : ∀ s m, I s → (I (step s m) ↔ ok s m))
    (hs : I s) :
    (∀ l₁, l₁ <+: l → I (l₁.foldl step s)) ↔ Always step ok s l :=
  forall_prefix_iff_always_of_invariant (J := fun _ => True) (fun _ _ h => h) (fun s m _ => hstep s m) trivial hs

end Runs
end DarkSilk
