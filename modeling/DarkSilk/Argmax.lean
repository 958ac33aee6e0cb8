import Mathlib

/-! A search that replaces the best entry so far only by a strictly better one ends with
the first of the best entries. -/
namespace DarkSilk

open List
namespace Argmax

variable {α β : Type*} {p : α → Bool} {score : α → ℤ} {l : List α} {a b : α}

/-- The first of the eligible entries with the highest score. -/
structure Winner (p : α → Bool) (score : α → ℤ) (l : List α) (a : α) : Prop where
  eligible : p a = true
  split : ∃ l₁ l₂, l = l₁++a::l₂ ∧ (∀ b ∈ l₁, p b → score b < score a) ∧ ∀ b ∈ l₂, p b → score b ≤ score a

namespace Winner

theorem mem (h : Winner p score l a) : a ∈ l := by
  obtain ⟨l₁,l₂,rfl,-⟩ := h.split
  simp

theorem le (h : Winner p score l a) (hb : b ∈ l) (hp : p b) : score b ≤ score a := by
  obtain ⟨l₁,l₂,rfl,h1,h2⟩ := h.split
  rcases mem_append.mp hb with hb | hb
  · exact (h1 b hb hp).le
  · cases hb with
    | head => exact le_rfl
    | tail _ hb => exact h2 b hb hp

theorem concat (h : Winner p score l a) (hb : p b → score b ≤ score a) :
    Winner p score (l++[b]) a := by
  obtain ⟨l₁,l₂,rfl,h1,h2⟩ := h.split
  refine ⟨h.eligible,l₁,l₂++[b],by simp,h1,fun c hc hp => ?_⟩
  rcases mem_append.mp hc with hc | hc
  · exact h2 c hc hp
  · rw [mem_singleton.mp hc] at hp ⊢
    exact hb hp

theorem last (hp : p b) (h : ∀ c ∈ l, p c → score c < score b) : Winner p score (l++[b]) b :=
  ⟨hp,l,[],rfl,h,by simp⟩

theorem unique (ha : Winner p score l a) (hb : Winner p score l b) : a = b := by
  obtain ⟨l₁,l₂,rfl,h1,h2⟩ := ha.split
  obtain ⟨m₁,m₂,heq,k₁,k₂⟩ := hb.split
  rcases append_eq_append_iff.mp heq with ⟨l',rfl,h⟩ | ⟨l',rfl,h⟩
  · cases l' with
    | nil => exact (cons.inj h).1
    | cons c l' =>
      cases h
      exact absurd (k₁ a (by simp) ha.eligible) (h2 b (by simp) hb.eligible).not_gt
  · cases l' with
    | nil => exact (cons.inj h).1.symm
    | cons c l' =>
      cases h
      exact absurd (h1 b (by simp) hb.eligible) (k₂ a (by simp) ha.eligible).not_gt

end Winner

/-- The search keeps its first value if nothing eligible is better, and otherwise it
ends with the winner. `key` reads the score of the value kept. -/
theorem foldl_cases (p : α → Bool) (score : α → ℤ) {f} (key : β → ℤ) (pick : α → β)
    (hkey : ∀ a, key (pick a) = score a)
    (hf : ∀ x a, f x a = if p a && key x < score a then pick a else x) (x : β) (l) :
    (l.foldl f x = x ∧ ∀ a ∈ l, p a → score a ≤ key x) ∨
      ∃ a, Winner p score l a ∧ key x < score a ∧ l.foldl f x = pick a := by
  induction l using reverseRecOn with
  | nil => exact .inl ⟨rfl,by simp⟩
  | append_singleton l b ih =>
    rw [foldl_append,foldl_cons,foldl_nil,hf]
    rcases ih with ⟨heq,hle⟩ | ⟨a,hwin,hlt,heq⟩ <;> rw [heq]
    · by_cases hb : p b && key x < score b
      · rw [if_pos hb]
        rw [Bool.and_eq_true,decide_eq_true_eq] at hb
        exact .inr ⟨b,.last hb.1 fun c hc hp => (hle c hc hp).trans_lt hb.2,hb.2,rfl⟩
      · rw [if_neg hb]
        refine .inl ⟨rfl,fun c hc hp => ?_⟩
        rcases mem_append.mp hc with hc | hc
        · exact hle c hc hp
        · rw [mem_singleton.mp hc] at hp ⊢
          simpa [hp] using hb
    · rw [hkey]
      by_cases hb : p b && score a < score b
      · rw [if_pos hb]
        rw [Bool.and_eq_true,decide_eq_true_eq] at hb
        exact .inr ⟨b,.last hb.1 fun c hc hp => (hwin.le hc hp).trans_lt hb.2,hlt.trans hb.2,rfl⟩
      · rw [if_neg hb]
        exact .inr ⟨a,hwin.concat fun hp => by simpa [hp] using hb,hlt,rfl⟩

end Argmax
end DarkSilk
