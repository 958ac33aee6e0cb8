import Mathlib

/-! Computations that read bytes of a buffer, with a record of the ranges that they read.
A read beyond the end of the buffer goes on with whatever is in memory there. -/
namespace DarkSilk

open List
namespace ByteReads

structure Logged (α : Type) where
  log : List (ℕ × ℕ)
  value : α

instance : Monad Logged where
  pure a := ⟨[],a⟩
  bind x f := ⟨x.log++(f x.value).log,(f x.value).value⟩

/-- The memory from the first byte of a buffer on, and the size of the buffer. -/
structure Buffer where
  bytes : ℕ → UInt8
  size : ℕ

def Buffer.slice (v : Buffer) (offset len : ℕ) : List UInt8 :=
  (List.range len).map fun i => v.bytes (offset+i)

def Buffer.read (v : Buffer) (offset len : ℕ) : Logged (List UInt8) :=
  ⟨[(offset,len)],v.slice offset len⟩

def Within {α : Type} (n : ℕ) (x : Logged α) : Prop := ∀ r ∈ x.log, ∀ i < r.2, r.1+i < n

instance {α : Type} (n : ℕ) (x : Logged α) : Decidable (Within n x) :=
  inferInstanceAs (Decidable (∀ r ∈ x.log, ∀ i < r.2, r.1+i < n))

variable {α β : Type} {n : ℕ} {x : Logged α} {f : α → Logged β} {v : Buffer}

@[simp] theorem value_pure (a : α) : (pure a : Logged α).value = a := rfl
@[simp] theorem value_bind (x) (f : α → Logged β) : (x >>= f).value = (f x.value).value := rfl
@[simp] theorem value_read (v : Buffer) (offset len) :
    (v.read offset len).value = v.slice offset len :=
  rfl

theorem value_ite {c : Prop} [Decidable c] (x y : Logged α) :
    (if c then x else y).value = if c then x.value else y.value := apply_ite _ _ _ _

@[simp] theorem within_pure (n) (a : α) : Within n (pure a : Logged α) := by
  intro r hr
  exact absurd hr not_mem_nil

@[simp] theorem within_bind : Within n (x >>= f) ↔ Within n x ∧ Within n (f x.value) := by
  constructor
  · intro h
    exact ⟨fun r hr => h r (mem_append_left _ hr),fun r hr => h r (mem_append_right _ hr)⟩
  · rintro ⟨hx,hf⟩ r hr
    rcases mem_append.mp hr with hr | hr
    · exact hx r hr
    · exact hf r hr

theorem within_range {offset len : ℕ} {a : α} :
    Within n ⟨[(offset,len)],a⟩ ↔ len = 0 ∨ offset+len ≤ n := by
  constructor
  · intro h
    by_contra hc
    have hlast := h (offset,len) (mem_singleton.mpr rfl) (len-1) (by dsimp only; omega)
    omega
  · intro h r hr i hi
    obtain rfl := mem_singleton.mp hr
    omega

theorem within_read {offset len : ℕ} : Within n (v.read offset len) ↔ len = 0 ∨ offset+len ≤ n :=
  within_range

theorem within_ite {c : Prop} [Decidable c] {y} :
    Within n (if c then x else y) ↔ (c → Within n x) ∧ (¬ c → Within n y) := by
  split_ifs with h <;> simp [h]

end ByteReads
end DarkSilk
