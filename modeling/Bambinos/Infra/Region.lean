import Mathlib.Logic.Function.Basic

/-!
# Regions of an address space that wraps around

Addresses are numbers below `W`, and what is behind the last one is the first one.

* `Inside` — a region lies in the first `size` bytes
* `inside_iff` — that is, it ends before `size` does
* `memcpy` — bytes are copied one after the other
* `memcpy_at`, `memcpy_outside` — what is there afterwards
-/

namespace Infra

variable {β : Type*} {W size start count : Nat}

/-- The `count` bytes from `start` on are among the first `size`. -/
def Inside (W size start count : Nat) : Prop := ∀ k < count, (start + k) % W < size

theorem inside_iff (hstart : start < W) (hsize : size < W) :
    Inside W size start count ↔ count = 0 ∨ start + count ≤ size := by
  constructor
  · intro h
    by_contra hno
    obtain ⟨hpos, hgt⟩ : count ≠ 0 ∧ size < start + count := by omega
    -- either the first byte is outside, or the one at `size`
    by_cases hle : size ≤ start
    · have h₀ := h 0 (by omega)
      rw [Nat.add_zero, Nat.mod_eq_of_lt hstart] at h₀
      omega
    · have hk := h (size - start) (by omega)
      rw [Nat.add_sub_of_le (by omega), Nat.mod_eq_of_lt hsize] at hk
      omega
  · rintro (rfl | hle) k hk
    · exact absurd hk (Nat.not_lt_zero k)
    · rw [Nat.mod_eq_of_lt (by omega)]
      omega

/-- `count` bytes from `src` on are copied to `dst`. -/
def memcpy (W : Nat) (bytes : Nat → β) : Nat → Nat → Nat → (Nat → β) → Nat → β
  | _, _, 0, mem => mem
  | dst, src, count + 1, mem =>
    memcpy W bytes ((dst + 1) % W) ((src + 1) % W) count (Function.update mem dst (bytes src))

/-- What is not written stays. -/
theorem memcpy_outside {bytes : Nat → β} {o : Nat} : ∀ {count dst src : Nat} {mem : Nat → β},
    dst + count ≤ W → (o < dst ∨ dst + count ≤ o) → memcpy W bytes dst src count mem o = mem o
  | 0, _, _, _, _, _ => rfl
  | count + 1, dst, src, mem, hW, ho => by
    have hne : o ≠ dst := by omega
    rw [memcpy]
    by_cases hlast : count = 0
    · rw [hlast, memcpy, Function.update_of_ne hne]
    · rw [Nat.mod_eq_of_lt (show dst + 1 < W by omega),
        memcpy_outside (by omega) (by omega), Function.update_of_ne hne]

theorem memcpy_at {bytes : Nat → β} {k : Nat} : ∀ {count dst src : Nat} {mem : Nat → β},
    dst + count ≤ W → src + count ≤ W → k < count →
      memcpy W bytes dst src count mem (dst + k) = bytes (src + k)
  | 0, _, _, _, _, _, hk => absurd hk (Nat.not_lt_zero k)
  | count + 1, dst, src, mem, hdst, hsrc, hk => by
    rw [memcpy]
    by_cases hlast : count = 0
    · have hk₀ : k = 0 := by omega
      rw [hlast, hk₀, memcpy, Nat.add_zero, Nat.add_zero, Function.update_self]
    · rw [Nat.mod_eq_of_lt (show dst + 1 < W by omega), Nat.mod_eq_of_lt (show src + 1 < W by omega)]
      cases k with
      | zero =>
        have h : memcpy W bytes (dst + 1) (src + 1) count (Function.update mem dst (bytes src)) dst =
            Function.update mem dst (bytes src) dst :=
          memcpy_outside (by omega) (.inl (Nat.lt_succ_self dst))
        rwa [Function.update_self] at h
      | succ k =>
        have h : memcpy W bytes (dst + 1) (src + 1) count (Function.update mem dst (bytes src))
            (dst + 1 + k) = bytes (src + 1 + k) :=
          memcpy_at (by omega) (by omega) (show k < count by omega)
        rwa [Nat.add_right_comm, Nat.add_right_comm src] at h

end Infra
