import Mathlib.Tactic

namespace Coverage

-- Intervals are (offset, length) pairs.
def Covers (ivs : List (Nat × Nat)) (n : Nat) : Prop :=
  ∀ i < n, ∃ iv ∈ ivs, iv.1 ≤ i ∧ i < iv.1 + iv.2

variable {ivs : List (Nat × Nat)} {n : Nat}

theorem covers_zero : Covers ivs 0 := fun _ h => absurd h (Nat.not_lt_zero _)

theorem Covers.cons (iv : Nat × Nat) (h : Covers ivs n) : Covers (iv :: ivs) n := by
  intro i hi
  obtain ⟨jv, hj, hbound⟩ := h i hi
  exact ⟨jv, List.mem_cons_of_mem _ hj, hbound⟩

theorem Covers.extend {off len m : Nat} (h : Covers ivs n) (hoff : off ≤ n) (hm : m ≤ off + len) :
    Covers ((off,len) :: ivs) (max n m) := by
  intro i hi
  by_cases hin : i < n
  · exact h.cons _ i hin
  · exact ⟨(off,len), List.mem_cons_self, by omega, by omega⟩

theorem not_covers {i : Nat} (hi : i < n) (h : ∀ iv ∈ ivs, i < iv.1 ∨ iv.1 + iv.2 ≤ i) :
    ¬Covers ivs n := by
  intro hc
  obtain ⟨iv, hmem, hbound⟩ := hc i hi
  have := h iv hmem
  omega

end Coverage
