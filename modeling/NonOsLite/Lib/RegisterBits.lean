import Mathlib.Tactic

-- Single bits of a register word.
namespace RegisterBits

variable {w i : Nat} {x : BitVec w}

theorem getLsbD_bit (h : i < w) (j : Nat) : (1#w <<< j).getLsbD i = (j == i) := by
  rw [← BitVec.twoPow_eq, BitVec.getLsbD_twoPow]
  by_cases hj : j = i
  · simp [hj, h]
  · simp [hj]

theorem getLsbD_set (h : i < w) (j : Nat) :
    (x ||| 1#w <<< j).getLsbD i = (x.getLsbD i || j == i) := by
  rw [BitVec.getLsbD_or, getLsbD_bit h]

theorem getLsbD_clear (h : i < w) (j : Nat) :
    (x &&& ~~~(1#w <<< j)).getLsbD i = (x.getLsbD i && !(j == i)) := by
  rw [BitVec.getLsbD_and, BitVec.getLsbD_not, getLsbD_bit h]
  simp [h]

theorem and_bit_ne_zero (h : i < w) : x &&& 1#w <<< i ≠ 0 ↔ x.getLsbD i = true := by
  rw [← BitVec.twoPow_eq, BitVec.and_twoPow]
  split_ifs with hset
  · refine iff_of_true ?_ hset
    intro hzero
    have hbit : (BitVec.twoPow w i).getLsbD i = true := by
      rw [BitVec.twoPow_eq, getLsbD_bit h]
      exact beq_self_eq_true i
    rw [hzero] at hbit
    exact absurd hbit (by simp)
  · exact iff_of_false (fun h => h rfl) hset

end RegisterBits
