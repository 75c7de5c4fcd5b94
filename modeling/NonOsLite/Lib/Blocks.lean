import Mathlib.Tactic

namespace Blocks

variable {α : Type*}

def block (b : Nat) (l : List α) (k : Nat) : List α := (l.drop (k * b)).take b

def count (b : Nat) (l : List α) : Nat := l.length / b + 1

variable {b k m : Nat} {l : List α}

theorem block_length : (block b l k).length = min b (l.length - k * b) := by
  simp [block]

theorem start_le (h : k < count b l) : k * b ≤ l.length :=
  Nat.le_trans (Nat.mul_le_mul_right b (Nat.le_of_lt_succ h)) (Nat.div_mul_le_self _ _)

theorem block_end (h : k < count b l) :
    k * b + (block b l k).length = min ((k + 1) * b) l.length := by
  have hstart := start_le h
  rw [block_length, Nat.succ_mul]
  omega

theorem count_mul_gt (hb : 0 < b) : l.length < count b l * b := by
  rw [count, Nat.mul_comm]
  exact Nat.lt_mul_div_succ _ hb

theorem block_short_iff (hb : 0 < b) (h : k < count b l) :
    (block b l k).length < b ↔ k + 1 = count b l := by
  have hend := block_end h
  rw [Nat.succ_mul] at hend
  constructor
  · intro hlt
    by_contra hne
    have hnext := start_le (b := b) (l := l) (k := k + 1) (by omega)
    rw [Nat.succ_mul] at hnext
    omega
  · intro hlast
    have hgt := count_mul_gt (l := l) hb
    rw [← hlast, Nat.succ_mul] at hgt
    omega

theorem block_getD {i : Nat} (d : α) (h : i < (block b l k).length) :
    (block b l k).getD i d = l.getD (k * b + i) d := by
  have hlen := h
  rw [block_length] at hlen
  simp [block, List.getD_eq_getElem?_getD, show i < b by omega]

end Blocks
