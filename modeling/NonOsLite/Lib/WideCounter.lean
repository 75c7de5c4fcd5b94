import Mathlib.Tactic

namespace WideCounter

-- A counter modulo m widened by the number of times a reading fell below the one before.
structure State where
  high : Nat
  low : Nat

def value (m : Nat) (s : State) : Nat := s.high * m + s.low

def sample (s : State) (now : Nat) : State where
  high := if now < s.low then s.high + 1 else s.high
  low := now

def Gaps (m : Nat) : Nat → List Nat → Prop
  | _, [] => True
  | t, u :: us => t ≤ u ∧ u - t < m ∧ Gaps m u us

instance decidableGaps (m : Nat) : (t : Nat) → (us : List Nat) → Decidable (Gaps m t us)
  | _, [] => inferInstanceAs (Decidable True)
  | t, u :: us =>
    have := decidableGaps m u us
    inferInstanceAs (Decidable (t ≤ u ∧ u - t < m ∧ Gaps m u us))

variable {m t u : Nat} {s : State}

theorem value_sample (hm : 0 < m) (hs : s.low < m) (hv : value m s = t) (hle : t ≤ u)
    (hgap : u - t < m) : value m (sample s (u % m)) = u := by
  have hdiv := Nat.div_add_mod' u m
  have hlow := Nat.mod_lt u hm
  have hnext : (s.high + 1) * m = s.high * m + m := Nat.succ_mul _ _
  have hlast : (s.high + 1 + 1) * m = s.high * m + m + m := by rw [Nat.succ_mul, hnext]
  simp only [value] at hv
  simp only [value, sample]
  rcases Nat.lt_or_ge u ((s.high + 1) * m) with hu | hu
  · have hq : u / m = s.high := Nat.div_eq_of_lt_le (by omega) hu
    rw [hq] at hdiv
    rw [if_neg (by omega)]
    exact hdiv
  · have hq : u / m = s.high + 1 := Nat.div_eq_of_lt_le hu (by omega)
    rw [hq] at hdiv
    rw [if_pos (by omega)]
    exact hdiv

theorem gaps_range' {d n : Nat} (hd : d < m) (hle : t ≤ u) (hgap : u - t < m) :
    Gaps m t (List.range' u n d) := by
  induction n generalizing t u with
  | zero => trivial
  | succ n ih =>
    rw [List.range'_succ]
    exact ⟨hle, hgap, ih (Nat.le_add_right u d) (by omega)⟩

end WideCounter
