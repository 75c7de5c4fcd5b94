import NonOsLite.Timer.Ticks

namespace NonOsLite.Timer

def FirstPoll (ticks : Nat → Nat) (n k : Nat) : Prop :=
  1 ≤ k ∧ n ≤ ticks k - ticks 0 ∧ ∀ j, 1 ≤ j → j < k → ticks j - ticks 0 < n

def DelaysFully (p : Platform) (usec : Nat) : Prop :=
  ∀ ticks : Nat → Nat, Monotone ticks → (∀ k, ticks k < 18446744073709551616) →
    ∀ k, (∃ fuel, udelay p ticks usec fuel = some k) ↔
      FirstPoll ticks (usec * p.timerClock / 1000000) k

variable {ticks : Nat → Nat} {tmo k l : Nat}

theorem elapsed_eq (hmono : Monotone ticks) (h64 : ∀ k, ticks k < 18446744073709551616) :
    u64 (ticks k + 18446744073709551616 - ticks 0) = ticks k - ticks 0 := by
  have hle := hmono (Nat.zero_le k)
  have hlt := h64 k
  simp only [u64]
  omega

theorem udelayLoop_some (hmono : Monotone ticks) (h64 : ∀ k, ticks k < 18446744073709551616)
    {fuel : Nat} (h : udelayLoop ticks tmo fuel l = some k) :
    l ≤ k ∧ tmo ≤ ticks k - ticks 0 ∧ ∀ j, l ≤ j → j < k → ticks j - ticks 0 < tmo := by
  induction fuel generalizing l with
  | zero => simp [udelayLoop] at h
  | succ fuel ih =>
    rw [udelayLoop, elapsed_eq hmono h64] at h
    split at h
    · rename_i hwait
      obtain ⟨hlk, hk, hbefore⟩ := ih h
      refine ⟨Nat.le_of_succ_le hlk, hk, ?_⟩
      intro j hlj hjk
      rcases Nat.eq_or_lt_of_le hlj with rfl | hlt
      · exact hwait
      · exact hbefore j hlt hjk
    · rename_i hdone
      obtain rfl : l = k := Option.some.inj h
      exact ⟨Nat.le_refl _, Nat.le_of_not_lt hdone, fun j hj hlt => absurd hlt (Nat.not_lt.mpr hj)⟩

theorem udelayLoop_returns (hmono : Monotone ticks) (h64 : ∀ k, ticks k < 18446744073709551616)
    (hlk : l ≤ k) (hk : tmo ≤ ticks k - ticks 0)
    (hbefore : ∀ j, l ≤ j → j < k → ticks j - ticks 0 < tmo) :
    udelayLoop ticks tmo (k - l + 1) l = some k := by
  induction hn : k - l generalizing l with
  | zero =>
    have hl : l = k := by omega
    rw [hl, udelayLoop, elapsed_eq hmono h64, if_neg (Nat.not_lt.mpr hk)]
  | succ n ih =>
    rw [udelayLoop, elapsed_eq hmono h64, if_pos (hbefore l (Nat.le_refl l) (by omega))]
    exact ih (by omega) (fun j hj hjk => hbefore j (by omega) hjk) (by omega)

theorem udelay_iff_firstPoll (p : Platform) (hmono : Monotone ticks)
    (h64 : ∀ k, ticks k < 18446744073709551616) {usec : Nat} :
    (∃ fuel, udelay p ticks usec fuel = some k) ↔
      FirstPoll ticks (u32 (usecToTick p usec)) k := by
  constructor
  · rintro ⟨fuel, h⟩
    exact udelayLoop_some hmono h64 h
  · rintro ⟨h1, hk, hbefore⟩
    exact ⟨_, udelayLoop_returns hmono h64 h1 hk hbefore⟩

theorem udelay_full_iff (p : Platform) (usec : Nat) (h : usec < 4294967296) :
    DelaysFully p usec ↔ usec * p.timerClock / 1000000 < 4294967296 := by
  constructor
  · intro hfull
    by_contra hover
    obtain ⟨n, hn⟩ : ∃ n, n = u32 (usec * p.timerClock / 1000000) := ⟨_, rfl⟩
    have hlt : n < 4294967296 := hn ▸ u32_lt _
    -- a counter that reaches the truncated target at the first poll and stays there
    let ticks : Nat → Nat := fun k => if k = 0 then 0 else n
    have hmono : Monotone ticks := by
      intro i j hij
      simp only [ticks]
      split <;> split <;> omega
    have h64 (k : Nat) : ticks k < 18446744073709551616 := by
      simp only [ticks]
      split <;> omega
    have hfirst : FirstPoll ticks (u32 (usecToTick p usec)) 1 := by
      rw [usecToTick_eq p h, ← hn]
      exact ⟨Nat.le_refl 1, Nat.le_refl n, fun j h1 h2 => absurd h2 (Nat.not_lt.mpr h1)⟩
    have htrue := (hfull ticks hmono h64 1).mp ((udelay_iff_firstPoll p hmono h64).mpr hfirst)
    have hreach : usec * p.timerClock / 1000000 ≤ n := htrue.2.1
    omega
  · intro hfit ticks hmono h64 k
    rw [udelay_iff_firstPoll p hmono h64, usecToTick_eq p h, u32_of_lt hfit]

theorem udelay_full_second : DelaysFully .axi 1000000 :=
  (udelay_full_iff .axi 1000000 (by decide)).mpr (by decide)

theorem udelay_short : ¬∀ (p : Platform) (usec : Nat), usec < 4294967296 → DelaysFully p usec := by
  intro h
  have hfull := h .axi 85899346 (by decide)
  let ticks : Nat → Nat := fun k => if k = 0 then 0 else 4
  have hmono : Monotone ticks := by
    intro i j hij
    simp only [ticks]
    split <;> split <;> omega
  have h64 (k : Nat) : ticks k < 18446744073709551616 := by
    simp only [ticks]
    split <;> omega
  have hreturn : udelay .axi ticks 85899346 1 = some 1 := by decide +kernel
  have hreach := ((hfull ticks hmono h64 1).mp ⟨1, hreturn⟩).2.1
  exact absurd hreach (by decide)

end NonOsLite.Timer
