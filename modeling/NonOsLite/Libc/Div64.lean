import NonOsLite.Libc.CInt

namespace NonOsLite

-- while ((int64_t)b > 0 && b < rem): the sign test stops the doubling at bit 63.
def div64Double : Nat → Nat → Nat → Nat → Nat × Nat
  | 0, _, b, d => (b, d)
  | fuel + 1, rem, b, d =>
      if 0 < b ∧ b < 9223372036854775808 ∧ b < rem then
        div64Double fuel rem (u64 (b + b)) (u64 (d + d))
      else (b, d)

def div64Subtract : Nat → Nat → Nat → Nat → Nat → Nat × Nat
  | 0, rem, _, _, res => (rem, res)
  | fuel + 1, rem, b, d, res =>
      let s := if b ≤ rem then (rem - b, u64 (res + d)) else (rem, res)
      if d / 2 = 0 then s else div64Subtract fuel s.1 (b / 2) (d / 2) s.2

def div64_32 (n base : Nat) : Nat × Nat :=
  let high := n / 4294967296
  let res := if base ≤ high then high / base * 4294967296 else 0
  let rem := if base ≤ high then n - u32 (high / base * base) * 4294967296 else n
  let bd := div64Double 64 rem base 1
  let s := div64Subtract 64 rem bd.1 bd.2 res
  (s.2, u32 s.1)

def doDiv (n base : Nat) : Nat × Nat :=
  if n / 4294967296 = 0 then (n / base, n % base) else div64_32 n base

def DoublesTo (rem base j : Nat) : Prop :=
  base * 2 ^ j < 2 ^ 64 ∧ ¬(base * 2 ^ j < 9223372036854775808 ∧ base * 2 ^ j < rem)

theorem DoublesTo.rem_lt {rem base j : Nat} (h : DoublesTo rem base j) (hb : 0 < base)
    (hrem : rem < 2 ^ 64) : rem < 2 * (base * 2 ^ j) := by
  have hpos : 0 < base * 2 ^ j := by positivity
  have hend := h.2
  omega

theorem div64Double_spec {base rem k : Nat} (hb : 0 < base) :
    ∀ fuel, 64 ≤ fuel + k → base * 2 ^ k < 2 ^ 64 →
      ∃ j, j < 64 ∧ DoublesTo rem base j ∧
        div64Double fuel rem (base * 2 ^ k) (2 ^ k) = (base * 2 ^ j, 2 ^ j) := by
  have bit (j : Nat) (h : base * 2 ^ j < 2 ^ 64) : j < 64 := by
    by_contra hj
    have : 2 ^ 64 ≤ 2 ^ j := Nat.pow_le_pow_right (by norm_num) (by omega)
    nlinarith
  intro fuel
  induction fuel generalizing k with
  | zero =>
    intro hk h
    have := bit k h
    omega
  | succ fuel ih =>
    intro hk h
    simp only [div64Double]
    split_ifs with hc
    · obtain ⟨-, hs, -⟩ := hc
      have hbk : base * 2 ^ (k + 1) = base * 2 ^ k + base * 2 ^ k := by ring
      have hdk : 2 ^ (k + 1) = 2 ^ k + 2 ^ k := by ring
      have hd : 2 ^ k ≤ base * 2 ^ k := Nat.le_mul_of_pos_left _ hb
      have hb2 : u64 (base * 2 ^ k + base * 2 ^ k) = base * 2 ^ (k + 1) := by
        rw [u64, Nat.mod_eq_of_lt (by omega), hbk]
      have hd2 : u64 (2 ^ k + 2 ^ k) = 2 ^ (k + 1) := by
        rw [u64, Nat.mod_eq_of_lt (by omega), hdk]
      rw [hb2, hd2]
      refine ih (by omega) ?_
      rw [hbk]
      omega
    · have hpos : 0 < base * 2 ^ k := by positivity
      exact ⟨k, bit k h, ⟨h, fun hend => hc ⟨hpos, hend⟩⟩, rfl⟩

theorem div64Double_start {base : Nat} (rem : Nat) (hb : 0 < base) (hlt : base < 2 ^ 64) :
    ∃ j, j < 64 ∧ DoublesTo rem base j ∧ div64Double 64 rem base 1 = (base * 2 ^ j, 2 ^ j) := by
  have hspec := @div64Double_spec base rem 0 hb 64 le_rfl
  rw [Nat.pow_zero, Nat.mul_one] at hspec
  exact hspec hlt

theorem div64Double_succ {fuel rem b d : Nat}
    (h : ¬(0 < (div64Double fuel rem b d).1 ∧
      (div64Double fuel rem b d).1 < 9223372036854775808 ∧ (div64Double fuel rem b d).1 < rem)) :
    div64Double (fuel + 1) rem b d = div64Double fuel rem b d := by
  induction fuel generalizing b d with
  | zero => exact if_neg h
  | succ fuel ih =>
    by_cases hc : 0 < b ∧ b < 9223372036854775808 ∧ b < rem
    · have hround (m : Nat) : div64Double (m + 1) rem b d =
          div64Double m rem (u64 (b + b)) (u64 (d + d)) := if_pos hc
      rw [hround] at h
      rw [hround, hround]
      exact ih h
    · have hstop (m : Nat) : div64Double (m + 1) rem b d = (b, d) := if_neg hc
      rw [hstop, hstop]

theorem DoublesTo.fuel {rem base j fuel : Nat} (h : DoublesTo rem base j) (hfuel : 64 ≤ fuel)
    (heq : div64Double 64 rem base 1 = (base * 2 ^ j, 2 ^ j)) :
    div64Double fuel rem base 1 = (base * 2 ^ j, 2 ^ j) := by
  induction fuel, hfuel using Nat.le_induction with
  | base => exact heq
  | succ fuel _ ih =>
    rw [div64Double_succ, ih]
    rw [ih]
    exact fun hend => h.2 hend.2

theorem div64Subtract_spec {base : Nat} (hb : 0 < base) :
    ∀ k fuel rem res, k < fuel → rem < 2 * (base * 2 ^ k) → res + rem / base < 2 ^ 64 →
      div64Subtract fuel rem (base * 2 ^ k) (2 ^ k) res = (rem % base, res + rem / base) := by
  intro k
  induction k with
  | zero =>
    intro fuel rem res hf hrem hres
    obtain ⟨fuel, rfl⟩ : ∃ m, fuel = m + 1 := ⟨fuel - 1, by omega⟩
    simp only [Nat.pow_zero, Nat.mul_one] at hrem ⊢
    simp only [div64Subtract, Nat.reduceDiv, if_pos]
    split_ifs with h
    · have hq : rem / base = 1 := by
        apply Nat.div_eq_of_lt_le <;> omega
      have hm : rem % base = rem - base := by
        have := Nat.div_add_mod rem base
        rw [hq] at this
        omega
      rw [hq] at hres ⊢
      have hu : u64 (res + 1) = res + 1 := u64_of_lt hres
      rw [hm, hu]
    · rw [Nat.div_eq_of_lt (by omega), Nat.mod_eq_of_lt (by omega), Nat.add_zero]
  | succ k ih =>
    intro fuel rem res hf hrem hres
    obtain ⟨fuel, rfl⟩ : ∃ m, fuel = m + 1 := ⟨fuel - 1, by omega⟩
    have hbk : base * 2 ^ (k + 1) = base * 2 ^ k * 2 := by rw [Nat.pow_succ]; ring
    have hd : 2 ^ (k + 1) / 2 = 2 ^ k := by rw [Nat.pow_succ]; simp
    have hd0 : 2 ^ k ≠ 0 := by positivity
    have hbd : base * 2 ^ (k + 1) / 2 = base * 2 ^ k := by rw [hbk]; simp
    simp only [div64Subtract, hd, hbd, if_neg hd0]
    split_ifs with h
    · have hq : rem / base = (rem - base * 2 ^ (k + 1)) / base + 2 ^ (k + 1) := by
        conv_lhs => rw [show rem = rem - base * 2 ^ (k + 1) + base * 2 ^ (k + 1) by omega]
        rw [Nat.add_mul_div_left _ _ hb]
      have hm : (rem - base * 2 ^ (k + 1)) % base = rem % base := by
        conv_rhs => rw [show rem = rem - base * 2 ^ (k + 1) + base * 2 ^ (k + 1) by omega]
        rw [Nat.add_mul_mod_self_left]
      rw [hq] at hres
      have hu : u64 (res + 2 ^ (k + 1)) = res + 2 ^ (k + 1) := by
        refine u64_of_lt (lt_of_le_of_lt ?_ hres)
        rw [Nat.add_comm (_ / base), ← Nat.add_assoc]
        exact Nat.le_add_right _ _
      have hres' : res + 2 ^ (k + 1) + (rem - base * 2 ^ (k + 1)) / base < 2 ^ 64 := by
        rwa [Nat.add_comm (_ / base), ← Nat.add_assoc] at hres
      simp only [hu]
      rw [ih fuel _ _ (by omega) (by omega) hres', hm, hq]
      congr 1
      ring
    · exact ih fuel _ _ (by omega) (by omega) hres

theorem div64_32_spec {n base : Nat} (hn : n < 2 ^ 64) (hb : 0 < base) (hb32 : base < 2 ^ 32) :
    div64_32 n base = (n / base, n % base) := by
  -- the high word is reduced first: n = q * 2^32 * base + rem with q = high / base
  have reduce : ∃ q rem, q * 2 ^ 32 * base + rem = n ∧
      div64_32 n base = ((div64Subtract 64 rem (div64Double 64 rem base 1).1
        (div64Double 64 rem base 1).2 (q * 2 ^ 32)).2,
        u32 (div64Subtract 64 rem (div64Double 64 rem base 1).1
        (div64Double 64 rem base 1).2 (q * 2 ^ 32)).1) := by
    by_cases h : base ≤ n / 4294967296
    · have hle : n / 4294967296 / base * base ≤ n / 4294967296 := Nat.div_mul_le_self _ _
      have hu : u32 (n / 4294967296 / base * base) = n / 4294967296 / base * base :=
        u32_of_lt (by omega)
      refine ⟨n / 4294967296 / base, n - n / 4294967296 / base * base * 4294967296, ?_, ?_⟩
      · have : n / 4294967296 / base * 2 ^ 32 * base =
            n / 4294967296 / base * base * 4294967296 := by ring
        omega
      · simp only [div64_32, if_pos h, hu, Nat.reducePow]
    · refine ⟨0, n, by simp, ?_⟩
      simp only [div64_32, if_neg h, Nat.zero_mul]
  obtain ⟨q, rem, hsplit, heq⟩ := reduce
  have hdiv : n / base = q * 2 ^ 32 + rem / base := by
    rw [← hsplit, Nat.add_comm, Nat.add_mul_div_right _ _ hb, Nat.add_comm]
  have hmod : n % base = rem % base := by
    rw [← hsplit, Nat.add_comm, Nat.add_mul_mod_self_right]
  have hrem : rem < 2 ^ 64 := by
    have : 0 ≤ q * 2 ^ 32 * base := Nat.zero_le _
    omega
  have hquot : n / base < 2 ^ 64 := lt_of_le_of_lt (Nat.div_le_self _ _) hn
  obtain ⟨j, hj, hend, hdouble⟩ := div64Double_start rem hb (by omega)
  have hlt := hend.rem_lt hb hrem
  have hsub := div64Subtract_spec hb j 64 rem (q * 2 ^ 32) hj hlt (by omega)
  rw [heq, hdouble, hsub, hdiv, hmod]
  have : rem % base < base := Nat.mod_lt _ hb
  simp only [u32, Nat.mod_eq_of_lt (show rem % base < 4294967296 by omega)]

theorem doDiv_eq {n base : Nat} (hn : n < 2 ^ 64) (hb : 0 < base) (hb32 : base < 2 ^ 32) :
    doDiv n base = (n / base, n % base) := by
  simp only [doDiv]
  split_ifs
  · rfl
  · exact div64_32_spec hn hb hb32

theorem do_div_exact {n base : Nat} (hn : n < 2 ^ 64) (hb : 0 < base) (hb32 : base < 2 ^ 32) :
    doDiv n base = (n / base, n % base) ∧ div64_32 n base = (n / base, n % base) ∧
      ∀ rem < 2 ^ 64, ∃ j < 64, DoublesTo rem base j ∧ ∀ fuel, 64 ≤ fuel →
        div64Double fuel rem base 1 = (base * 2 ^ j, 2 ^ j) ∧
        ∀ res, res + rem / base < 2 ^ 64 →
          div64Subtract fuel rem (base * 2 ^ j) (2 ^ j) res = (rem % base, res + rem / base) := by
  refine ⟨doDiv_eq hn hb hb32, div64_32_spec hn hb hb32, fun rem hrem => ?_⟩
  obtain ⟨j, hj, hend, hdouble⟩ := div64Double_start rem hb (by omega)
  refine ⟨j, hj, hend, fun fuel hfuel => ⟨hend.fuel hfuel hdouble, fun res hres => ?_⟩⟩
  exact div64Subtract_spec hb j fuel rem res (Nat.lt_of_lt_of_le hj hfuel)
    (hend.rem_lt hb hrem) hres

theorem do_div_exact_largest :
    doDiv (2 ^ 64 - 1) (2 ^ 32 - 1) =
      ((2 ^ 64 - 1) / (2 ^ 32 - 1), (2 ^ 64 - 1) % (2 ^ 32 - 1)) :=
  (do_div_exact (by norm_num) (by norm_num) (by norm_num)).1

end NonOsLite
