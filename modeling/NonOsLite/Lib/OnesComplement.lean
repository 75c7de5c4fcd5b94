import NonOsLite.Lib.ByteBuf

namespace OnesComplement
open ByteBuf

def halfSum (p : Buf) : Nat → Nat
  | 0 => 0
  | n + 1 => halfSum p n + le16 p (2 * n)

def wordSum (p : Buf) : Nat → Nat
  | 0 => 0
  | n + 1 => wordSum p n + be16 p (2 * n)

def Verifies (p : Buf) (n : Nat) : Prop := wordSum p n % 65535 = 0

def VerifiesBytes (p : Buf) (m : Nat) : Prop := Verifies (store p m [0]) ((m + 1) / 2)

def fold (x : Nat) : Nat := x % 65536 + x / 65536

variable {p q : Buf} {k n off v x : Nat}

theorem halfSum_le (p : Buf) (n : Nat) : halfSum p n ≤ n * 65535 := by
  induction n with
  | zero => simp [halfSum]
  | succ n ih =>
    have := le16_lt p (2 * n)
    rw [halfSum]
    omega

theorem halfSum_congr (h : Agree (2 * n) p q) : halfSum p n = halfSum q n := by
  induction n with
  | zero => rfl
  | succ n ih =>
    rw [halfSum, halfSum, ih (h.mono (by omega)), le16, le16, h _ (by omega), h _ (by omega)]

theorem halfSum_putLe16 (hv : v < 65536) (hk : k < n) :
    halfSum (putLe16 p (2 * k) v) n + le16 p (2 * k) = halfSum p n + v := by
  induction n with
  | zero => omega
  | succ n ih =>
    rw [halfSum, halfSum]
    by_cases hkn : k = n
    · subst hkn
      have hbefore : halfSum (putLe16 p (2 * k) v) k = halfSum p k :=
        halfSum_congr (fun i hi => store_of_lt hi)
      rw [hbefore, le16_putLe16 hv]
      omega
    · have hkeep : le16 (putLe16 p (2 * k) v) (2 * n) = le16 p (2 * n) :=
        le16_store_of_ge (by simp only [List.length_cons, List.length_nil]; omega)
      have := ih (by omega)
      rw [hkeep]
      omega

theorem halfSum_eq_zero_iff : halfSum p n = 0 ↔ ∀ i < n, le16 p (2 * i) = 0 := by
  induction n with
  | zero => simp [halfSum]
  | succ n ih =>
    rw [halfSum, Nat.add_eq_zero_iff, ih, Nat.forall_lt_succ_right]

theorem fold_eq_zero_iff : fold x = 0 ↔ x = 0 := by
  simp only [fold]
  omega

theorem fold_mod (x : Nat) : fold x % 65535 = x % 65535 := by
  simp only [fold]
  omega

theorem fold_fold_lt (h : x < 4294967296) : fold (fold x) < 65536 := by
  simp only [fold]
  omega

theorem fold_fold_mod (x : Nat) : fold (fold x) % 65535 = x % 65535 := by
  rw [fold_mod, fold_mod]

theorem fold_fold_zero_iff (h : x < 4294967296) :
    fold (fold x) = 0 ∨ fold (fold x) = 65535 ↔ x % 65535 = 0 := by
  have hlt := fold_fold_lt h
  have hmod := fold_fold_mod x
  omega

theorem halfSum_mod (p : Buf) (n : Nat) : halfSum p n % 65535 = 256 * wordSum p n % 65535 := by
  induction n with
  | zero => rfl
  | succ n ih =>
    simp only [halfSum, wordSum, le16, be16]
    omega

theorem verifies_iff : Verifies p n ↔ halfSum p n % 65535 = 0 := by
  have hmod := halfSum_mod p n
  simp only [Verifies]
  omega

theorem Verifies.congr (h : Verifies p n) (ha : Agree (2 * n) p q) : Verifies q n := by
  rw [verifies_iff] at h ⊢
  rwa [← halfSum_congr ha]

theorem VerifiesBytes.congr {m : Nat} (h : VerifiesBytes p m) (ha : Agree m p q) :
    VerifiesBytes q m := by
  refine Verifies.congr h ?_
  intro i hi
  rcases Nat.lt_or_ge i m with hlt | hge
  · rw [store_of_lt hlt, store_of_lt hlt, ha i hlt]
  · have him : i = m + 0 := by omega
    rw [him, store_inside _ _ _ (by decide), store_inside _ _ _ (by decide)]

theorem verifiesBytes_iff {m : Nat} (h : Verifies p (m / 2)) :
    VerifiesBytes p m ↔ m % 2 = 0 ∨ p (m - 1) = 0 := by
  have hpad : Verifies (store p m [0]) (m / 2) :=
    h.congr fun i hi => (store_of_lt (by omega)).symm
  rcases Nat.mod_two_eq_zero_or_one m with heven | hodd
  · have hhalf : (m + 1) / 2 = m / 2 := by omega
    rw [VerifiesBytes, hhalf]
    exact ⟨fun _ => Or.inl heven, fun _ => hpad⟩
  · have hhalf : (m + 1) / 2 = m / 2 + 1 := by omega
    have hlast : 2 * (m / 2) = m - 1 := by omega
    have hword : be16 (store p m [0]) (2 * (m / 2)) = 256 * (p (m - 1)).toNat := by
      have hzero := store_inside p m [0] (i := 0) (by decide)
      rw [Nat.add_zero] at hzero
      rw [be16, hlast, store_of_lt (by omega), show m - 1 + 1 = m by omega, hzero]
      rfl
    have hbyte := (p (m - 1)).toNat_lt
    have hiff : p (m - 1) = 0 ↔ (p (m - 1)).toNat = 0 := UInt8.toNat_inj.symm
    rw [VerifiesBytes, hhalf, Verifies, wordSum, hword, hiff]
    rw [Verifies] at hpad
    omega

end OnesComplement
