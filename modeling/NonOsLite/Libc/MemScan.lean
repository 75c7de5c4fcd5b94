import NonOsLite.Libc.MemBlock

namespace NonOsLite
open ByteBuf

def compareBytes (mem : Buf) (s1 s2 : Nat) : Nat → Int
  | 0 => 0
  | n + 1 =>
    if mem s1 ≠ mem s2 then (mem s1).toNat - (mem s2).toNat
    else compareBytes mem (s1 + 1) (s2 + 1) n

def skipEqual (mem : Buf) (a1 a2 n : Nat) : Nat × Nat × Nat :=
  if h : 4 ≤ n then
    if le32 mem a1 ≠ le32 mem a2 then (a1, a2, n) else skipEqual mem (a1 + 4) (a2 + 4) (n - 4)
  else (a1, a2, n)
termination_by n

def memcmp (mem : Buf) (m1 m2 n : Nat) : Int :=
  if ¬n < 4 ∧ ¬unaligned m1 m2 then
    let r := skipEqual mem m1 m2 n
    compareBytes mem r.1 r.2.1 r.2.2
  else compareBytes mem m1 m2 n

-- (X - 0x01010101) & ~X & 0x80808080
def detectNull (x : Nat) : Nat := sub32 x 0x01010101 &&& (0xffffffff ^^^ x) &&& 0x80808080

def detectChar (x mask : Nat) : Nat := detectNull (x ^^^ mask)

def findByte (mem : Buf) (src : Nat) (d : UInt8) : Nat → Option Nat
  | 0 => none
  | n + 1 => if mem src = d then some src else findByte mem (src + 1) d n

-- while (UNALIGNED(src)): the answer, or where the words begin.
def findHead (mem : Buf) (src : Nat) (d : UInt8) : Nat → Option Nat ⊕ Nat × Nat
  | 0 => if src % 4 ≠ 0 then .inl none else .inr (src, 0)
  | n + 1 =>
    if src % 4 ≠ 0 then
      if mem src = d then .inl (some src) else findHead mem (src + 1) d n
    else .inr (src, n + 1)

def skipWords (mem : Buf) (mask asrc n : Nat) : Nat × Nat :=
  if h : 4 ≤ n then
    if detectChar (le32 mem asrc) mask ≠ 0 then (asrc, n) else skipWords mem mask (asrc + 4) (n - 4)
  else (asrc, n)
termination_by n

def memchr (mem : Buf) (s c n : Nat) : Option Nat :=
  let d := UInt8.ofNat c
  match findHead mem s d n with
  | .inl r => r
  | .inr (src, n) =>
    let w := if ¬n < 4 then skipWords mem (spread d.toNat) src n else (src, n)
    findByte mem w.1 d w.2

variable {mem : Buf} {m m1 m2 n s k x a b c d : Nat} {t : UInt8}

theorem bytes_of_le32 (h : le32 mem a = le32 mem b) (i : Nat) (hi : i < 4) :
    mem (a + i) = mem (b + i) := by
  have ha0 := (mem a).toNat_lt
  have ha1 := (mem (a + 1)).toNat_lt
  have ha2 := (mem (a + 2)).toNat_lt
  have ha3 := (mem (a + 3)).toNat_lt
  have hb0 := (mem b).toNat_lt
  have hb1 := (mem (b + 1)).toNat_lt
  have hb2 := (mem (b + 2)).toNat_lt
  have hb3 := (mem (b + 3)).toNat_lt
  simp only [ByteBuf.le32, le16, Nat.add_assoc, Nat.reduceAdd] at h
  apply UInt8.toNat_inj.mp
  interval_cases i
  · rw [Nat.add_zero, Nat.add_zero]
    omega
  · omega
  · omega
  · omega

theorem compareBytes_add (h : ∀ i < m, mem (a + i) = mem (b + i)) :
    compareBytes mem a b (m + n) = compareBytes mem (a + m) (b + m) n := by
  induction m generalizing a b with
  | zero => rw [Nat.zero_add, Nat.add_zero, Nat.add_zero]
  | succ m ih =>
    have hfirst : mem a = mem b := h 0 (Nat.succ_pos m)
    rw [Nat.succ_add_eq_add_succ, Nat.add_succ, compareBytes, if_neg (not_not.mpr hfirst), ih]
    · rw [Nat.add_assoc, Nat.add_assoc, Nat.add_comm 1 m]
    · intro i hi
      rw [Nat.add_assoc, Nat.add_assoc, Nat.add_comm 1 i]
      exact h (i + 1) (by omega)

theorem skipEqual_spec (mem : Buf) (a b n : Nat) :
    compareBytes mem (skipEqual mem a b n).1 (skipEqual mem a b n).2.1 (skipEqual mem a b n).2.2 =
      compareBytes mem a b n := by
  fun_induction skipEqual mem a b n with
  | case1 a b n hn hne => rfl
  | case2 a b n hn heq ih =>
    have hword := compareBytes_add (n := n - 4) (bytes_of_le32 (not_not.mp heq))
    rw [ih, ← hword, show 4 + (n - 4) = n by omega]
  | case3 a b n hn => rfl

theorem memcmp_bytes : memcmp mem m1 m2 n = compareBytes mem m1 m2 n := by
  rw [memcmp]
  split_ifs
  · exact skipEqual_spec mem m1 m2 n
  · rfl

theorem memcmp_first (mem : Buf) (m1 m2 n : Nat) :
    (memcmp mem m1 m2 n = 0 ∧ ∀ i < n, mem (m1 + i) = mem (m2 + i)) ∨
      ∃ i < n, (∀ j < i, mem (m1 + j) = mem (m2 + j)) ∧ mem (m1 + i) ≠ mem (m2 + i) ∧
        memcmp mem m1 m2 n = (mem (m1 + i)).toNat - (mem (m2 + i)).toNat := by
  rw [memcmp_bytes]
  induction n generalizing m1 m2 with
  | zero => exact .inl ⟨rfl, fun i hi => absurd hi (Nat.not_lt_zero i)⟩
  | succ n ih =>
    rw [compareBytes]
    split_ifs with hne
    · exact .inr ⟨0, Nat.succ_pos n, fun j hj => absurd hj (Nat.not_lt_zero j), hne, rfl⟩
    · have hfirst : mem m1 = mem m2 := not_not.mp hne
      have hnext (i : Nat) (m : Nat) : m + (i + 1) = m + 1 + i := by omega
      rcases ih (m1 + 1) (m2 + 1) with ⟨hzero, hall⟩ | ⟨i, hi, hbefore, hdiff, hvalue⟩
      · refine .inl ⟨hzero, ?_⟩
        rintro (_ | i) hi
        · exact hfirst
        · rw [hnext i m1, hnext i m2]
          exact hall i (by omega)
      · refine .inr ⟨i + 1, by omega, ?_, ?_, ?_⟩
        · rintro (_ | j) hj
          · exact hfirst
          · rw [hnext j m1, hnext j m2]
            exact hbefore j (by omega)
        · rwa [hnext i m1, hnext i m2]
        · rwa [hnext i m1, hnext i m2]

theorem xor_bytes (ha : a < 256) (hc : c < 256) :
    (a + 256 * b) ^^^ (c + 256 * d) = (a ^^^ c) + 256 * (b ^^^ d) := by
  have hmod := Nat.xor_mod_two_pow (a := a + 256 * b) (b := c + 256 * d) (n := 8)
  have hdiv := Nat.xor_div_two_pow (a := a + 256 * b) (b := c + 256 * d) (n := 8)
  rw [show (a + 256 * b) % 2 ^ 8 = a by omega, show (c + 256 * d) % 2 ^ 8 = c by omega] at hmod
  rw [show (a + 256 * b) / 2 ^ 8 = b by omega, show (c + 256 * d) / 2 ^ 8 = d by omega] at hdiv
  omega

theorem detectNull_bit (hzero : detectNull x = 0) (hk : k = 7 ∨ k = 15 ∨ k = 23 ∨ k = 31) :
    ¬(sub32 x 16843009 / 2 ^ k % 2 = 1 ∧ x / 2 ^ k % 2 = 0) := by
  have hbit : (detectNull x).testBit k = false := by rw [hzero, Nat.zero_testBit]
  rintro ⟨hsub, hx⟩
  rw [detectNull, Nat.testBit_and, Nat.testBit_and, Nat.testBit_xor,
    Nat.testBit_eq_decide_div_mod_eq (x := sub32 x _), Nat.testBit_eq_decide_div_mod_eq (x := x),
    hsub, hx] at hbit
  rcases hk with rfl | rfl | rfl | rfl <;> exact absurd hbit (by decide)

-- The subtraction borrows into the top bit of the first byte that is 0.
theorem detectNull_null (ha : a < 256) (hb : b < 256) (hc : c < 256)
    (hnull : a = 0 ∨ b = 0 ∨ c = 0 ∨ d = 0) :
    detectNull (a + 256 * (b + 256 * (c + 256 * d))) ≠ 0 := by
  intro hzero
  have h7 := detectNull_bit hzero (k := 7) (by decide)
  have h15 := detectNull_bit hzero (k := 15) (by decide)
  have h23 := detectNull_bit hzero (k := 23) (by decide)
  have h31 := detectNull_bit hzero (k := 31) (by decide)
  simp only [Nat.reducePow] at h7 h15 h23 h31
  unfold sub32 at h7 h15 h23 h31
  split_ifs at h7 h15 h23 h31 with hle <;> omega

theorem detectChar_byte (i : Nat) (hi : i < 4) (h : mem (a + i) = t) :
    detectChar (le32 mem a) (spread t.toNat) ≠ 0 := by
  have ht := t.toNat_lt
  have h0 := (mem a).toNat_lt
  have h1 := (mem (a + 1)).toNat_lt
  have h2 := (mem (a + 2)).toNat_lt
  have h3 := (mem (a + 3)).toNat_lt
  have hword : le32 mem a = (mem a).toNat + 256 * ((mem (a + 1)).toNat +
      256 * ((mem (a + 2)).toNat + 256 * (mem (a + 3)).toNat)) := by
    simp only [ByteBuf.le32, le16, Nat.add_assoc, Nat.reduceAdd]
    omega
  have hmask : spread t.toNat = t.toNat + 256 * (t.toNat + 256 * (t.toNat + 256 * t.toNat)) := by
    rw [spread_eq _ ht]
    omega
  have hsmall (k : Nat) (hk : k < 256) : k ^^^ t.toNat < 256 := Nat.xor_lt_two_pow (n := 8) hk ht
  rw [detectChar, hword, hmask, xor_bytes h0 ht, xor_bytes h1 ht, xor_bytes h2 ht]
  refine detectNull_null (hsmall _ h0) (hsmall _ h1) (hsmall _ h2) ?_
  interval_cases i
  · exact .inl (by rw [← h, Nat.add_zero, Nat.xor_self])
  · exact .inr (.inl (by rw [← h, Nat.xor_self]))
  · exact .inr (.inr (.inl (by rw [← h, Nat.xor_self])))
  · exact .inr (.inr (.inr (by rw [← h, Nat.xor_self])))

theorem findByte_add (h : ∀ i < m, mem (s + i) ≠ t) :
    findByte mem s t (m + n) = findByte mem (s + m) t n := by
  induction m generalizing s with
  | zero => rw [Nat.zero_add, Nat.add_zero]
  | succ m ih =>
    have hfirst : mem s ≠ t := h 0 (Nat.succ_pos m)
    rw [Nat.succ_add_eq_add_succ, Nat.add_succ, findByte, if_neg hfirst, ih]
    · rw [Nat.add_assoc, Nat.add_comm 1 m]
    · intro i hi
      rw [Nat.add_assoc, Nat.add_comm 1 i]
      exact h (i + 1) (by omega)

theorem skipWords_spec (mem : Buf) (t : UInt8) (s n : Nat) :
    findByte mem (skipWords mem (spread t.toNat) s n).1 t (skipWords mem (spread t.toNat) s n).2 =
      findByte mem s t n := by
  fun_induction skipWords mem (spread t.toNat) s n with
  | case1 s n hn hfound => rfl
  | case2 s n hn hzero ih =>
    have hword := findByte_add (n := n - 4) fun i hi h => hzero (detectChar_byte i hi h)
    rw [ih, ← hword, show 4 + (n - 4) = n by omega]
  | case3 s n hn => rfl

theorem memchr_bytes : memchr mem s c n = findByte mem s (UInt8.ofNat c) n := by
  rw [memchr]
  dsimp only
  induction n generalizing s with
  | zero =>
    rw [findHead]
    split_ifs <;> rfl
  | succ n ih =>
    rw [findHead]
    split_ifs with hhead hfirst
    · rw [findByte, if_pos hfirst]
    · rw [findByte, if_neg hfirst, ih]
    · dsimp only
      split_ifs
      · rfl
      · exact skipWords_spec mem _ s (n + 1)

theorem memchr_first (mem : Buf) (s c n : Nat) :
    (memchr mem s c n = none ∧ ∀ i < n, mem (s + i) ≠ UInt8.ofNat c) ∨
      ∃ i < n, memchr mem s c n = some (s + i) ∧ mem (s + i) = UInt8.ofNat c ∧
        ∀ j < i, mem (s + j) ≠ UInt8.ofNat c := by
  rw [memchr_bytes]
  induction n generalizing s with
  | zero => exact .inl ⟨rfl, fun i hi => absurd hi (Nat.not_lt_zero i)⟩
  | succ n ih =>
    rw [findByte]
    split_ifs with hfirst
    · exact .inr ⟨0, Nat.succ_pos n, rfl, hfirst, fun j hj => absurd hj (Nat.not_lt_zero j)⟩
    · have hnext (i : Nat) : s + (i + 1) = s + 1 + i := by omega
      rcases ih (s := s + 1) with ⟨hnone, hall⟩ | ⟨i, hi, hsome, hfound, hbefore⟩
      · refine .inl ⟨hnone, ?_⟩
        rintro (_ | i) hi
        · exact hfirst
        · rw [hnext i]
          exact hall i (by omega)
      · refine .inr ⟨i + 1, by omega, ?_, ?_, ?_⟩
        · rw [hsome, hnext i]
        · rwa [hnext i]
        · rintro (_ | j) hj
          · exact hfirst
          · rw [hnext j]
            exact hbefore j (by omega)

end NonOsLite
