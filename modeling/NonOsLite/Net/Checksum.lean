import NonOsLite.Net.Core
import NonOsLite.Lib.OnesComplement

namespace NonOsLite
open ByteBuf OnesComplement

def sealCksum (p : Buf) (n k : Nat) : Buf :=
  putLe16 p (2 * k) (65535 - netCksum (putLe16 p (2 * k) 0) n)

variable {p q : Buf} {n k : Nat}

theorem netCksumSum_eq (h : n ≤ 65537) : netCksumSum p n = halfSum p n := by
  induction n with
  | zero => rfl
  | succ n ih =>
    have hle : halfSum p n + le16 p (2 * n) ≤ (n + 1) * 65535 := halfSum_le p (n + 1)
    rw [netCksumSum, ih (by omega), halfSum]
    exact u32_of_lt (by omega)

theorem netCksum_eq (h : n ≤ 65537) : netCksum p n = fold (fold (halfSum p n)) := by
  have hle := halfSum_le p n
  have hlt : fold (fold (halfSum p n)) < 65536 := fold_fold_lt (by omega)
  have hfold (x : Nat) (hx : x < 4294967296) : u32 (x % 65536 + x / 65536) = fold x :=
    u32_of_lt (by omega)
  unfold netCksum
  rw [netCksumSum_eq h]
  extract_lets x y z
  have hy : y = fold (halfSum p n) := hfold _ (by omega)
  have hz : z = fold (fold (halfSum p n)) := by
    have hy' : y < 4294967296 := u32_lt _
    rw [show z = fold y from hfold y hy', hy]
  rw [hz]
  exact Nat.mod_eq_of_lt hlt

theorem netCksum_congr (h : n ≤ 65537) (ha : Agree (2 * n) p q) : netCksum p n = netCksum q n := by
  rw [netCksum_eq h, netCksum_eq h, halfSum_congr ha]

theorem netCksum_lt (h : n ≤ 65537) : netCksum p n < 65536 := by
  have hle := halfSum_le p n
  rw [netCksum_eq h]
  exact fold_fold_lt (by omega)

theorem netCksum_mod (h : n ≤ 65537) : netCksum p n % 65535 = halfSum p n % 65535 := by
  rw [netCksum_eq h, fold_fold_mod]

theorem netCksum_eq_zero_iff (h : n ≤ 65537) :
    netCksum p n = 0 ↔ ∀ i < n, le16 p (2 * i) = 0 := by
  rw [netCksum_eq h, fold_eq_zero_iff, fold_eq_zero_iff, halfSum_eq_zero_iff]

theorem land_even (x : Nat) : x &&& 0xfffe = 2 * (x / 2 % 32768) := by
  have hhalf : (x &&& 0xfffe) / 2 = x / 2 &&& 32767 := Nat.and_div_two
  have hmask : x / 2 &&& 32767 = x / 2 % 32768 := Nat.and_two_pow_sub_one_eq_mod _ 15
  have heven : (x &&& 0xfffe) % 2 = 0 := by simp [Nat.and_mod_two_pow (n := 1)]
  omega

theorem netCksumOk_iff_mod (h : n ≤ 65537) : netCksumOk p n = true ↔ halfSum p n % 65535 = 0 := by
  have hle := halfSum_le p n
  have hlt : fold (fold (halfSum p n)) < 65536 := fold_fold_lt (by omega)
  rw [← fold_fold_zero_iff (by omega), netCksumOk, netCksum_eq h, land_even, beq_iff_eq]
  omega

theorem netCksumOk_iff (h : n ≤ 65537) : netCksumOk p n = true ↔ Verifies p n := by
  rw [netCksumOk_iff_mod h, verifies_iff]

theorem netCksumOk_putLe16_iff {v : Nat} (hn : n ≤ 65537) (hk : k < n) (hv : v < 65536) :
    netCksumOk (putLe16 p (2 * k) v) n = true ↔
      (halfSum p n + v) % 65535 = le16 p (2 * k) % 65535 := by
  have hsum := halfSum_putLe16 (p := p) hv hk
  rw [netCksumOk_iff_mod hn]
  omega

theorem sealCksum_ok (hn : n ≤ 65537) (hk : k < n) : netCksumOk (sealCksum p n k) n = true := by
  have hlt := netCksum_lt (p := putLe16 p (2 * k) 0) hn
  have hmod := netCksum_mod (p := putLe16 p (2 * k) 0) hn
  have hzero := halfSum_putLe16 (p := p) (v := 0) (by decide) hk
  rw [sealCksum, netCksumOk_putLe16_iff hn hk (by omega)]
  omega

theorem netCksumOk_putLe16 (hn : n ≤ 65537) (hk : k < n) (h0 : le16 p (2 * k) = 0) :
    netCksumOk (putLe16 p (2 * k) (65535 - netCksum p n)) n = true := by
  have hlt := netCksum_lt (p := p) hn
  have hmod := netCksum_mod (p := p) hn
  rw [netCksumOk_putLe16_iff hn hk (by omega), h0]
  omega

theorem netCksum_seals (hn : n ≤ 65537) :
    netCksum p n < 65536 ∧ netCksum p n % 65535 = halfSum p n % 65535 ∧
      (netCksum p n = 0 ↔ ∀ i < n, le16 p (2 * i) = 0) ∧
      ∀ k < n, netCksumOk (sealCksum p n k) n = true ∧
        ∀ j < n, ∀ v < 65536, v % 65535 ≠ le16 (sealCksum p n k) (2 * j) % 65535 →
          netCksumOk (putLe16 (sealCksum p n k) (2 * j) v) n = false := by
  refine ⟨netCksum_lt hn, netCksum_mod hn, netCksum_eq_zero_iff hn, ?_⟩
  intro k hk
  have hok := sealCksum_ok (p := p) hn hk
  refine ⟨hok, ?_⟩
  intro j hj v hv hne
  rw [netCksumOk_iff_mod hn] at hok
  rw [Bool.eq_false_iff, ne_eq, netCksumOk_putLe16_iff hn hj hv]
  omega

def cksumSample : Buf := store (fun _ => 0) 0 [0x45, 0x00, 0xff, 0xff, 0x12, 0x34]

theorem netCksum_seals_sample :
    netCksum cksumSample 3 % 65535 = halfSum cksumSample 3 % 65535 ∧
      netCksumOk (sealCksum cksumSample 3 1) 3 = true ∧
      netCksumOk (putLe16 (sealCksum cksumSample 3 1) (2 * 2) 0x3413) 3 = false := by
  obtain ⟨_, hmod, _, hseal⟩ := netCksum_seals (p := cksumSample) (n := 3) (by decide)
  obtain ⟨hok, hchange⟩ := hseal 1 (by decide)
  exact ⟨hmod, hok, hchange 2 (by decide) 0x3413 (by decide) (by decide +kernel)⟩

end NonOsLite
