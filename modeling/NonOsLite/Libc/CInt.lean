import Mathlib.Tactic

namespace NonOsLite

-- ARM EABI, little endian: char is unsigned; int, long, size_t and pointers have 32 bits.
def u16 (x : Nat) : Nat := x % 65536

def u32 (x : Nat) : Nat := x % 4294967296

def u64 (x : Nat) : Nat := x % 18446744073709551616

def toU32 (x : Int) : Nat := (x % 4294967296).toNat

def toInt32 (x : Nat) : Int := if u32 x < 2147483648 then (u32 x : Int) else (u32 x : Int) - 4294967296

def sub32 (a b : Nat) : Nat := if b ≤ a then a - b else 4294967296 - (b - a)

def swab16 (x : Nat) : Nat := 256 * (x % 256) + x / 256 % 256

def htons : Nat → Nat := swab16

def ntohs : Nat → Nat := swab16

def swab32 (x : Nat) : Nat := 65536 * swab16 (x % 65536) + swab16 (x / 65536 % 65536)

def htonl (x : Nat) : UInt32 := UInt32.ofNat (swab32 x)

def ntohl (x : UInt32) : Nat := swab32 x.toNat

def ascii (s : String) : List UInt8 := s.toList.map (fun c => c.toNat.toUInt8)

theorem u16_lt (x : Nat) : u16 x < 65536 := Nat.mod_lt _ (by norm_num)

theorem u32_lt (x : Nat) : u32 x < 4294967296 := Nat.mod_lt _ (by norm_num)

theorem u64_lt (x : Nat) : u64 x < 2 ^ 64 := Nat.mod_lt _ (by norm_num)

theorem u16_of_lt {x : Nat} (h : x < 65536) : u16 x = x := Nat.mod_eq_of_lt h

theorem u32_of_lt {x : Nat} (h : x < 4294967296) : u32 x = x := Nat.mod_eq_of_lt h

theorem u64_of_lt {x : Nat} (h : x < 18446744073709551616) : u64 x = x := Nat.mod_eq_of_lt h

theorem u32_succ_ne (n : Nat) : u32 (n + 1) ≠ n := by
  unfold u32
  omega

theorem u32_zero : u32 0 = 0 := rfl

theorem forall_byte {P : UInt8 → Prop} (h : ∀ n < 256, P (UInt8.ofNat n)) (c : UInt8) : P c := by
  have hc := h c.toNat c.toNat_lt
  rwa [UInt8.ofNat_toNat] at hc

theorem toU32_ofNat {n : Nat} (h : n < 4294967296) : toU32 (n : Int) = n := by
  simp only [toU32]
  omega

theorem sub32_lt {a b : Nat} (h : a < 4294967296) : sub32 a b < 4294967296 := by
  unfold sub32
  split <;> omega

theorem sub32_of_le {a b : Nat} (h : b ≤ a) : sub32 a b = a - b := if_pos h

theorem sub32_of_lt {a b : Nat} (h : a < b) : sub32 a b = 4294967296 - (b - a) :=
  if_neg (Nat.not_le_of_lt h)

end NonOsLite
