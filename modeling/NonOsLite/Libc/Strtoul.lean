import NonOsLite.Lib.ByteBuf
import NonOsLite.Libc.CInt

namespace NonOsLite
open ByteBuf

-- A C string read from memory: the bytes up to the first NUL, at most the address space.
def cStringFrom : Nat → Buf → List UInt8
  | 0, _ => []
  | fuel + 1, p => if p 0 = 0 then [] else p 0 :: cStringFrom fuel (shift p 1)

def cString (p : Buf) : List UInt8 := cStringFrom 4294967296 p

def strcmp (p : Buf) : List UInt8 → Int
  | [] => (p 0).toNat
  | c :: cs => if p 0 = c then strcmp (shift p 1) cs else ((p 0).toNat : Int) - c.toNat

def isdigit (c : UInt8) : Bool := 48 ≤ c.toNat && c.toNat ≤ 57

def isupper (c : UInt8) : Bool := 65 ≤ c.toNat && c.toNat ≤ 90

-- (char)('A' - 'a') is 224 where char is unsigned, and the difference is an int.
def tolower (c : UInt8) : Int := if isupper c then (c.toNat : Int) - 224 else c.toNat

def isxdigit (c : UInt8) : Bool := isdigit c || (97 ≤ tolower c && tolower c ≤ 102)

def strtoulDec : Nat → List UInt8 → Nat × List UInt8
  | n, [] => (n, [])
  | n, c :: a => if isdigit c then strtoulDec (u32 (u32 (n * 10) + (c.toNat - 48))) a else (n, c :: a)

def strtoulHex : Nat → List UInt8 → Nat × List UInt8
  | n, [] => (n, [])
  | n, c :: a =>
      if isxdigit c then
        let digit := if isdigit c then (c.toNat : Int) - 48 else tolower c - 97 + 10
        strtoulHex (u32 (u32 (n * 16) + toU32 digit)) a
      else (n, c :: a)

def strtoul (a : List UInt8) (base : Nat) : Nat × List UInt8 :=
  if base ≠ 0 ∧ base ≠ 10 ∧ base ≠ 16 then (0, a)
  else
    let (a, base) :=
      if base = 0 then
        match a with
        | 48 :: c :: a => if tolower c = 120 then (a, 16) else (c :: a, 10)
        | 48 :: [] => ([], 10)
        | a => (a, 10)
      else (a, base)
    if 10 < base then strtoulHex 0 a else strtoulDec 0 a

def stringToIpFrom : Nat → Nat → List UInt8 → Nat
  | 0, addr, _ => addr
  | i + 1, addr, s =>
      let (val, e) := strtoul s 10
      stringToIpFrom i (u32 (addr * 256) + val % 256) (e.drop 1)

def stringToIp (s : List UInt8) : UInt32 := htonl (stringToIpFrom 4 0 s)

def digitValue (n : Nat) (c : UInt8) : Nat := n * 10 + (c.toNat - 48)

theorem strtoulDec_eq (n : Nat) (a : List UInt8) :
    strtoulDec (u32 n) a =
      (u32 ((a.takeWhile isdigit).foldl digitValue n), a.dropWhile isdigit) := by
  induction a generalizing n with
  | nil => simp [strtoulDec]
  | cons c a ih =>
    simp only [strtoulDec]
    split_ifs with h
    · have hn : u32 (u32 (u32 n * 10) + (c.toNat - 48)) = u32 (digitValue n c) := by
        simp only [u32, digitValue]
        omega
      rw [hn, ih]
      simp [h]
    · simp [h]

theorem strtoul_dec (a : List UInt8) :
    (strtoul a 10).1 = u32 ((a.takeWhile isdigit).foldl digitValue 0) := by
  have h := strtoulDec_eq 0 a
  rw [u32_zero] at h
  simp [strtoul, h]

theorem cStringFrom_eq {p : Buf} {s : List UInt8} {fuel : Nat} (h : StartsWith p (s ++ [0])) (hs : 0 ∉ s)
    (hf : s.length < fuel) : cStringFrom fuel p = s := by
  induction s generalizing p fuel with
  | nil =>
    obtain ⟨fuel, rfl⟩ : ∃ m, fuel = m + 1 := ⟨fuel - 1, by omega⟩
    have hp : p 0 = 0 := (startsWith_cons.mp h).1
    rw [cStringFrom, if_pos hp]
  | cons c s ih =>
    obtain ⟨fuel, rfl⟩ : ∃ m, fuel = m + 1 := ⟨fuel - 1, by simp at hf; omega⟩
    obtain ⟨hc, hrest⟩ := startsWith_cons.mp h
    have hne : p 0 ≠ 0 := fun h0 => hs (by rw [← h0, hc]; exact List.mem_cons_self)
    rw [cStringFrom, if_neg hne, hc,
      ih hrest (fun hmem => hs (List.mem_cons_of_mem c hmem)) (by simpa using hf)]

theorem takeWhile_cStringFrom {p : Buf} {k fuel : Nat} (hk : k < fuel)
    (hd : ∀ i, i < k → isdigit (p i)) (hn : isdigit (p k) = false) :
    (cStringFrom fuel p).takeWhile isdigit = bytes p k := by
  induction k generalizing p fuel with
  | zero =>
    obtain ⟨fuel, rfl⟩ : ∃ m, fuel = m + 1 := ⟨fuel - 1, by omega⟩
    simp only [cStringFrom]
    split_ifs
    · rfl
    · simp [hn, bytes]
  | succ k ih =>
    obtain ⟨fuel, rfl⟩ : ∃ m, fuel = m + 1 := ⟨fuel - 1, by omega⟩
    have h0 : isdigit (p 0) := hd 0 (by omega)
    have hz : p 0 ≠ 0 := by
      intro hz
      rw [hz] at h0
      exact absurd h0 (by decide)
    have htail : (cStringFrom fuel (shift p 1)).takeWhile isdigit = bytes (shift p 1) k := by
      refine ih (by omega) ?_ ?_
      · intro i hi
        simpa [Nat.add_comm] using hd (i + 1) (by omega)
      · simpa [Nat.add_comm] using hn
    simp only [cStringFrom, if_neg hz, List.takeWhile_cons, h0, if_true, htail]
    rw [Nat.add_comm k 1, bytes_add]
    simp [bytes]

theorem strtoul_cString {p : Buf} {k : Nat} (hk : k < 4294967296)
    (hd : ∀ i, i < k → isdigit (p i)) (hn : isdigit (p k) = false) :
    (strtoul (cString p) 10).1 = u32 ((bytes p k).foldl digitValue 0) := by
  rw [strtoul_dec, cString, takeWhile_cStringFrom hk hd hn]

theorem strcmp_eq_zero {p : Buf} {cs : List UInt8} :
    strcmp p cs = 0 ↔ (∀ i, i < cs.length → p i = cs.getD i 0) ∧ p cs.length = 0 := by
  induction cs generalizing p with
  | nil =>
    simp only [strcmp, List.length_nil]
    rw [← UInt8.toNat_inj]
    simp
  | cons c cs ih =>
    have split_index : (∀ i, i < cs.length + 1 → p i = (c :: cs).getD i 0) ↔
        p 0 = c ∧ ∀ i, i < cs.length → shift p 1 i = cs.getD i 0 := by
      constructor
      · intro h
        refine ⟨by simpa using h 0 (by omega), ?_⟩
        intro i hi
        simpa [Nat.add_comm] using h (i + 1) (by omega)
      · rintro ⟨h0, hs⟩ i hi
        cases i with
        | zero => simpa using h0
        | succ i => simpa [Nat.add_comm] using hs i (by omega)
    simp only [strcmp, List.length_cons, split_index]
    split_ifs with h
    · rw [ih]
      simp [h, Nat.add_comm]
    · have : ((p 0).toNat : Int) - c.toNat ≠ 0 := by
        intro hz
        apply h
        rw [← UInt8.toNat_inj]
        omega
      simp [h, this]

end NonOsLite
