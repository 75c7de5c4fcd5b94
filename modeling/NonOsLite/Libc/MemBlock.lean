import NonOsLite.Lib.WordWalk
import NonOsLite.Libc.Sbrk

namespace NonOsLite
open ByteBuf

-- UNALIGNED(X, Y)
def unaligned (x y : Nat) : Prop := x % 4 ≠ 0 ∨ y % 4 ≠ 0

instance (x y : Nat) : Decidable (unaligned x y) := inferInstanceAs (Decidable (_ ∨ _))

structure Walk where
  mem : Buf
  dst : Nat
  src : Nat
  len : Nat

def bigBlocks (w : Walk) : Walk :=
  if h : 16 ≤ w.len then
    let mem := copyWord w.mem w.dst w.src
    let mem := copyWord mem (w.dst + 4) (w.src + 4)
    let mem := copyWord mem (w.dst + 8) (w.src + 8)
    let mem := copyWord mem (w.dst + 12) (w.src + 12)
    bigBlocks ⟨mem, w.dst + 16, w.src + 16, w.len - 16⟩
  else w
termination_by w.len

def littleBlocks (w : Walk) : Walk :=
  if h : 4 ≤ w.len then
    littleBlocks ⟨copyWord w.mem w.dst w.src, w.dst + 4, w.src + 4, w.len - 4⟩
  else w
termination_by w.len

def memcpy (mem : Buf) (dst src len : Nat) : Buf :=
  if ¬len < 16 ∧ ¬unaligned src dst then
    let w := littleBlocks (bigBlocks ⟨mem, dst, src, len⟩)
    copyUp w.mem w.dst w.src w.len
  else copyUp mem dst src len

def memmove (mem : Buf) (dst src len : Nat) : Buf :=
  -- Destructive overlap...have to copy backwards
  if src < dst ∧ dst < src + len then copyDown mem dst src len
  else if ¬len < 16 ∧ ¬unaligned src dst then
    let w := littleBlocks (bigBlocks ⟨mem, dst, src, len⟩)
    copyUp w.mem w.dst w.src w.len
  else copyUp mem dst src len

-- while (UNALIGNED(s)): with n = 0 the function returns.
def fillHead (mem : Buf) (s : Nat) (c : UInt8) : Nat → Buf × Nat × Nat
  | 0 => (mem, s, 0)
  | n + 1 => if s % 4 ≠ 0 then fillHead (store mem s [c]) (s + 1) c n else (mem, s, n + 1)

def fillBigBlocks (w : Buf × Nat × Nat) (buffer : Nat) : Buf × Nat × Nat :=
  if h : 16 ≤ w.2.2 then
    let mem := putLe32 w.1 w.2.1 buffer
    let mem := putLe32 mem (w.2.1 + 4) buffer
    let mem := putLe32 mem (w.2.1 + 8) buffer
    let mem := putLe32 mem (w.2.1 + 12) buffer
    fillBigBlocks (mem, w.2.1 + 16, w.2.2 - 16) buffer
  else w
termination_by w.2.2

def fillLittleBlocks (w : Buf × Nat × Nat) (buffer : Nat) : Buf × Nat × Nat :=
  if h : 4 ≤ w.2.2 then
    fillLittleBlocks (putLe32 w.1 w.2.1 buffer, w.2.1 + 4, w.2.2 - 4) buffer
  else w
termination_by w.2.2

def spread (d : Nat) : Nat :=
  let buffer := d <<< 8 ||| d
  buffer ||| buffer <<< 16

-- memset as it is written; memset in Sbrk says what it does.
def memsetWords (mem : Buf) (m c n : Nat) : Buf :=
  let w := fillHead mem m (UInt8.ofNat c) n
  let w :=
    if ¬w.2.2 < 4 then
      let buffer := spread (c &&& 0xff)
      fillLittleBlocks (fillBigBlocks w buffer) buffer
    else w
  fillUp w.1 w.2.1 (UInt8.ofNat c) w.2.2

variable {mem : Buf} {dst src len n s : Nat} {c : UInt8}

theorem bigBlocks_spec (w : Walk) (hdst : 4 ∣ w.dst) (hsrc : 4 ∣ w.src) :
    4 ∣ (bigBlocks w).dst ∧ 4 ∣ (bigBlocks w).src ∧
      copyUp (bigBlocks w).mem (bigBlocks w).dst (bigBlocks w).src (bigBlocks w).len =
        copyUp w.mem w.dst w.src w.len := by
  fun_induction bigBlocks w with
  | case1 w hbig mem₁ mem₂ mem₃ mem₄ ih =>
    obtain ⟨hdst', hsrc', heq⟩ := ih (by dsimp only; omega) (by dsimp only; omega)
    refine ⟨hdst', hsrc', heq.trans ?_⟩
    calc copyUp mem₄ (w.dst + 16) (w.src + 16) (w.len - 16)
        = copyUp mem₃ (w.dst + 12) (w.src + 12) (4 + (w.len - 16)) :=
          copyUp_copyWord (by omega) (by omega)
      _ = copyUp mem₂ (w.dst + 8) (w.src + 8) (4 + (4 + (w.len - 16))) :=
          copyUp_copyWord (by omega) (by omega)
      _ = copyUp mem₁ (w.dst + 4) (w.src + 4) (4 + (4 + (4 + (w.len - 16)))) :=
          copyUp_copyWord (by omega) (by omega)
      _ = copyUp w.mem w.dst w.src (4 + (4 + (4 + (4 + (w.len - 16))))) :=
          copyUp_copyWord hdst hsrc
      _ = copyUp w.mem w.dst w.src w.len := by
        rw [show 4 + (4 + (4 + (4 + (w.len - 16)))) = w.len by omega]
  | case2 w hsmall => exact ⟨hdst, hsrc, rfl⟩

theorem littleBlocks_spec (w : Walk) (hdst : 4 ∣ w.dst) (hsrc : 4 ∣ w.src) :
    copyUp (littleBlocks w).mem (littleBlocks w).dst (littleBlocks w).src (littleBlocks w).len =
      copyUp w.mem w.dst w.src w.len := by
  fun_induction littleBlocks w with
  | case1 w hlittle ih =>
    refine (ih (by dsimp only; omega) (by dsimp only; omega)).trans ?_
    dsimp only
    rw [copyUp_copyWord hdst hsrc, show 4 + (w.len - 4) = w.len by omega]
  | case2 w hsmall => rfl

theorem memcpy_up : memcpy mem dst src len = copyUp mem dst src len := by
  rw [memcpy]
  split_ifs with hwords
  · obtain ⟨-, haligned⟩ := hwords
    rw [unaligned] at haligned
    obtain ⟨hdst, hsrc, hbig⟩ := bigBlocks_spec ⟨mem, dst, src, len⟩ (by dsimp only; omega)
      (by dsimp only; omega)
    dsimp only
    rw [littleBlocks_spec _ hdst hsrc, hbig]
  · rfl

theorem memmove_copy : memmove mem dst src len = copy mem dst (shift mem src) len := by
  rw [memmove]
  split_ifs with hover hwords
  · exact copyDown_eq (.inl hover.1.le)
  · have hup : memcpy mem dst src len = copyUp mem dst src len := memcpy_up
    rw [memcpy, if_pos hwords] at hup
    exact hup.trans (copyUp_eq (by omega))
  · exact copyUp_eq (by omega)

theorem memmove_moves (mem : Buf) (dst src len : Nat) :
    (∀ i < len, memmove mem dst src len (dst + i) = mem (src + i)) ∧
      ∀ x, x < dst ∨ dst + len ≤ x → memmove mem dst src len x = mem x := by
  rw [memmove_copy]
  refine ⟨fun i hi => ?_, fun x hx => ?_⟩
  · rw [copy_inside _ _ _ hi, shift_apply]
  · rw [copy, if_neg (by omega)]

theorem memcpy_moves (mem : Buf) (dst src len : Nat) (h : dst ≤ src ∨ src + len ≤ dst) :
    memcpy mem dst src len = memmove mem dst src len := by
  rw [memcpy_up, copyUp_eq h, memmove_copy]

theorem memcpy_moves_down :
    memcpy UInt8.ofNat 4096 4100 64 = memmove UInt8.ofNat 4096 4100 64 :=
  memcpy_moves UInt8.ofNat 4096 4100 64 (by decide)

theorem fillHead_spec :
    fillUp (fillHead mem s c n).1 (fillHead mem s c n).2.1 c (fillHead mem s c n).2.2 =
      fillUp mem s c n := by
  induction n generalizing mem s with
  | zero => rfl
  | succ n ih =>
    rw [fillHead]
    split_ifs
    · rw [ih, fillUp]
    · rfl

theorem fillBigBlocks_spec (w : Buf × Nat × Nat) (c : UInt8) :
    fillUp (fillBigBlocks w (16843009 * c.toNat)).1 (fillBigBlocks w (16843009 * c.toNat)).2.1 c
      (fillBigBlocks w (16843009 * c.toNat)).2.2 = fillUp w.1 w.2.1 c w.2.2 := by
  fun_induction fillBigBlocks w (16843009 * c.toNat) with
  | case1 w hbig mem₁ mem₂ mem₃ mem₄ ih =>
    refine ih.trans ?_
    calc fillUp mem₄ (w.2.1 + 16) c (w.2.2 - 16)
        = fillUp mem₃ (w.2.1 + 12) c (4 + (w.2.2 - 16)) := fillUp_putLe32
      _ = fillUp mem₂ (w.2.1 + 8) c (4 + (4 + (w.2.2 - 16))) := fillUp_putLe32
      _ = fillUp mem₁ (w.2.1 + 4) c (4 + (4 + (4 + (w.2.2 - 16)))) := fillUp_putLe32
      _ = fillUp w.1 w.2.1 c (4 + (4 + (4 + (4 + (w.2.2 - 16))))) := fillUp_putLe32
      _ = fillUp w.1 w.2.1 c w.2.2 := by
        rw [show 4 + (4 + (4 + (4 + (w.2.2 - 16)))) = w.2.2 by omega]
  | case2 w hsmall => rfl

theorem fillLittleBlocks_spec (w : Buf × Nat × Nat) (c : UInt8) :
    fillUp (fillLittleBlocks w (16843009 * c.toNat)).1
      (fillLittleBlocks w (16843009 * c.toNat)).2.1 c
      (fillLittleBlocks w (16843009 * c.toNat)).2.2 = fillUp w.1 w.2.1 c w.2.2 := by
  fun_induction fillLittleBlocks w (16843009 * c.toNat) with
  | case1 w hlittle ih =>
    refine ih.trans ?_
    dsimp only
    rw [fillUp_putLe32, show 4 + (w.2.2 - 4) = w.2.2 by omega]
  | case2 w hsmall => rfl

theorem spread_eq : ∀ d < 256, spread d = 16843009 * d := by decide +kernel

theorem spread_byte (c : Nat) : spread (c &&& 0xff) = 16843009 * (UInt8.ofNat c).toNat := by
  rw [show c &&& 0xff = c % 256 from Nat.and_two_pow_sub_one_eq_mod c 8,
    spread_eq _ (Nat.mod_lt _ (by decide)), UInt8.toNat_ofNat']

theorem memsetWords_up (mem : Buf) (m c n : Nat) :
    memsetWords mem m c n = fillUp mem m (UInt8.ofNat c) n := by
  rw [memsetWords]
  dsimp only
  split_ifs with hsmall
  · exact fillHead_spec
  · rw [spread_byte, fillLittleBlocks_spec, fillBigBlocks_spec, fillHead_spec]

theorem memset_fills (mem : Buf) (m c n : Nat) (hm : m < 4294967296) (hend : m + n ≤ 4294967296) :
    memsetWords mem m c n = memset mem m (UInt8.ofNat c) n := by
  rw [memsetWords_up, fillUp_eq]
  funext x
  rw [copy, memset, sub32]
  rcases Nat.lt_or_ge x m with hlt | hge
  · rw [if_neg (by omega), if_neg (by rw [if_neg (by omega)]; omega)]
  · rw [if_pos hge]
    rcases Nat.lt_or_ge x (m + n) with hin | hout
    · rw [if_pos (by omega), if_pos (by omega)]
    · rw [if_neg (by omega), if_neg (by omega)]

theorem memset_fills_odd :
    memsetWords (fun _ => 7) 4097 511 40 = memset (fun _ => 7) 4097 255 40 :=
  memset_fills (fun _ => 7) 4097 511 40 (by decide) (by decide)

end NonOsLite
