import NonOsLite.Lib.RegisterBits

namespace NonOsLite.Dma
open RegisterBits

abbrev Regs := Nat → BitVec 32

structure Store where
  addr : Nat
  val : BitVec 32
deriving DecidableEq

def storeAll (r : Regs) (ss : List Store) : Regs :=
  ss.foldl (fun r s => Function.update r s.addr s.val) r

-- outl(val, addr) of common.h.
def outl (val : BitVec 32) (addr : Nat) : Store := ⟨addr, val⟩

-- It reads sixteen bits.
def inw (r : Regs) (addr : Nat) : BitVec 32 := r addr &&& 0xFFFF#32

def setBit (w : BitVec 32) (i : Nat) (b : Bool) : BitVec 32 :=
  if b then w ||| 1#32 <<< i else w &&& ~~~(1#32 <<< i)

def dmaIntTcClr : Nat := 0x8
def dmaIntErrabtClr : Nat := 0x10
def dmaChannel0Base : Nat := 0x100
def dmaChannelOffset : Nat := 0x20
def dmaChannelCsrOffset : Nat := 0x0
def dmaChannelCfgOffset : Nat := 0x4
def dmaChannelSrcaddrOffset : Nat := 0x8
def dmaChannelDstaddrOffset : Nat := 0xc
def dmaChannelLlpOffset : Nat := 0x10
def dmaChannelSizeOffset : Nat := 0x14
def dmaChannelStrideOffset : Nat := 0x18

-- Where a controller is, the registers with a bit for each channel (those with a second one from
-- bit 16 on among them), and the arrays with a word for each channel.
structure Controller where
  base : Nat
  bitRegs : List Nat
  pairRegs : List Nat
  wordArrays : List Nat

variable (d : Controller)

def Controller.ch (c : Fin 8) (off : Nat) : Nat :=
  d.base + dmaChannel0Base + c * dmaChannelOffset + off

def Controller.clearRegs : List Nat := [d.base + dmaIntTcClr, d.base + dmaIntErrabtClr]

structure Controller.WellFormed : Prop where
  bits : ∀ off ∈ d.bitRegs, off < dmaChannel0Base
  arrays : ∀ off ∈ d.wordArrays, 0x40 ≤ off ∧ off + 32 ≤ dmaChannel0Base

inductive Controller.Owns (k : Fin 8) (a i : Nat) : Prop
  | block (hlo : d.ch k 0 ≤ a) (hhi : a < d.ch k dmaChannelOffset)
  | bit (off : Nat) (hoff : off ∈ d.bitRegs) (ha : a = d.base + off) (hi : i = k)
  | pair (off : Nat) (hoff : off ∈ d.bitRegs) (hpair : off ∈ d.pairRegs) (ha : a = d.base + off)
      (hi : i = k + 16)
  | word (off : Nat) (hoff : off ∈ d.wordArrays) (ha : a = d.base + off + 4 * k)

structure Field where
  addr : Nat
  lo : Nat
  width : Nat

def Field.Has (f : Field) (a i : Nat) : Prop := a = f.addr ∧ f.lo ≤ i ∧ i < f.lo + f.width

structure Controller.Frames (r : Regs) (c : Fin 8) (named : List Field) (ss : List Store) :
    Prop where
  window : ∀ s ∈ ss, d.base ≤ s.addr ∧ s.addr < d.base + 0x200
  others : ∀ a i k, d.Owns k a i → k ≠ c → a ∉ d.clearRegs →
    (storeAll r ss a).getLsbD i = (r a).getLsbD i
  -- A one stored to a clear register clears: none for another channel.
  clears : ∀ s ∈ ss, s.addr ∈ d.clearRegs → ∀ i k, d.Owns k s.addr i → k ≠ c →
    s.val.getLsbD i = false
  unnamed : ∀ a i, d.Owns c a i → a ∉ d.clearRegs → (∀ f ∈ named, ¬f.Has a i) →
    (storeAll r ss a).getLsbD i = (r a).getLsbD i

structure Controller.StoreFrames (r : Regs) (c : Fin 8) (named : List Field) (s : Store) :
    Prop where
  window : d.base ≤ s.addr ∧ s.addr < d.base + 0x200
  keeps : s.addr ∉ d.clearRegs → ∀ i k, d.Owns k s.addr i →
    (k = c → ∀ f ∈ named, ¬f.Has s.addr i) → s.val.getLsbD i = (r s.addr).getLsbD i
  clears : s.addr ∈ d.clearRegs → ∀ i k, d.Owns k s.addr i → k ≠ c → s.val.getLsbD i = false

variable {d} {r : Regs} {c k : Fin 8} {named : List Field} {ss : List Store} {s : Store}
  {a i j off : Nat} {w : BitVec 32}

theorem storeAll_bit (h : ∀ s ∈ ss, s.addr = a → s.val.getLsbD i = w.getLsbD i)
    (hr : (r a).getLsbD i = w.getLsbD i) : (storeAll r ss a).getLsbD i = w.getLsbD i := by
  induction ss generalizing r with
  | nil => exact hr
  | cons s ss ih =>
    refine ih (fun s' hs' => h s' (List.mem_cons_of_mem s hs')) ?_
    dsimp only
    by_cases ha : a = s.addr
    · subst ha
      rw [Function.update_self]
      exact h s List.mem_cons_self rfl
    · rwa [Function.update_of_ne ha]

theorem Controller.frames_of_stores (h : ∀ s ∈ ss, d.StoreFrames r c named s) :
    d.Frames r c named ss := by
  refine ⟨fun s hs => (h s hs).window, ?_, fun s hs => (h s hs).clears, ?_⟩
  · intro a i k howns hk hclear
    refine storeAll_bit ?_ rfl
    rintro s hs rfl
    exact (h s hs).keeps hclear i k howns fun hkc => absurd hkc hk
  · intro a i howns hclear hunnamed
    refine storeAll_bit ?_ rfl
    rintro s hs rfl
    exact (h s hs).keeps hclear i c howns fun _ => hunnamed

theorem storeAll_single (r : Regs) (s : Store) : storeAll r [s] s.addr = s.val :=
  Function.update_self _ _ _

theorem setBit_of_ne (h : i ≠ j) (b : Bool) : (setBit w j b).getLsbD i = w.getLsbD i := by
  rcases Nat.lt_or_ge i 32 with hi | hi
  · have hne : (j == i) = false := beq_eq_false_iff_ne.mpr (Ne.symm h)
    cases b with
    | true => rw [setBit, if_pos rfl, getLsbD_set hi, hne, Bool.or_false]
    | false => rw [setBit, if_neg (by decide), getLsbD_clear hi, hne, Bool.not_false, Bool.and_true]
  · rw [BitVec.getLsbD_of_ge _ _ hi, BitVec.getLsbD_of_ge _ _ hi]

theorem Controller.WellFormed.owner_ch (hd : d.WellFormed) (hoff : off < dmaChannelOffset)
    (h : d.Owns k (d.ch c off) i) : k = c := by
  have hk := k.isLt
  have hc := c.isLt
  simp only [dmaChannelOffset] at hoff
  cases h with
  | block hlo hhi =>
    simp only [Controller.ch, dmaChannel0Base, dmaChannelOffset] at hlo hhi
    exact Fin.ext (by omega)
  | bit off' hoff' ha hi =>
    have hlt := hd.bits off' hoff'
    simp only [Controller.ch, dmaChannel0Base, dmaChannelOffset] at ha hlt
    omega
  | pair off' hoff' hpair ha hi =>
    have hlt := hd.bits off' hoff'
    simp only [Controller.ch, dmaChannel0Base, dmaChannelOffset] at ha hlt
    omega
  | word off' hoff' ha =>
    have hlt := (hd.arrays off' hoff').2
    simp only [Controller.ch, dmaChannel0Base, dmaChannelOffset] at ha hlt
    omega

theorem Controller.ch_notMem_clearRegs (d : Controller) (c : Fin 8) (off : Nat) :
    d.ch c off ∉ d.clearRegs := by
  simp only [Controller.clearRegs, Controller.ch, dmaChannel0Base, dmaIntTcClr, dmaIntErrabtClr,
    List.mem_cons, List.not_mem_nil, or_false]
  omega

theorem Controller.ch_window (d : Controller) (c : Fin 8) (hoff : off < dmaChannelOffset) :
    d.base ≤ d.ch c off ∧ d.ch c off < d.base + 0x200 := by
  have hc := c.isLt
  simp only [Controller.ch, dmaChannel0Base, dmaChannelOffset] at hoff ⊢
  omega

theorem Controller.WellFormed.channelStore (hd : d.WellFormed) (hoff : off < dmaChannelOffset)
    {v : BitVec 32}
    (hv : ∀ i, (∀ f ∈ named, ¬f.Has (d.ch c off) i) → v.getLsbD i = (r (d.ch c off)).getLsbD i) :
    d.StoreFrames r c named ⟨d.ch c off, v⟩ := by
  refine ⟨d.ch_window c hoff, ?_, fun hclear => absurd hclear (d.ch_notMem_clearRegs c off)⟩
  intro _ i k howns hunnamed
  exact hv i (hunnamed (hd.owner_ch hoff howns))

theorem Controller.WellFormed.wholeWord (hd : d.WellFormed) (hoff : off < dmaChannelOffset)
    (hnamed : ⟨d.ch c off, 0, 32⟩ ∈ named) (v : BitVec 32) :
    d.StoreFrames r c named ⟨d.ch c off, v⟩ := by
  refine hd.channelStore hoff ?_
  intro i hunnamed
  have hi : 32 ≤ i := by
    by_contra hlt
    exact hunnamed _ hnamed ⟨rfl, Nat.zero_le i, by simpa using hlt⟩
  rw [BitVec.getLsbD_of_ge _ _ hi, BitVec.getLsbD_of_ge _ _ hi]

theorem Controller.WellFormed.wholeWords (hd : d.WellFormed) (words : List (Nat × BitVec 32))
    (hoff : ∀ p ∈ words, p.1 < dmaChannelOffset) :
    d.Frames r c (words.map fun p => ⟨d.ch c p.1, 0, 32⟩)
      (words.map fun p => ⟨d.ch c p.1, p.2⟩) := by
  refine Controller.frames_of_stores ?_
  intro s hs
  obtain ⟨p, hp, rfl⟩ := List.mem_map.mp hs
  exact hd.wholeWord (hoff p hp) (List.mem_map.mpr ⟨p, hp, rfl⟩) p.2

theorem Controller.frames_single (h : d.StoreFrames r c named s) : d.Frames r c named [s] :=
  Controller.frames_of_stores (List.forall_mem_singleton.mpr h)

theorem Controller.WellFormed.oneBit (hd : d.WellFormed) (hoff : off < dmaChannelOffset)
    (hnamed : ⟨d.ch c off, j, 1⟩ ∈ named) (b : Bool) :
    d.StoreFrames r c named ⟨d.ch c off, setBit (r (d.ch c off)) j b⟩ := by
  refine hd.channelStore hoff ?_
  intro i hunnamed
  refine setBit_of_ne ?_ b
  rintro rfl
  exact hunnamed _ hnamed ⟨rfl, le_rfl, Nat.lt_succ_self i⟩

theorem setBits_of_ge {b b' b'' : Bool} (hi : 3 ≤ i) :
    (setBit (setBit (setBit w 0 b) 1 b') 2 b'').getLsbD i = w.getLsbD i := by
  rw [setBit_of_ne (by omega), setBit_of_ne (by omega), setBit_of_ne (by omega)]

theorem Controller.WellFormed.threeBits (hd : d.WellFormed) (hoff : off < dmaChannelOffset)
    (hnamed : ⟨d.ch c off, 0, 3⟩ ∈ named) {b b' b'' : Bool}
    (hw : ∀ i, 3 ≤ i → w.getLsbD i = (r (d.ch c off)).getLsbD i) :
    d.StoreFrames r c named ⟨d.ch c off, setBit (setBit (setBit w 0 b) 1 b') 2 b''⟩ := by
  refine hd.channelStore hoff ?_
  intro i hunnamed
  have hi : 3 ≤ i := by
    by_contra hlt
    exact hunnamed _ hnamed ⟨rfl, Nat.zero_le i, by simpa using hlt⟩
  rw [setBits_of_ge hi, hw i hi]

theorem Controller.WellFormed.clearStore (hd : d.WellFormed)
    (hoff : off = dmaIntTcClr ∨ off = dmaIntErrabtClr) :
    d.StoreFrames r c named ⟨d.base + off, 1#32 <<< c.val⟩ := by
  have hmem : d.base + off ∈ d.clearRegs := by
    rcases hoff with rfl | rfl
    · exact List.mem_cons_self
    · exact List.mem_cons_of_mem _ List.mem_cons_self
  have hsmall : off ≤ 0x10 := by
    rcases hoff with rfl | rfl
    · decide
    · decide
  refine ⟨⟨Nat.le_add_right _ _, Nat.add_lt_add_left (by omega) _⟩,
    fun hclear => absurd hmem hclear, ?_⟩
  intro _ i k howns hk
  have hkc : k.val ≠ c.val := fun h => hk (Fin.ext h)
  have hk8 := k.isLt
  have hc8 := c.isLt
  have hbit (hi : i < 32) (hne : c.val ≠ i) : (1#32 <<< c.val).getLsbD i = false := by
    rw [getLsbD_bit hi]
    exact beq_eq_false_iff_ne.mpr hne
  cases howns with
  | block hlo hhi =>
    simp only [Controller.ch, dmaChannel0Base, dmaChannelOffset] at hlo
    omega
  | bit _ _ _ hi => exact hbit (by omega) (by omega)
  | pair _ _ _ _ hi => exact hbit (by omega) (by omega)
  | word off' hoff' ha =>
    have hlow := (hd.arrays off' hoff').1
    dsimp only at ha
    omega

theorem Controller.WellFormed.clearStores (hd : d.WellFormed) :
    d.Frames r c named
      [⟨d.base + dmaIntTcClr, 1#32 <<< c.val⟩, ⟨d.base + dmaIntErrabtClr, 1#32 <<< c.val⟩] := by
  refine Controller.frames_of_stores (List.forall_mem_cons.mpr ⟨hd.clearStore (.inl rfl), ?_⟩)
  exact List.forall_mem_singleton.mpr (hd.clearStore (.inr rfl))

end NonOsLite.Dma
