import NonOsLite.Net.TftpRun
import NonOsLite.Lib.Coverage

namespace NonOsLite
open ByteBuf InputMachine Coverage

def eventInterval : Event → Option (Nat × Nat)
  | .storeBlock _ _ offset len => some (offset,len)
  | _ => none

def eventBlkSize : Event → Option Nat
  | .storeBlock _ blkSize _ _ => some blkSize
  | _ => none

def markInterval : Mark → Option (Nat × Nat)
  | .store _ _ offset len => some (offset,len)
  | _ => none

def NoHoles (s : Net) : Prop :=
  Covers (s.log.filterMap eventInterval) s.loop.netBootFileXferSize

def FixedBlkSize (log : List Event) : Prop :=
  ∃ blkSize, ∀ b ∈ log.filterMap eventBlkSize, b = blkSize

def OffsetsInRange (log : List Event) : Prop :=
  ∀ iv ∈ log.filterMap eventInterval, iv.1 + iv.2 < 4294967296

-- The number of a block in the whole transfer; a block 0 opens the next round of 65536 numbers.
def blockNumber (t : Tftp) (n : Nat) : Nat :=
  n + 65536 * (t.tftpBlockWrap + if n = 0 then 1 else 0)

-- A block that is going to be stored is at most the next one behind the whole blocks received.
def Receiver.Stimulus.Continues (s : Net) : Receiver.Stimulus → Prop
  | .msg (.data _ n _ _) => Receiver.awaitsFirst s.tftp = false → n ≠ s.tftp.tftpLastBlock →
      blockNumber s.tftp n ≤ s.loop.netBootFileXferSize / s.tftp.tftpBlkSize + 1
  | _ => True

def Continues (s : Net) (x : TftpInput) : Prop := (stimulus s.tftp x).Continues s

instance (s : Net) : (x : Receiver.Stimulus) → Decidable (x.Continues s)
  | .msg (.data _ n _ _) => inferInstanceAs (Decidable
      (Receiver.awaitsFirst s.tftp = false → n ≠ s.tftp.tftpLastBlock →
        blockNumber s.tftp n ≤ s.loop.netBootFileXferSize / s.tftp.tftpBlkSize + 1))
  | .msg .ignored | .msg (.oack _ _) | .msg (.error _) | .timeout =>
      inferInstanceAs (Decidable True)

instance (s : Net) (x : TftpInput) : Decidable (Continues s x) :=
  inferInstanceAs (Decidable ((stimulus s.tftp x).Continues s))

def Contiguous (r : Receiver) : Prop := Covers (r.marks.filterMap markInterval) r.size

variable {r : Receiver}

def Rounds (r : Receiver) : Prop :=
  Receiver.awaitsFirst r.tftp = false →
    u32 r.tftp.tftpBlockWrapOffset = u32 (65536 * r.tftp.tftpBlkSize * r.tftp.tftpBlockWrap)

structure Filled (r : Receiver) : Prop where
  contiguous : Contiguous r
  rounds : Rounds r

theorem toU32_le {z : Int} {m : Nat} (h : z % 4294967296 = (m : Int) % 4294967296) : toU32 z ≤ m := by
  simp only [toU32]
  omega

theorem storeOffset_countBlock {n : Nat}
    (h : u32 r.tftp.tftpBlockWrapOffset = u32 (65536 * r.tftp.tftpBlkSize * r.tftp.tftpBlockWrap)) :
    storeOffset (r.countBlock n).tftp ((n : Int) - 1) ≤
      (blockNumber r.tftp n - 1) * r.tftp.tftpBlkSize := by
  generalize hb : r.tftp.tftpBlkSize = b at h ⊢
  generalize hw : r.tftp.tftpBlockWrap = w at h
  refine toU32_le ?_
  rw [Receiver.countBlock_blkSize, hb, blockNumber, hw]
  by_cases hn : n = 0
  · have hoffset : (r.countBlock n).tftp.tftpBlockWrapOffset =
        u32 (r.tftp.tftpBlockWrapOffset + b * tftpSequenceSize) := by
      simp only [Receiver.countBlock, if_pos hn, hb]
    have hnumber : (n + 65536 * (w + if n = 0 then 1 else 0) - 1) * b + b =
        65536 * b * w + b * 65536 := by
      rw [if_pos hn, hn, ← Nat.succ_mul]
      have hpos : 0 + 65536 * (w + 1) - 1 + 1 = 65536 * (w + 1) := by omega
      rw [Nat.succ_eq_add_one, hpos]
      ring
    rw [hoffset, hn]
    rw [hn] at hnumber
    generalize 65536 * b * w = v at h hnumber
    generalize (0 + 65536 * (w + if 0 = 0 then 1 else 0) - 1) * b = m at hnumber ⊢
    simp only [u32, tftpSequenceSize] at h ⊢
    omega
  · have hoffset : (r.countBlock n).tftp.tftpBlockWrapOffset = r.tftp.tftpBlockWrapOffset := by
      simp only [Receiver.countBlock, if_neg hn]
    obtain ⟨k, rfl⟩ := Nat.exists_eq_succ_of_ne_zero hn
    have hnumber : (k.succ + 65536 * (w + if k.succ = 0 then 1 else 0) - 1) * b =
        k * b + 65536 * b * w := by
      rw [if_neg hn, Nat.add_zero, Nat.succ_add, Nat.succ_sub_one]
      ring
    have hindex : ((k.succ : Int) - 1) * b = (k * b : Nat) := by
      push_cast
      ring
    rw [hoffset, hnumber, hindex]
    generalize 65536 * b * w = v at h ⊢
    generalize k * b = m
    simp only [u32] at h
    omega

theorem Rounds.countBlock (h : Rounds r) (n : Nat) : Rounds (r.countBlock n) := by
  intro hf
  have hold := h (by simpa [Receiver.awaitsFirst] using hf)
  by_cases hn : n = 0
  · simp only [Receiver.countBlock, if_pos hn, tftpSequenceSize]
    have hnext : 65536 * r.tftp.tftpBlkSize * (r.tftp.tftpBlockWrap + 1) =
        65536 * r.tftp.tftpBlkSize * r.tftp.tftpBlockWrap + r.tftp.tftpBlkSize * 65536 := by ring
    have hwrap : u32 (65536 * r.tftp.tftpBlkSize * u32 (r.tftp.tftpBlockWrap + 1)) =
        u32 (65536 * r.tftp.tftpBlkSize * (r.tftp.tftpBlockWrap + 1)) := Nat.mul_mod_mod _ _ _
    rw [hwrap, hnext]
    simp only [u32] at hold ⊢
    omega
  · simpa only [Receiver.countBlock, if_neg hn] using hold

theorem Rounds.firstBlock (r : Receiver) (src : Nat) : Rounds (r.firstBlock src) := fun _ => rfl

theorem Rounds.newBlock (h : Rounds r) (payload : Buf) (len : Nat) :
    Rounds (r.newBlock payload len) := by
  unfold Receiver.newBlock
  extract_lets _ r₁ r₂
  split <;> exact h

theorem Rounds.step (h : Rounds r) (x : Receiver.Stimulus) : Rounds (r.step x) := by
  cases x with
  | timeout =>
    simp only [Receiver.step, Receiver.timeout]
    repeat' split
    all_goals exact h
  | msg m =>
    cases m with
    | ignored => exact h
    | oack src blkSize => exact fun hf => by cases hf
    | error code =>
      simp only [Receiver.step, Receiver.handle, Receiver.error]
      split <;> exact h
    | data src n payload len =>
      simp only [Receiver.step, Receiver.handle]
      rcases r.data_cases src n payload len with ⟨-, -, heq⟩ | ⟨-, -, heq⟩ | ⟨-, -, heq⟩ |
        ⟨-, -, heq⟩
      · exact heq ▸ Rounds.firstBlock _ src
      · exact heq ▸ (Rounds.firstBlock _ src).newBlock payload len
      · exact heq ▸ h.countBlock n
      · exact heq ▸ (h.countBlock n).newBlock payload len

theorem Contiguous.mark (h : Contiguous r) {m : Mark} (hm : markInterval m = none) :
    Covers ((m :: r.marks).filterMap markInterval) r.size := by
  rw [List.filterMap_cons_none hm]
  exact h

theorem sendMark_interval (t : Tftp) : markInterval (sendMark t) = none := by
  unfold sendMark
  split <;> rfl

theorem Contiguous.send (h : Contiguous r) : Contiguous r.send := h.mark (sendMark_interval _)

theorem Contiguous.newBlock (h : Contiguous r) (payload : Buf) (len : Nat)
    (hoff : storeOffset r.tftp ((r.tftp.tftpBlock : Int) - 1) ≤ r.size) :
    Contiguous (r.newBlock payload len) := by
  unfold Receiver.newBlock
  extract_lets _ r₁ r₂
  have h₁ : Contiguous (r₁.storeBlock ((r₁.tftp.tftpBlock : Int) - 1) payload len) :=
    Covers.extend h hoff (Nat.mod_le _ _)
  have h₂ : Contiguous r₂ := h₁.send
  split
  · exact h₂.mark rfl
  · exact h₂

theorem Contiguous.data (h : Contiguous r) (hr : Rounds r) (src n : Nat) (payload : Buf) (len : Nat)
    (hin : Receiver.awaitsFirst r.tftp = false → n ≠ r.tftp.tftpLastBlock →
      blockNumber r.tftp n ≤ r.size / r.tftp.tftpBlkSize + 1) :
    Contiguous (r.data src n payload len) := by
  have hc : Contiguous (r.countBlock n) := by
    rw [Contiguous, Receiver.countBlock_marks, Receiver.countBlock_size]
    exact h
  have hf : Contiguous ((r.countBlock n).firstBlock src) := hc.mark rfl
  rcases r.data_cases src n payload len with ⟨-, -, heq⟩ | ⟨-, h1, heq⟩ | ⟨-, -, heq⟩ |
    ⟨hf, hne, heq⟩
  · rw [heq]
    exact hf
  · rw [heq]
    refine hf.newBlock payload len ?_
    have hblock : ((r.countBlock n).firstBlock src).tftp.tftpBlock = 1 :=
      (Receiver.countBlock_block n).trans h1
    rw [hblock]
    simp [storeOffset, Receiver.firstBlock, toU32]
  · rw [heq]
    exact hc
  · rw [heq]
    refine hc.newBlock payload len ?_
    have hwhole : blockNumber r.tftp n - 1 ≤ r.size / r.tftp.tftpBlkSize :=
      Nat.sub_le_of_le_add (hin hf hne)
    rw [Receiver.countBlock_block, Receiver.countBlock_size]
    calc storeOffset (r.countBlock n).tftp ((n : Int) - 1)
        ≤ (blockNumber r.tftp n - 1) * r.tftp.tftpBlkSize := storeOffset_countBlock (hr hf)
      _ ≤ r.size / r.tftp.tftpBlkSize * r.tftp.tftpBlkSize := Nat.mul_le_mul_right _ hwhole
      _ ≤ r.size := Nat.div_mul_le_self _ _

theorem Contiguous.step {s : Net} {x : TftpInput} (hok : Continues s x)
    (h : Contiguous (receiver s)) (hr : Rounds (receiver s)) :
    Contiguous ((receiver s).step (stimulus s.tftp x)) := by
  unfold Continues at hok
  cases hx : stimulus s.tftp x with
  | timeout =>
    simp only [Receiver.step, Receiver.timeout]
    repeat' split
    · exact h
    · exact Contiguous.send h
    · exact h
  | msg m =>
    cases m with
    | ignored => exact h
    | oack src blkSize => exact Contiguous.send h
    | error code =>
      simp only [Receiver.step, Receiver.handle, Receiver.error]
      split <;> exact h
    | data src n payload len =>
      rw [hx] at hok
      exact h.data hr src n payload len hok

theorem Contiguous.start (s : Net) : Contiguous (receiver (tftpGetStart s)) := by
  obtain ⟨port, hr⟩ := receiver_tftpGetStart s
  rw [hr]
  exact covers_zero

theorem Rounds.start (s : Net) : Rounds (receiver (tftpGetStart s)) := by
  obtain ⟨port, hr⟩ := receiver_tftpGetStart s
  rw [hr]
  exact fun hf => by cases hf

theorem noHoles_of_contiguous {s : Net} (h : Contiguous (receiver s)) : NoHoles s := by
  have hintervals : (receiver s).marks.filterMap markInterval = s.log.filterMap eventInterval := by
    simp only [receiver, List.filterMap_filterMap]
    refine List.filterMap_congr ?_
    intro e _
    cases e with
    | tftpSend payload =>
      simp only [eventMark, payloadMark, Option.bind_some]
      split <;> rfl
    | _ => rfl
  rw [NoHoles, ← hintervals]
  exact h

theorem no_holes (s : Net) (xs : List TftpInput)
    (h : Meets tftpStep Continues (tftpGetStart s) xs) : NoHoles (tftpGet s xs) := by
  have hfilled : Filled (receiver (tftpGet s xs)) :=
    receiver_invariant (fun s => ⟨Contiguous.start s, Rounds.start s⟩)
      (fun _ _ hok hr => ⟨hr.contiguous.step hok hr.rounds, hr.rounds.step _⟩) h
  exact noHoles_of_contiguous hfilled.contiguous

def sampleTransfer : List TftpInput :=
  [sampleData 1 516, sampleData 2 516, sampleData 1 516, .timeout, sampleData 2 516,
    sampleData 3 104]

theorem no_holes_three_blocks : .tftpComplete ∈ (tftpGet sampleNet sampleTransfer).log ∧
    (tftpGet sampleNet sampleTransfer).loop.netBootFileXferSize = 1124 ∧
    NoHoles (tftpGet sampleNet sampleTransfer) :=
  ⟨by decide +kernel, by decide +kernel, no_holes _ _ (by decide +kernel)⟩

theorem holes_skipped_block : ¬∀ s xs, .tftpComplete ∈ (tftpGet s xs).log →
    FixedBlkSize (tftpGet s xs).log → OffsetsInRange (tftpGet s xs).log → NoHoles (tftpGet s xs) := by
  intro h
  have hintervals : (tftpGet sampleNet [sampleData 1 516, sampleData 3 4]).log.filterMap
      eventInterval = [(1024, 0), (0, 512)] := by decide +kernel
  have hsize : (tftpGet sampleNet [sampleData 1 516, sampleData 3 4]).loop.netBootFileXferSize =
      1024 := by decide +kernel
  have hcover := h sampleNet [sampleData 1 516, sampleData 3 4] (by decide +kernel)
    ⟨512, by decide +kernel⟩ (by rw [OffsetsInRange, hintervals]; decide)
  rw [NoHoles, hintervals, hsize] at hcover
  exact not_covers (i := 512) (by decide) (by decide) hcover

end NonOsLite
