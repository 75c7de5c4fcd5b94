import NonOsLite.Net.TftpRun
import NonOsLite.Net.Oack
import NonOsLite.Lib.Blocks

namespace NonOsLite
open ByteBuf InputMachine

-- One file on a lock-step server, with the block size of the session.
structure Upload where
  file : List UInt8
  blkSize : Nat
  opts : Option (List OackOption)
  blkSize_pos : 0 < blkSize
  blkSize_lt : blkSize < 65536
  opts_value : ∀ o v, opts = some o → .blksize v ∈ o → v.value = blkSize
  opts_length : ∀ o, opts = some o → (oackBody o).length < 65536
  granted : (∃ o v, opts = some o ∧ .blksize v ∈ o) ∨ blkSize = tftpBlockSize

namespace Upload
variable (u : Upload)

def blocks : Nat := Blocks.count u.blkSize u.file

def dataBlock (n : Nat) : List UInt8 := Blocks.block u.blkSize u.file (n - 1)

def dataDatagram (n : Nat) : List UInt8 :=
  [0, 3, UInt8.ofNat (n % 65536 / 256), UInt8.ofNat (n % 65536)] ++ u.dataBlock n

def extent (n : Nat) : Nat := min (n * u.blkSize) u.file.length

end Upload

-- The client, the last block the server has sent, and whether an ACK for it left the client since.
structure World where
  client : Net
  sent : Nat
  acked : Bool

inductive ChannelAction where
  | oack (pkt : Buf) (dest : Nat) (sip : IPaddr) (src : Nat)
  | data (n : Nat) (pkt : Buf) (dest : Nat) (sip : IPaddr) (src : Nat)
  | timeout
  | serverSend

def ackCount (s : Net) (n : Nat) : Nat := (s.log.filterMap eventMark).count (.ack (n % 65536))

def deliver (w : World) (x : TftpInput) : World where
  client := tftpStep w.client x
  sent := w.sent
  acked := w.acked || ackCount w.client w.sent < ackCount (tftpStep w.client x) w.sent

variable (u : Upload)

def worldStep (w : World) : ChannelAction → World
  | .oack pkt dest sip src =>
      deliver w (.datagram pkt dest sip src ((u.opts.map oackDatagram).getD []).length)
  | .data n pkt dest sip src =>
      deliver w (.datagram pkt dest sip src (u.dataDatagram n).length)
  | .timeout => deliver w .timeout
  | .serverSend => { w with sent := w.sent + 1, acked := false }

def worldStart (s : Net) : World where
  client := tftpGetStart s
  sent := 0
  acked := u.opts.isNone

-- The channel delivers, at any time and any number of times, what the server has sent so far. The
-- buffer behind the datagram is left over from earlier frames.
def Enabled (w : World) : ChannelAction → Prop
  | .oack pkt _ _ _ => ∃ o ∈ u.opts, StartsWith pkt (oackDatagram o)
  | .data n pkt _ _ _ => 1 ≤ n ∧ n ≤ w.sent ∧ StartsWith pkt (u.dataDatagram n)
  | .timeout => True
  | .serverSend => w.acked = true ∧ w.sent < u.blocks

-- Of the datagrams the client accepts: no OACK once data flows; and there a block is either the
-- last one again, under a number other than 0, or one of the round of 65536 numbers it counts.
def InRound (w : World) : ChannelAction → Prop
  | .oack _ dest _ src =>
      Accepted w.client.tftp dest src ((u.opts.map oackDatagram).getD []).length →
        w.client.tftp.tftpState ≠ .data
  | .data n _ dest _ src => Accepted w.client.tftp dest src (u.dataDatagram n).length →
      w.client.tftp.tftpState = .data →
      (n % 65536 ≠ 0 ∧ n % 65536 = w.client.tftp.tftpLastBlock) ∨
        w.client.tftp.tftpBlockWrap + (if n % 65536 = 0 then 1 else 0) = n / 65536
  | _ => True

instance (w : World) : (a : ChannelAction) → Decidable (Enabled u w a)
  | .oack pkt _ _ _ =>
    inferInstanceAs (Decidable (∃ o ∈ u.opts, StartsWith pkt (oackDatagram o)))
  | .data n pkt _ _ _ =>
    inferInstanceAs (Decidable (1 ≤ n ∧ n ≤ w.sent ∧ StartsWith pkt (u.dataDatagram n)))
  | .timeout => inferInstanceAs (Decidable True)
  | .serverSend => inferInstanceAs (Decidable (w.acked = true ∧ w.sent < u.blocks))

instance (w : World) : (a : ChannelAction) → Decidable (InRound u w a)
  | .oack _ dest _ src => inferInstanceAs (Decidable
      (Accepted w.client.tftp dest src ((u.opts.map oackDatagram).getD []).length →
        w.client.tftp.tftpState ≠ .data))
  | .data n _ dest _ src => inferInstanceAs (Decidable
      (Accepted w.client.tftp dest src (u.dataDatagram n).length →
        w.client.tftp.tftpState = .data →
        (n % 65536 ≠ 0 ∧ n % 65536 = w.client.tftp.tftpLastBlock) ∨
          w.client.tftp.tftpBlockWrap + (if n % 65536 = 0 then 1 else 0) = n / 65536))
  | .timeout | .serverSend => inferInstanceAs (Decidable True)

def Received (s : Net) : Prop :=
  (∀ i < u.file.length, s.memory (s.cfg.loadAddr + i) = u.file.getD i 0) ∧
    s.loop.netBootFileXferSize = u.file.length

-- Blocks 1..m are in memory and block t was the last one stored.
structure Progress (loadAddr : Nat) (r : Receiver) (m t : Nat) : Prop where
  addr : r.loadAddr = loadAddr
  last_le : t ≤ m
  blocks_le : m ≤ u.blocks
  round : t / 65536 = m / 65536
  wrapped : t % 65536 = 0 → t = m
  state : r.tftp.tftpState = .sendRrq ∨ r.tftp.tftpState = .oack ∨ r.tftp.tftpState = .data
  waiting : r.tftp.tftpState ≠ .data → m = 0
  block : r.tftp.tftpBlock = t % 65536
  lastBlock : r.tftp.tftpState = .data → r.tftp.tftpLastBlock = t % 65536
  wrap : r.tftp.tftpState = .data → r.tftp.tftpBlockWrap = t / 65536
  wrapOffset : r.tftp.tftpState = .data →
    r.tftp.tftpBlockWrapOffset = u32 (t / 65536 * 65536 * u.blkSize)
  unasked : r.tftp.tftpState = .sendRrq → r.tftp.tftpBlkSize = tftpBlockSize
  asked : r.tftp.tftpState ≠ .sendRrq → r.tftp.tftpBlkSize = u.blkSize
  size : r.size = u.extent m
  memory : ∀ i < u.extent m, r.memory (loadAddr + i) = u.file.getD i 0
  complete : .complete ∈ r.marks → m = u.blocks

variable {u} {loadAddr m t n : Nat} {r : Receiver}

theorem ack_stored {sent : Nat} (hle : t ≤ m) (hround : t / 65536 = m / 65536)
    (hwrapped : t % 65536 = 0 → t = m) (hsent : sent ≤ m + 1)
    (hack : t % 65536 = sent % 65536) : sent ≤ m := by
  by_contra hgt
  obtain rfl : sent = m + 1 := by omega
  by_cases h0 : t % 65536 = 0
  · have := hwrapped h0
    omega
  · omega

theorem Upload.dataBlock_end (h1 : 1 ≤ n) (hn : n ≤ u.blocks) :
    (n - 1) * u.blkSize + (u.dataBlock n).length = u.extent n := by
  have hend := Blocks.block_end (b := u.blkSize) (l := u.file) (k := n - 1)
    (by rw [Upload.blocks] at hn; omega)
  rwa [Nat.sub_add_cancel h1] at hend

theorem Upload.dataBlock_short (h1 : 1 ≤ n) (hn : n ≤ u.blocks) :
    (u.dataBlock n).length < u.blkSize ↔ n = u.blocks := by
  have hshort := Blocks.block_short_iff (l := u.file) (k := n - 1) u.blkSize_pos
    (by rw [Upload.blocks] at hn; omega)
  rwa [Nat.sub_add_cancel h1] at hshort

theorem Upload.extent_blocks : u.extent u.blocks = u.file.length :=
  Nat.min_eq_right (Nat.le_of_lt (Blocks.count_mul_gt u.blkSize_pos))

theorem Upload.extent_mono {a b : Nat} (h : a ≤ b) : u.extent a ≤ u.extent b := by
  have := Nat.mul_le_mul_right u.blkSize h
  simp only [Upload.extent]
  omega

theorem Upload.extent_le (n : Nat) : u.extent n ≤ u.file.length := Nat.min_le_right _ _

theorem Progress.send (h : Progress u loadAddr r m t) : Progress u loadAddr r.send m t := by
  refine { h with complete := ?_ }
  intro hc
  rcases List.mem_cons.mp hc with hc | hc
  · unfold sendMark at hc
    split at hc <;> cases hc
  · exact h.complete hc

theorem Progress.finish (h : Progress u loadAddr r m t) (hm : m = u.blocks) :
    Progress u loadAddr r.complete m t :=
  { h with complete := fun _ => hm }

theorem storeOffset_block {c : Tftp} (hblock : c.tftpBlock = n % 65536)
    (hoff : c.tftpBlockWrapOffset = u32 (n / 65536 * 65536 * c.tftpBlkSize)) (h1 : 1 ≤ n)
    (hlt : (n - 1) * c.tftpBlkSize < 4294967296) :
    storeOffset c ((c.tftpBlock : Int) - 1) = (n - 1) * c.tftpBlkSize := by
  have hsplit : ((n % 65536 : Nat) : Int) - 1 =
      ((n - 1 : Nat) : Int) - ((n / 65536 * 65536 : Nat) : Int) := by omega
  have hsum : (((n % 65536 : Nat) : Int) - 1) * c.tftpBlkSize =
      (((n - 1) * c.tftpBlkSize : Nat) : Int) -
        ((n / 65536 * 65536 * c.tftpBlkSize : Nat) : Int) := by
    rw [hsplit, Int.sub_mul]
    push_cast
    rfl
  rw [storeOffset, hblock, hsum, hoff]
  generalize n / 65536 * 65536 * c.tftpBlkSize = w
  generalize (n - 1) * c.tftpBlkSize = a at hlt ⊢
  simp only [toU32, u32]
  omega

structure Ready (u : Upload) (loadAddr : Nat) (c : Receiver) (m n : Nat) : Prop where
  addr : c.loadAddr = loadAddr
  first : 1 ≤ n
  next : n ≤ m + 1
  blocks_le : m ≤ u.blocks
  block_le : n ≤ u.blocks
  round : n / 65536 = max m n / 65536
  wrapped : n % 65536 = 0 → m ≤ n
  state : c.tftp.tftpState = .data
  block : c.tftp.tftpBlock = n % 65536
  wrap : c.tftp.tftpBlockWrap = n / 65536
  wrapOffset : c.tftp.tftpBlockWrapOffset = u32 (n / 65536 * 65536 * u.blkSize)
  blkSize : c.tftp.tftpBlkSize = u.blkSize
  size : c.size = u.extent m
  memory : ∀ i < u.extent m, c.memory (loadAddr + i) = u.file.getD i 0
  complete : .complete ∈ c.marks → m = u.blocks

theorem Ready.memory_copy {c : Receiver} (h : Ready u loadAddr c m n) {payload : Buf}
    (hp : StartsWith payload (u.dataBlock n)) {i : Nat} (hi : i < u.extent (max m n)) :
    copy c.memory (loadAddr + (n - 1) * u.blkSize) payload (u.dataBlock n).length (loadAddr + i) =
      u.file.getD i 0 := by
  have hend := u.dataBlock_end h.first h.block_le
  by_cases hin : (n - 1) * u.blkSize ≤ i ∧ i < u.extent n
  · obtain ⟨j, rfl⟩ : ∃ j, i = (n - 1) * u.blkSize + j := ⟨i - (n - 1) * u.blkSize, by omega⟩
    have hj : j < (u.dataBlock n).length := by omega
    rw [← Nat.add_assoc, copy_inside _ _ _ hj, hp.getD hj 0]
    exact Blocks.block_getD 0 hj
  · have hold : i < u.extent m := by
      by_cases hmn : n ≤ m
      · rwa [Nat.max_eq_left hmn] at hi
      · rw [Nat.max_eq_right (by omega)] at hi
        have hstart : (n - 1) * u.blkSize ≤ u.extent m := by
          have hfile : (n - 1) * u.blkSize ≤ u.file.length :=
            Nat.le_trans (Nat.le_add_right _ _) (hend.trans_le (u.extent_le n))
          obtain rfl : m = n - 1 := by have := h.next; omega
          exact Nat.le_min.mpr ⟨Nat.le_refl _, hfile⟩
        omega
    rw [← h.memory i hold]
    by_cases hlow : i < (n - 1) * u.blkSize
    · exact copy_of_lt (by omega)
    · exact copy_of_ge (by omega)

theorem Ready.offset {c : Receiver} (h : Ready u loadAddr c m n)
    (hfit : u.file.length < 4294967296) :
    storeOffset c.tftp ((c.tftp.tftpBlock : Int) - 1) = (n - 1) * u.blkSize := by
  have hend := u.dataBlock_end h.first h.block_le
  have hext := u.extent_le n
  rw [← h.blkSize]
  exact storeOffset_block h.block (by rw [h.blkSize]; exact h.wrapOffset) h.first
    (by rw [h.blkSize]; omega)

theorem Ready.extent_max {c : Receiver} (h : Ready u loadAddr c m n)
    (hfit : u.file.length < 4294967296) :
    max c.size (u32 ((n - 1) * u.blkSize + (u.dataBlock n).length)) = u.extent (max m n) := by
  have hext := u.extent_le n
  rw [u.dataBlock_end h.first h.block_le, u32_of_lt (by omega), h.size]
  rcases Nat.le_total m n with hmn | hmn
  · rw [Nat.max_eq_right hmn, Nat.max_eq_right (u.extent_mono hmn)]
  · rw [Nat.max_eq_left hmn, Nat.max_eq_left (u.extent_mono hmn)]

theorem Ready.newBlock {c : Receiver} (h : Ready u loadAddr c m n) {payload : Buf}
    (hp : StartsWith payload (u.dataBlock n)) (hfit : loadAddr + u.file.length < 4294967296) :
    Progress u loadAddr (c.newBlock payload (u.dataBlock n).length) (max m n) n := by
  have hend := u.dataBlock_end h.first h.block_le
  have hext := u.extent_le n
  have haddr : u32 (c.loadAddr + (n - 1) * u.blkSize) = loadAddr + (n - 1) * u.blkSize := by
    rw [h.addr]
    exact u32_of_lt (by omega)
  unfold Receiver.newBlock
  extract_lets _ r₁ r₂
  have hoff₁ : storeOffset r₁.tftp ((r₁.tftp.tftpBlock : Int) - 1) = (n - 1) * u.blkSize :=
    h.offset (by omega)
  have h₁ : Progress u loadAddr (r₁.storeBlock ((r₁.tftp.tftpBlock : Int) - 1) payload
      (u.dataBlock n).length) (max m n) n := by
    refine {
      addr := h.addr
      last_le := Nat.le_max_right _ _
      blocks_le := Nat.max_le.mpr ⟨h.blocks_le, h.block_le⟩
      round := h.round
      wrapped := fun h0 => (Nat.max_eq_right (h.wrapped h0)).symm
      state := Or.inr (Or.inr h.state)
      waiting := fun hs => absurd h.state hs
      block := h.block
      lastBlock := fun _ => h.block
      wrap := fun _ => h.wrap
      wrapOffset := fun _ => h.wrapOffset
      unasked := fun hs => absurd (h.state.symm.trans hs) (by decide)
      asked := fun _ => h.blkSize
      size := ?_
      memory := ?_
      complete := ?_ }
    · simp only [Receiver.storeBlock, hoff₁]
      exact h.extent_max (by omega)
    · intro i hi
      simp only [Receiver.storeBlock, hoff₁]
      rw [show u32 (r₁.loadAddr + (n - 1) * u.blkSize) = loadAddr + (n - 1) * u.blkSize from haddr]
      exact h.memory_copy hp hi
    · intro hc
      rcases List.mem_cons.mp hc with hc | hc
      · cases hc
      · have hm := h.complete hc
        have := h.block_le
        omega
  have h₂ : Progress u loadAddr r₂ (max m n) n := h₁.send
  have hblk : r₂.tftp.tftpBlkSize = u.blkSize := h.blkSize
  rw [hblk]
  split
  · rename_i hshort
    have hlast := (u.dataBlock_short h.first h.block_le).mp hshort
    have := h.blocks_le
    exact h₂.finish (by omega)
  · exact h₂

theorem Progress.first (h : Progress u loadAddr r 0 t) (src : Nat) (hb : 1 ≤ u.blocks)
    (hblk : r.tftp.tftpBlkSize = u.blkSize) :
    Ready u loadAddr ((r.countBlock 1).firstBlock src) 0 1 where
  addr := (Receiver.countBlock_loadAddr 1).trans h.addr
  first := Nat.le_refl _
  next := Nat.le_refl _
  blocks_le := Nat.zero_le _
  block_le := hb
  round := rfl
  wrapped := fun _ => Nat.zero_le _
  state := rfl
  block := Receiver.countBlock_block (r := r) 1
  wrap := rfl
  wrapOffset := by simp [Receiver.firstBlock, u32]
  blkSize := (Receiver.countBlock_blkSize 1).trans hblk
  size := (Receiver.countBlock_size 1).trans h.size
  memory := by
    intro i hi
    simp [Upload.extent] at hi
  complete := by
    intro hc
    rcases List.mem_cons.mp hc with hc | hc
    · cases hc
    · rw [Receiver.countBlock_marks] at hc
      exact h.complete hc

theorem Progress.countBlock_wrap (h : Progress u loadAddr r m t) (hstate : r.tftp.tftpState = .data)
    (hb : n ≤ u.blocks)
    (hround : r.tftp.tftpBlockWrap + (if n % 65536 = 0 then 1 else 0) = n / 65536)
    (hfile : u.file.length < 4294967296) :
    (r.countBlock (n % 65536)).tftp.tftpBlockWrap = n / 65536 ∧
      (r.countBlock (n % 65536)).tftp.tftpBlockWrapOffset =
        u32 (n / 65536 * 65536 * u.blkSize) := by
  have hwrap := h.wrap hstate
  have hoff := h.wrapOffset hstate
  have hblk := h.asked (by rw [hstate]; decide)
  have hepoch := h.round
  simp only [Receiver.countBlock]
  by_cases h0 : n % 65536 = 0
  · rw [if_pos h0] at hround
    have hq : n / 65536 = t / 65536 + 1 := by omega
    have hcount : u.blocks ≤ u.file.length + 1 := Nat.succ_le_succ (Nat.div_le_self _ _)
    have hmul : (t / 65536 + 1) * 65536 * u.blkSize =
        t / 65536 * 65536 * u.blkSize + u.blkSize * 65536 := by ring
    rw [if_pos h0, hwrap, hoff, hblk, hq, hmul]
    generalize t / 65536 * 65536 * u.blkSize = a
    refine ⟨u32_of_lt (by omega), ?_⟩
    simp only [u32, tftpSequenceSize]
    omega
  · rw [if_neg h0] at hround ⊢
    have hq : n / 65536 = t / 65536 := by omega
    exact ⟨by rw [hq]; exact hwrap, by rw [hq]; exact hoff⟩

theorem Progress.next (h : Progress u loadAddr r m t) (hstate : r.tftp.tftpState = .data)
    (h1 : 1 ≤ n) (hn : n ≤ m + 1) (hb : n ≤ u.blocks)
    (hround : r.tftp.tftpBlockWrap + (if n % 65536 = 0 then 1 else 0) = n / 65536)
    (hfile : u.file.length < 4294967296) :
    Ready u loadAddr (r.countBlock (n % 65536)) m n := by
  have hwrap := h.wrap hstate
  have hblk := h.asked (by rw [hstate]; decide)
  have hepoch := h.round
  have hcount := h.countBlock_wrap hstate hb hround hfile
  exact {
    addr := (Receiver.countBlock_loadAddr _).trans h.addr
    first := h1
    next := hn
    blocks_le := h.blocks_le
    block_le := hb
    round := by
      rcases Nat.le_total m n with hmn | hmn
      · rw [Nat.max_eq_right hmn]
      · rw [Nat.max_eq_left hmn]
        split at hround <;> omega
    wrapped := by
      intro h0
      rw [if_pos h0] at hround
      omega
    state := (Receiver.countBlock_state _).trans hstate
    block := Receiver.countBlock_block _
    wrap := hcount.1
    wrapOffset := hcount.2
    blkSize := (Receiver.countBlock_blkSize _).trans hblk
    size := (Receiver.countBlock_size _).trans h.size
    memory := by
      rw [Receiver.countBlock_memory]
      exact h.memory
    complete := by
      rw [Receiver.countBlock_marks]
      exact h.complete }

theorem Progress.repeated (h : Progress u loadAddr r m t) (h0 : t % 65536 ≠ 0) :
    Progress u loadAddr (r.countBlock (t % 65536)) m t := by
  simp only [Receiver.countBlock, if_neg h0]
  exact { h with block := rfl }

theorem Progress.data (h : Progress u loadAddr r m t) (src : Nat) {payload : Buf}
    (hp : StartsWith payload (u.dataBlock n)) (h1 : 1 ≤ n) (hn : n ≤ m + 1) (hb : n ≤ u.blocks)
    (hblk : r.tftp.tftpBlkSize = u.blkSize) (hfit : loadAddr + u.file.length < 4294967296)
    (hround : r.tftp.tftpState = .data →
      (n % 65536 ≠ 0 ∧ n % 65536 = r.tftp.tftpLastBlock) ∨
        r.tftp.tftpBlockWrap + (if n % 65536 = 0 then 1 else 0) = n / 65536) :
    ∃ m' t', m ≤ m' ∧
      Progress u loadAddr (r.data src (n % 65536) payload (u.dataBlock n).length) m' t' := by
  have waits (hf : Receiver.awaitsFirst r.tftp = true) : m = 0 := by
    apply h.waiting
    intro hs
    simp [Receiver.awaitsFirst, hs] at hf
  rcases r.data_cases src (n % 65536) payload (u.dataBlock n).length with ⟨hf, hne, -⟩ |
    ⟨hf, -, heq⟩ | ⟨hf, hdup, heq⟩ | ⟨hf, hne, heq⟩
  · have := waits hf
    omega
  · obtain rfl := waits hf
    obtain rfl : n = 1 := by omega
    rw [heq]
    exact ⟨_, _, Nat.le_max_left _ _, (h.first src hb hblk).newBlock hp hfit⟩
  · have hstate := Receiver.data_of_not_awaits hf h.state
    have hlast := h.lastBlock hstate
    have h0 : n % 65536 ≠ 0 := by
      rcases hround hstate with ⟨h0, -⟩ | hr
      · exact h0
      · -- a block 0 after block t with the same number would be 65536 blocks ahead of it
        intro h0
        have hw := h.wrap hstate
        have ht := h.wrapped (by omega)
        rw [if_pos h0] at hr
        omega
    rw [heq, hdup, hlast]
    exact ⟨m, t, Nat.le_refl _, h.repeated (by omega)⟩
  · have hstate := Receiver.data_of_not_awaits hf h.state
    have hr := (hround hstate).resolve_left (fun hd => hne hd.2)
    rw [heq]
    exact ⟨_, _, Nat.le_max_left _ _, (h.next hstate h1 hn hb hr (by omega)).newBlock hp hfit⟩

theorem Progress.oack (h : Progress u loadAddr r m t) (src : Nat) (hs : r.tftp.tftpState ≠ .data) :
    Progress u loadAddr (r.oack src u.blkSize) m t := by
  have hm := h.waiting hs
  have hdata : TftpState.oack ≠ .data := by decide
  have hrrq : TftpState.oack ≠ .sendRrq := by decide
  exact Progress.send { h with
    state := Or.inr (Or.inl rfl)
    waiting := fun _ => hm
    lastBlock := fun hd => absurd hd hdata
    wrap := fun hd => absurd hd hdata
    wrapOffset := fun hd => absurd hd hdata
    unasked := fun hd => absurd hd hrrq
    asked := fun _ => rfl }

theorem Progress.timeout (h : Progress u loadAddr r m t) : Progress u loadAddr r.timeout m t := by
  unfold Receiver.timeout
  extract_lets _ r₁ r₂
  have h₁ : Progress u loadAddr r₁ m t := { h with }
  have h₂ : Progress u loadAddr r₂ m t := { h with }
  split
  · exact h₁
  · split
    · exact h₂.send
    · exact h₂

structure WorldInv (u : Upload) (loadAddr : Nat) (w : World) (m t : Nat) : Prop where
  progress : Progress u loadAddr (receiver w.client) m t
  sent_next : w.sent ≤ m + 1
  sent_le : w.sent ≤ u.blocks
  acked : w.acked = true → w.sent ≤ m
  unanswered : w.client.tftp.tftpState = .sendRrq → u.opts ≠ none → w.sent = 0 ∧ w.acked = false

variable {w : World} {m' t' : Nat}

theorem WorldInv.deliver (h : WorldInv u loadAddr w m t) {x : TftpInput} (hm : m ≤ m')
    (hp : Progress u loadAddr ((receiver w.client).step (stimulus w.client.tftp x)) m' t') :
    WorldInv u loadAddr (deliver w x) m' t' := by
  have hr := receiver_tftpStep w.client x
  obtain ⟨new, hacks⟩ := (receiver w.client).step_acks (stimulus w.client.tftp x)
  rw [← hr] at hp hacks
  have hnew : w.acked = false → (NonOsLite.deliver w x).acked = true →
      .ack (w.sent % 65536) ∈ new := by
    intro h0 h1
    have hmarks : (tftpStep w.client x).log.filterMap eventMark =
        new ++ w.client.log.filterMap eventMark := hacks.marks
    simp only [NonOsLite.deliver, h0, Bool.false_or, decide_eq_true_eq, ackCount, hmarks,
      List.count_append] at h1
    exact List.count_pos_iff.mp (by omega)
  have hsent := h.sent_next
  refine ⟨hp, ?_, h.sent_le, ?_, ?_⟩
  · exact Nat.le_trans hsent (by omega)
  · intro hacked
    cases h0 : w.acked with
    | true => exact Nat.le_trans (h.acked h0) hm
    | false =>
      have hblock := hacks.block _ (hnew h0 hacked)
      rw [hp.block, u16, Nat.mod_mod] at hblock
      exact ack_stored hp.last_le hp.round hp.wrapped (Nat.le_trans hsent (by omega)) hblock.symm
  · intro hs ho
    have hs₁ : (receiver (tftpStep w.client x)).tftp.tftpState = .sendRrq := hs
    rw [hr] at hs₁
    have hs₀ : w.client.tftp.tftpState = .sendRrq := Receiver.step_asked _ hs₁
    obtain ⟨h0, hfalse⟩ := h.unanswered hs₀ ho
    refine ⟨h0, ?_⟩
    rw [← Bool.not_eq_true]
    intro hacked
    exact hacks.asked _ (hnew hfalse hacked) hs

theorem tftpMsg_oackDatagram {t : Tftp} {pkt : Buf} {o : List OackOption} {dest src : Nat}
    (h : StartsWith pkt (oackDatagram o)) (hacc : Accepted t dest src (oackDatagram o).length) :
    tftpMsg t pkt dest src (oackDatagram o).length =
      .oack src (tftpOackBlkSize (shift pkt 2) (oackBody o).length t.tftpBlkSize) := by
  have hop : be16 pkt 0 = tftpOACK := by
    have h0 := h.getD (i := 0) (by simp [oackDatagram]) 0
    have h1 := h.getD (i := 1) (by simp [oackDatagram]) 0
    simp [oackDatagram] at h0 h1
    simp [be16, h0, h1, tftpOACK]
  have hlen : (oackDatagram o).length - 2 = (oackBody o).length := by simp [oackDatagram]
  rw [hacc.tftpMsg, if_pos hop, hlen]

theorem tftpMsg_dataDatagram {t : Tftp} {pkt : Buf} {dest src : Nat}
    (h : StartsWith pkt (u.dataDatagram n))
    (hacc : Accepted t dest src (u.dataDatagram n).length) :
    tftpMsg t pkt dest src (u.dataDatagram n).length =
      .data src (n % 65536) (shift pkt 4) (u.dataBlock n).length := by
  have h0 := h.getD (i := 0) (by simp [Upload.dataDatagram]) 0
  have h1 := h.getD (i := 1) (by simp [Upload.dataDatagram]) 0
  have h2 := h.getD (i := 2) (by simp [Upload.dataDatagram]) 0
  have h3 := h.getD (i := 3) (by simp [Upload.dataDatagram]) 0
  simp [Upload.dataDatagram] at h0 h1 h2 h3
  have hop : be16 pkt 0 = tftpDATA := by simp [be16, h0, h1, tftpDATA]
  have hblock : be16 pkt 2 = n % 65536 := by
    simp only [be16, h2, h3, UInt8.toNat_ofNat']
    omega
  have hlen : (u.dataDatagram n).length = (u.dataBlock n).length + 4 := by
    simp [Upload.dataDatagram]
  have hoack : be16 pkt 0 ≠ tftpOACK := by
    rw [hop]
    decide
  rw [hacc.tftpMsg, if_neg hoack, if_pos hop, if_neg (by omega), hblock, hlen,
    Nat.add_sub_cancel]

theorem WorldInv.oack (h : WorldInv u loadAddr w m t) {o : List OackOption} {pkt : Buf}
    (dest : Nat) (sip : IPaddr) (src : Nat) (ho : u.opts = some o)
    (hp : StartsWith pkt (oackDatagram o))
    (hs : Accepted w.client.tftp dest src (oackDatagram o).length →
      w.client.tftp.tftpState ≠ .data) :
    WorldInv u loadAddr (NonOsLite.deliver w (.datagram pkt dest sip src (oackDatagram o).length))
      m t := by
  apply h.deliver (Nat.le_refl m)
  simp only [stimulus, Receiver.step]
  by_cases hacc : Accepted w.client.tftp dest src (oackDatagram o).length
  · have hbody : StartsWith (shift pkt 2) (oackBody o) := (startsWith_append.mp hp).2
    have hlen := u.opts_length o ho
    have hvalue : tftpOackBlkSize (shift pkt 2) (oackBody o).length w.client.tftp.tftpBlkSize =
        u.blkSize := by
      refine tftpOackBlkSize_options hbody (by omega) u.blkSize_lt
        (fun v hv => u.opts_value o v ho hv) ?_
      rcases u.granted with ⟨o', v, ho', hv⟩ | hdefault
      · rw [ho] at ho'
        cases ho'
        exact Or.inl ⟨v, hv⟩
      · refine Or.inr ?_
        by_cases hrrq : w.client.tftp.tftpState = .sendRrq
        · rw [hdefault]
          exact h.progress.unasked hrrq
        · exact h.progress.asked hrrq
    rw [tftpMsg_oackDatagram hp hacc, hvalue]
    exact h.progress.oack src (hs hacc)
  · rw [tftpMsg_refused hacc]
    exact h.progress

theorem WorldInv.data (h : WorldInv u loadAddr w m t) {pkt : Buf} (dest : Nat) (sip : IPaddr)
    (src : Nat) (h1 : 1 ≤ n) (hn : n ≤ w.sent) (hp : StartsWith pkt (u.dataDatagram n))
    (hfit : loadAddr + u.file.length < 4294967296)
    (hround : InRound u w (.data n pkt dest sip src)) :
    ∃ m' t', WorldInv u loadAddr
      (NonOsLite.deliver w (.datagram pkt dest sip src (u.dataDatagram n).length)) m' t' := by
  have hsent := h.sent_next
  have hblocks := h.sent_le
  have hblk : (receiver w.client).tftp.tftpBlkSize = u.blkSize := by
    by_cases hrrq : w.client.tftp.tftpState = .sendRrq
    · -- a server that grants options sends no block before the client has seen them
      have hnone : u.opts = none := by
        by_contra ho
        have := (h.unanswered hrrq ho).1
        omega
      rcases u.granted with ⟨o, v, ho, -⟩ | hdefault
      · rw [hnone] at ho
        cases ho
      · rw [hdefault]
        exact h.progress.unasked hrrq
    · exact h.progress.asked hrrq
  by_cases hacc : Accepted w.client.tftp dest src (u.dataDatagram n).length
  · obtain ⟨m', t', hle, hprog⟩ := h.progress.data src (startsWith_append.mp hp).2 h1
      (by omega) (by omega) hblk hfit (hround hacc)
    refine ⟨m', t', h.deliver hle ?_⟩
    simp only [stimulus, Receiver.step, tftpMsg_dataDatagram hp hacc]
    exact hprog
  · refine ⟨m, t, h.deliver (Nat.le_refl m) ?_⟩
    simp only [stimulus, Receiver.step, tftpMsg_refused hacc]
    exact h.progress

theorem WorldInv.serverSend (h : WorldInv u loadAddr w m t) (hacked : w.acked = true)
    (hsent : w.sent < u.blocks) :
    WorldInv u loadAddr { w with sent := w.sent + 1, acked := false } m t where
  progress := h.progress
  sent_next := Nat.succ_le_succ (h.acked hacked)
  sent_le := hsent
  acked := fun hf => absurd hf (by simp)
  unanswered := by
    intro hs ho
    have := (h.unanswered hs ho).2
    simp [hacked] at this

theorem WorldInv.step (h : WorldInv u loadAddr w m t) {a : ChannelAction}
    (hfit : loadAddr + u.file.length < 4294967296) (hen : Enabled u w a) (hin : InRound u w a) :
    ∃ m' t', WorldInv u loadAddr (worldStep u w a) m' t' := by
  cases a with
  | oack pkt dest sip src =>
    obtain ⟨o, ho, hp⟩ := hen
    have hlen : ((u.opts.map oackDatagram).getD []).length = (oackDatagram o).length := by
      rw [Option.mem_def.mp ho]
      rfl
    refine ⟨m, t, ?_⟩
    rw [InRound, hlen] at hin
    rw [worldStep, hlen]
    exact h.oack dest sip src (Option.mem_def.mp ho) hp hin
  | data n pkt dest sip src => exact h.data dest sip src hen.1 hen.2.1 hen.2.2 hfit hin
  | timeout => exact ⟨m, t, h.deliver (Nat.le_refl m) h.progress.timeout⟩
  | serverSend => exact ⟨m, t, h.serverSend hen.1 hen.2⟩

theorem WorldInv.start (u : Upload) (s : Net) :
    WorldInv u s.cfg.loadAddr (worldStart u s) 0 0 := by
  obtain ⟨port, hr⟩ := receiver_tftpGetStart s
  have hdata : TftpState.sendRrq ≠ .data := by decide
  refine ⟨?_, Nat.zero_le _, Nat.zero_le _, fun _ => Nat.le_refl _, ?_⟩
  · simp only [worldStart, hr]
    exact {
      addr := rfl
      last_le := Nat.le_refl _
      blocks_le := Nat.zero_le _
      round := rfl
      wrapped := fun _ => rfl
      state := Or.inl rfl
      waiting := fun _ => rfl
      block := rfl
      lastBlock := fun hd => absurd hd hdata
      wrap := fun hd => absurd hd hdata
      wrapOffset := fun hd => absurd hd hdata
      unasked := fun _ => rfl
      asked := fun hs => absurd rfl hs
      size := by simp [Upload.extent]
      memory := by
        intro i hi
        simp [Upload.extent] at hi
      complete := by
        intro hc
        cases hc with
        | tail _ hc => cases hc }
  · intro _ ho
    cases hopts : u.opts with
    | none => exact absurd hopts ho
    | some o => simp [worldStart, hopts]

theorem received_of_complete (h : WorldInv u w.client.cfg.loadAddr w m t)
    (hc : .tftpComplete ∈ w.client.log) : Received u w.client := by
  have hmark : .complete ∈ (receiver w.client).marks := List.mem_filterMap.mpr ⟨_, hc, rfl⟩
  have hm := h.progress.complete hmark
  have hext : u.extent m = u.file.length := by rw [hm, Upload.extent_blocks]
  exact ⟨fun i hi => h.progress.memory i (hext ▸ hi), h.progress.size.trans hext⟩

theorem download_intact (u : Upload) (s : Net) (xs : List ChannelAction)
    (hfit : s.cfg.loadAddr + u.file.length < 4294967296)
    (h : Meets (worldStep u) (fun w a => Enabled u w a ∧ InRound u w a) (worldStart u s) xs)
    (hc : .tftpComplete ∈ (run (worldStep u) (worldStart u s) xs).client.log) :
    Received u (run (worldStep u) (worldStart u s) xs).client := by
  have hp : Preserves (worldStep u) (fun w a => Enabled u w a ∧ InRound u w a)
      (fun w => ∃ m t, WorldInv u s.cfg.loadAddr w m t) := by
    rintro w a ⟨hen, hin⟩ ⟨m, t, hw⟩
    exact hw.step hfit hen hin
  obtain ⟨m, t, hw⟩ := hp.run ⟨0, 0, WorldInv.start u s⟩ h
  have haddr : s.cfg.loadAddr = _ := hw.progress.addr.symm
  rw [haddr] at hw
  exact received_of_complete hw hc

def sampleUpload : Upload where
  file := (List.range 20).map fun i => UInt8.ofNat (i + 1)
  blkSize := 8
  opts := some [.blksize ⟨ascii "8", by decide, by decide +kernel⟩]
  blkSize_pos := by decide
  blkSize_lt := by decide
  opts_value := by
    rintro _ v ⟨⟩ hv
    rw [List.mem_singleton] at hv
    cases hv
    decide
  opts_length := by
    rintro _ ⟨⟩
    decide
  granted := Or.inl ⟨_, _, rfl, List.mem_singleton.mpr rfl⟩

def sampleOack : ChannelAction :=
  .oack (store (fun _ => 0) 0 ((sampleUpload.opts.map oackDatagram).getD [])) 1024
    (stringToIp (ascii "10.0.0.128")) 32768

def sampleBlock (n : Nat) : ChannelAction :=
  .data n (store (fun _ => 0) 0 (sampleUpload.dataDatagram n)) 1024
    (stringToIp (ascii "10.0.0.128")) 32768

theorem download_intact_three_blocks :
    Received sampleUpload (run (worldStep sampleUpload) (worldStart sampleUpload sampleNet)
      [sampleOack, .serverSend, sampleBlock 1, sampleBlock 1, .serverSend, sampleBlock 2, .timeout,
        .serverSend, sampleBlock 3]).client :=
  download_intact _ _ _ (by decide) (by decide +kernel) (by decide +kernel)

-- The OACK comes twice; the second one makes the client wait for block 1 again, so it turns block 2
-- away, and a timeout acknowledges it.
theorem download_hole : ¬∀ (u : Upload) (s : Net) (xs : List ChannelAction),
    s.cfg.loadAddr + u.file.length < 4294967296 →
    Meets (worldStep u) (Enabled u) (worldStart u s) xs →
    .tftpComplete ∈ (run (worldStep u) (worldStart u s) xs).client.log →
    Received u (run (worldStep u) (worldStart u s) xs).client := by
  intro h
  have hr := h sampleUpload sampleNet
    [sampleOack, .serverSend, sampleBlock 1, sampleOack, .serverSend, sampleBlock 2, .timeout,
      .serverSend, sampleBlock 3] (by decide) (by decide +kernel) (by decide +kernel)
  exact absurd (hr.1 8 (by decide)) (by decide +kernel)

end NonOsLite
