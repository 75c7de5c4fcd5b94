import NonOsLite.Net.Effects

namespace NonOsLite
open ByteBuf

-- A datagram as the protocol sees it, after the checks on ports, length and opcode.
inductive TftpMsg where
  | ignored
  | oack (src blkSize : Nat)
  | data (src block : Nat) (payload : Buf) (len : Nat)
  | error (code : Nat)

inductive Mark where
  | ack (n : Nat)
  | request
  | store (block blkSize offset len : Nat)
  | newTransfer
  | complete
deriving DecidableEq, Repr

-- The receiving side of a transfer: no frames, no ARP, no clock.
structure Receiver where
  loadAddr : Nat
  tftp : Tftp
  netState : NetLoopState
  size : Nat
  timeHandler : Option THand
  memory : Buf
  marks : List Mark

def ackBytes (n : Nat) : List UInt8 := [0, 4, UInt8.ofNat (n / 256), UInt8.ofNat n]

def payloadMark : List UInt8 → Mark
  | [0, 4, a, b] => .ack (256 * a.toNat + b.toNat)
  | _ => .request

def eventMark : Event → Option Mark
  | .tftpSend payload => some (payloadMark payload)
  | .storeBlock block blkSize offset len => some (.store block blkSize offset len)
  | .newTransfer => some .newTransfer
  | .tftpComplete => some .complete
  | _ => none

def receiver (s : Net) : Receiver where
  loadAddr := s.cfg.loadAddr
  tftp := { s.tftp with timeStart := 0 }
  netState := s.loop.netState
  size := s.loop.netBootFileXferSize
  timeHandler := s.loop.timeHandler
  memory := s.memory
  marks := s.log.filterMap eventMark

def tftpMsg (t : Tftp) (pkt : Buf) (dest src len : Nat) : TftpMsg :=
  if dest ≠ t.tftpOurPort then .ignored
  else if t.tftpState ≠ .sendRrq ∧ src ≠ t.tftpRemotePort ∧
      t.tftpState ≠ .recvWrq ∧ t.tftpState ≠ .sendWrq then .ignored
  else if len < 2 then .ignored
  else if be16 pkt 0 = tftpOACK then
    .oack src (tftpOackBlkSize (shift pkt 2) (len - 2) t.tftpBlkSize)
  else if be16 pkt 0 = tftpDATA then
    if len < 4 then .ignored else .data src (be16 pkt 2) (shift pkt 4) (len - 4)
  else if be16 pkt 0 = tftpERROR then .error (be16 pkt 2)
  else .ignored

structure Accepted (t : Tftp) (dest src len : Nat) : Prop where
  port : dest = t.tftpOurPort
  server : t.tftpState = .sendRrq ∨ src = t.tftpRemotePort ∨ t.tftpState = .recvWrq ∨
    t.tftpState = .sendWrq
  long : 2 ≤ len

instance (t : Tftp) (dest src len : Nat) : Decidable (Accepted t dest src len) :=
  decidable_of_iff (dest = t.tftpOurPort ∧ (t.tftpState = .sendRrq ∨ src = t.tftpRemotePort ∨
    t.tftpState = .recvWrq ∨ t.tftpState = .sendWrq) ∧ 2 ≤ len)
    ⟨fun h => ⟨h.1, h.2.1, h.2.2⟩, fun h => ⟨h.port, h.server, h.long⟩⟩

def sendMark (t : Tftp) : Mark :=
  match t.tftpState with
  | .oack | .recvWrq | .data => .ack (u16 t.tftpBlock)
  | _ => .request

namespace Receiver

def send (r : Receiver) : Receiver := { r with marks := sendMark r.tftp :: r.marks }

def oack (r : Receiver) (src blkSize : Nat) : Receiver :=
  send { r with
    tftp.tftpState := .oack
    tftp.tftpRemotePort := src
    tftp.tftpBlkSize := blkSize }

def countBlock (r : Receiver) (block : Nat) : Receiver :=
  let r := { r with tftp.tftpBlock := block }
  if block = 0 then
    { r with
      tftp.tftpBlockWrap := u32 (r.tftp.tftpBlockWrap + 1)
      tftp.tftpBlockWrapOffset :=
        u32 (r.tftp.tftpBlockWrapOffset + r.tftp.tftpBlkSize * tftpSequenceSize)
      tftp.tftpTimeoutCount := 0 }
  else r

def firstBlock (r : Receiver) (src : Nat) : Receiver :=
  { r with
    tftp.tftpState := .data
    tftp.tftpRemotePort := src
    tftp.tftpLastBlock := 0
    tftp.tftpBlockWrap := 0
    tftp.tftpBlockWrapOffset := 0
    marks := .newTransfer :: r.marks }

def storeBlock (r : Receiver) (block : Int) (src : Buf) (len : Nat) : Receiver :=
  let offset := storeOffset r.tftp block
  { r with
    memory := copy r.memory (u32 (r.loadAddr + offset)) src len
    size := max r.size (u32 (offset + len))
    marks := .store (toU32 (block + 1)) r.tftp.tftpBlkSize offset len :: r.marks }

def complete (r : Receiver) : Receiver :=
  { r with netState := .netloopSuccess, marks := .complete :: r.marks }

def newBlock (r : Receiver) (payload : Buf) (len : Nat) : Receiver :=
  let r := { r with
    tftp.tftpLastBlock := r.tftp.tftpBlock
    tftp.tftpTimeoutCountMax := timeoutCount
    timeHandler := some .tftpTimeout }
  let r := (r.storeBlock ((r.tftp.tftpBlock : Int) - 1) payload len).send
  if len < r.tftp.tftpBlkSize then r.complete else r

def acceptBlock (r : Receiver) (payload : Buf) (len : Nat) : Receiver :=
  if r.tftp.tftpBlock = r.tftp.tftpLastBlock then r else r.newBlock payload len

def awaitsFirst (t : Tftp) : Bool :=
  t.tftpState == .sendRrq || t.tftpState == .oack || t.tftpState == .recvWrq

def data (r : Receiver) (src block : Nat) (payload : Buf) (len : Nat) : Receiver :=
  if awaitsFirst r.tftp then
    let r := (r.countBlock block).firstBlock src
    if block ≠ 1 then r else r.acceptBlock payload len
  else (r.countBlock block).acceptBlock payload len

def error (r : Receiver) (code : Nat) : Receiver :=
  if code = tftpErrFileNotFound ∨ code = tftpErrAccessDenied then
    { r with netState := .netloopFail }
  else r

def handle (r : Receiver) : TftpMsg → Receiver
  | .ignored => r
  | .oack src blkSize => r.oack src blkSize
  | .data src block payload len => r.data src block payload len
  | .error code => r.error code

def timeout (r : Receiver) : Receiver :=
  let r := { r with tftp.tftpTimeoutCount := r.tftp.tftpTimeoutCount + 1 }
  if r.tftp.tftpTimeoutCountMax < r.tftp.tftpTimeoutCount then r
  else
    let r := { r with timeHandler := some .tftpTimeout }
    if r.tftp.tftpState ≠ .recvWrq then r.send else r

variable {r : Receiver}

@[simp] theorem countBlock_marks (n : Nat) : (r.countBlock n).marks = r.marks := by
  simp only [countBlock]
  split <;> rfl

@[simp] theorem countBlock_size (n : Nat) : (r.countBlock n).size = r.size := by
  simp only [countBlock]
  split <;> rfl

@[simp] theorem countBlock_memory (n : Nat) : (r.countBlock n).memory = r.memory := by
  simp only [countBlock]
  split <;> rfl

@[simp] theorem countBlock_netState (n : Nat) : (r.countBlock n).netState = r.netState := by
  simp only [countBlock]
  split <;> rfl

@[simp] theorem countBlock_timeHandler (n : Nat) :
    (r.countBlock n).timeHandler = r.timeHandler := by
  simp only [countBlock]
  split <;> rfl

@[simp] theorem countBlock_state (n : Nat) :
    (r.countBlock n).tftp.tftpState = r.tftp.tftpState := by
  simp only [countBlock]
  split <;> rfl

@[simp] theorem countBlock_block (n : Nat) : (r.countBlock n).tftp.tftpBlock = n := by
  simp only [countBlock]
  split <;> rfl

@[simp] theorem countBlock_lastBlock (n : Nat) :
    (r.countBlock n).tftp.tftpLastBlock = r.tftp.tftpLastBlock := by
  simp only [countBlock]
  split <;> rfl

@[simp] theorem countBlock_loadAddr (n : Nat) : (r.countBlock n).loadAddr = r.loadAddr := by
  simp only [countBlock]
  split <;> rfl

@[simp] theorem countBlock_blkSize (n : Nat) :
    (r.countBlock n).tftp.tftpBlkSize = r.tftp.tftpBlkSize := by
  simp only [countBlock]
  split <;> rfl

theorem data_cases (r : Receiver) (src n : Nat) (payload : Buf) (len : Nat) :
    (awaitsFirst r.tftp = true ∧ n ≠ 1 ∧
      r.data src n payload len = (r.countBlock n).firstBlock src) ∨
    (awaitsFirst r.tftp = true ∧ n = 1 ∧
      r.data src n payload len = ((r.countBlock n).firstBlock src).newBlock payload len) ∨
    (awaitsFirst r.tftp = false ∧ n = r.tftp.tftpLastBlock ∧
      r.data src n payload len = r.countBlock n) ∨
    (awaitsFirst r.tftp = false ∧ n ≠ r.tftp.tftpLastBlock ∧
      r.data src n payload len = (r.countBlock n).newBlock payload len) := by
  cases hf : awaitsFirst r.tftp with
  | true =>
    by_cases h1 : n = 1
    · refine Or.inr (Or.inl ⟨rfl, h1, ?_⟩)
      have hne : ((r.countBlock n).firstBlock src).tftp.tftpBlock ≠
          ((r.countBlock n).firstBlock src).tftp.tftpLastBlock := by
        simp [firstBlock, h1]
      simp only [data, hf, if_true, h1, ne_eq, not_true_eq_false, if_false]
      rw [acceptBlock, if_neg (h1 ▸ hne)]
    · refine Or.inl ⟨rfl, h1, ?_⟩
      simp only [data, hf, if_true, ne_eq, h1, not_false_eq_true]
  | false =>
    by_cases hdup : n = r.tftp.tftpLastBlock
    · refine Or.inr (Or.inr (Or.inl ⟨rfl, hdup, ?_⟩))
      simp only [data, hf, Bool.false_eq_true, if_false, acceptBlock]
      rw [if_pos (by simpa using hdup)]
    · refine Or.inr (Or.inr (Or.inr ⟨rfl, hdup, ?_⟩))
      simp only [data, hf, Bool.false_eq_true, if_false, acceptBlock]
      rw [if_neg (by simpa using hdup)]

theorem data_of_not_awaits (h : awaitsFirst r.tftp = false)
    (hs : r.tftp.tftpState = .sendRrq ∨ r.tftp.tftpState = .oack ∨ r.tftp.tftpState = .data) :
    r.tftp.tftpState = .data := by
  rcases hs with hs | hs | hs
  · simp [awaitsFirst, hs] at h
  · simp [awaitsFirst, hs] at h
  · exact hs

end Receiver

variable {s t : Net}

theorem payloadMark_ackBytes {n : Nat} (h : n < 65536) : payloadMark (ackBytes n) = .ack n := by
  simp only [payloadMark, ackBytes, UInt8.toNat_ofNat']
  congr 1
  omega

theorem eventMark_complete {e : Event} (h : eventMark e = some .complete) : e = .tftpComplete := by
  cases e with
  | tftpComplete => rfl
  | tftpSend payload =>
    simp only [eventMark, Option.some.injEq] at h
    unfold payloadMark at h
    split at h <;> cases h
  | _ => cases h

theorem eventMark_store {e : Event} {n blkSize offset len : Nat}
    (h : eventMark e = some (.store n blkSize offset len)) :
    e = .storeBlock n blkSize offset len := by
  cases e with
  | storeBlock n' blkSize' offset' len' =>
    cases h
    rfl
  | tftpSend payload =>
    simp only [eventMark, Option.some.injEq] at h
    unfold payloadMark at h
    split at h <;> cases h
  | _ => cases h

theorem filterMap_marks (s : Net) :
    s.log.filterMap eventMark = (marks s).filterMap eventMark := by
  rw [marks, List.filterMap_filter]
  refine List.filterMap_congr ?_
  intro e _
  cases e <;> rfl

theorem Sends.receiver_eq (h : Sends s t) : receiver t = receiver s := by
  simp only [receiver, filterMap_marks, h.cfg, h.tftp, h.loop, h.memory, h.marks]

theorem putBe16_of_lt {b : Buf} {off v i : Nat} (h : i < off) : putBe16 b off v i = b i :=
  store_of_lt h

theorem putBe16_high (b : Buf) (off v : Nat) : putBe16 b off v off = UInt8.ofNat (v / 256) :=
  store_inside b off [UInt8.ofNat (v / 256), UInt8.ofNat v] (i := 0) (by simp)

theorem putBe16_low (b : Buf) (off v : Nat) : putBe16 b off v (off + 1) = UInt8.ofNat v :=
  store_inside b off [UInt8.ofNat (v / 256), UInt8.ofNat v] (i := 1) (by simp)

theorem strcpy_of_lt {b : Buf} {off i : Nat} {str : List UInt8} (h : i < off) :
    strcpy b off str i = b i :=
  store_of_lt h

theorem sprintf_of_lt {b : Buf} {off i : Nat} {fmt : List UInt8} {args : List Stdio.Arg}
    (h : i < off) : (sprintf b off fmt args).1 i = b i := by
  simp only [sprintf]
  exact mapFrom_of_lt h

theorem bytes_four (b : Buf) (off : Nat) :
    bytes (shift b off) 4 = [b off, b (off + 1), b (off + 2), b (off + 3)] := by
  simp [bytes, List.range_succ]

theorem payloadMark_of_second {payload : List UInt8} (h : payload[1]? ≠ some 4) :
    payloadMark payload = .request := by
  unfold payloadMark
  split
  · simp at h
  · rfl

theorem ackPacket_startsWith (b : Buf) (xp n : Nat) :
    StartsWith (shift (putBe16 (putBe16 b xp tftpACK) (xp + 2) n) xp) (ackBytes n) := by
  have hbytes : bytes (shift (putBe16 (putBe16 b xp tftpACK) (xp + 2) n) xp) 4 = ackBytes n := by
    rw [bytes_four, putBe16_of_lt (by omega), putBe16_high, putBe16_of_lt (by omega),
      putBe16_low, putBe16_high, putBe16_low]
    rfl
  exact hbytes

theorem tftpPacket_mark (t : Tftp) (b : Buf) (xp : Nat) :
    payloadMark (bytes (shift (tftpPacket t b xp).1 xp) (tftpPacket t b xp).2) = sendMark t := by
  -- every opcode but ACK differs from it in its second byte
  have other (b : Buf) (len : Nat) (h : b (xp + 1) ≠ 4) :
      payloadMark (bytes (shift b xp) len) = .request := by
    apply payloadMark_of_second
    by_cases hl : 1 < len
    · rw [bytes_getElem? hl]
      simpa using h
    · rw [List.getElem?_eq_none (by rw [bytes_length]; omega)]
      simp
  have ack : payloadMark (bytes (shift (putBe16 (putBe16 b xp tftpACK) (xp + 2) (u16 t.tftpBlock)) xp)
      4) = .ack (u16 t.tftpBlock) := by
    have hbytes : bytes (shift (putBe16 (putBe16 b xp tftpACK) (xp + 2) (u16 t.tftpBlock)) xp) 4 =
        ackBytes (u16 t.tftpBlock) := ackPacket_startsWith b xp (u16 t.tftpBlock)
    rw [hbytes, payloadMark_ackBytes (u16_lt _)]
  have request (b : Buf) (len : Nat) (h : b (xp + 1) = 1) :
      payloadMark (bytes (shift b xp) len) = .request :=
    other b len (by rw [h]; decide)
  cases h : t.tftpState with
  | none => simp [tftpPacket, sendMark, h, bytes, payloadMark]
  | sendRrq | sendWrq =>
    simp only [tftpPacket, sendMark, h]
    apply request
    simp only [tftpRequest]
    rw [sprintf_of_lt (by omega), sprintf_of_lt (by omega), strcpy_of_lt (by omega),
      strcpy_of_lt (by omega), strcpy_of_lt (by omega), putBe16_low]
    rfl
  | data | oack | recvWrq =>
    simp only [tftpPacket, sendMark, h]
    exact ack
  | tooLarge | badMagic =>
    simp only [tftpPacket, sendMark, h]
    apply other
    rw [strcpy_of_lt (by omega), putBe16_of_lt (by omega), putBe16_low]
    decide

def tftpPayload (s : Net) : List UInt8 :=
  let xp := netEthHdrSize s.cfg + ipUdpHdrSize
  let packet := tftpPacket s.tftp s.tx.netTxPacket xp
  bytes (shift packet.1 xp) packet.2

theorem tftpSend_sends (s : Net) :
    Sends (emitEvent s (.tftpSend (tftpPayload s))) (tftpSend s) := by
  unfold tftpSend
  refine Sends.trans ?_ (netSendUdpPacket_sends _ _ _ _ _ _)
  exact sends_set _ _ _

theorem receiver_tftpSend (s : Net) : receiver (tftpSend s) = (receiver s).send := by
  rw [(tftpSend_sends s).receiver_eq]
  simp only [receiver, emitEvent, Receiver.send, List.filterMap_cons, eventMark, tftpPayload,
    tftpPacket_mark]
  rfl

theorem tftpSend_tftp (s : Net) : (tftpSend s).tftp = s.tftp := (tftpSend_sends s).tftp

theorem receiver_netSetTimeout (s : Net) {iv : Nat} (f : THand) (h : iv ≠ 0) :
    receiver (netSetTimeout s iv f) = { receiver s with timeHandler := some f } := by
  simp only [netSetTimeout, if_neg h]
  rfl

theorem receiver_updateBlockNumber (s : Net) (block : Nat) :
    receiver (updateBlockNumber { s with tftp.tftpBlock := block }) =
      (receiver s).countBlock block := by
  simp only [updateBlockNumber, Receiver.countBlock]
  by_cases h : block = 0
  · rw [if_pos h, if_pos h]
    rfl
  · rw [if_neg h, if_neg h]
    rfl

theorem receiver_storeBlock (s : Net) (block : Int) (src : Buf) (len : Nat) :
    receiver (storeBlock s block src len) = (receiver s).storeBlock block src len := by
  have hmax (a b : Nat) : (if a < b then b else a) = max a b := by
    rw [Nat.max_def]
    split_ifs <;> omega
  simp only [storeBlock, hmax]
  rfl

theorem receiver_tftpComplete (s : Net) : receiver (tftpComplete s) = (receiver s).complete := by
  simp only [receiver, tftpComplete, netSetState, emitEvent, tick, Receiver.complete,
    List.filterMap_cons, eventMark]

theorem receiver_finish (s : Net) (len : Nat) :
    receiver (if len < s.tftp.tftpBlkSize then tftpComplete s else s) =
      if len < (receiver s).tftp.tftpBlkSize then (receiver s).complete else receiver s := by
  rw [apply_ite receiver, receiver_tftpComplete]
  rfl

theorem receiver_newBlock (s : Net) (pkt : Buf) (len : Nat) :
    receiver (tftpNewBlock s pkt len) = (receiver s).newBlock (shift pkt 2) len := by
  simp only [tftpNewBlock]
  generalize hs₁ : netSetTimeout _ tftpTimeoutMSecs THand.tftpTimeout = s₁
  have h₁ := congrArg receiver hs₁
  rw [receiver_netSetTimeout _ _ (by decide)] at h₁
  have hblock : s₁.tftp.tftpBlock = s.tftp.tftpBlock :=
    congrArg (fun r => r.tftp.tftpBlock) h₁.symm
  rw [receiver_finish, receiver_tftpSend, receiver_storeBlock, hblock, ← h₁]
  rfl

theorem receiver_acceptBlock (s : Net) (pkt : Buf) (len : Nat) :
    receiver (tftpAcceptBlock s pkt len) = (receiver s).acceptBlock (shift pkt 2) len := by
  rw [tftpAcceptBlock, apply_ite receiver, receiver_newBlock]
  rfl

theorem receiver_dataHandler (s : Net) (pkt : Buf) (src len : Nat) :
    receiver (tftpDataHandler s pkt src len) =
      if len < 2 then receiver s
      else (receiver s).data src (be16 pkt 0) (shift pkt 2) (len - 2) := by
  simp only [tftpDataHandler]
  by_cases hlen : len < 2
  · rw [if_pos hlen, if_pos hlen]
  · rw [if_neg hlen, if_neg hlen]
    have hcount := receiver_updateBlockNumber s (be16 pkt 0)
    generalize updateBlockNumber _ = s₁ at hcount ⊢
    have hstate : s₁.tftp.tftpState = s.tftp.tftpState := by
      have hproj := congrArg (fun r => r.tftp.tftpState) hcount
      simp only [Receiver.countBlock] at hproj
      split at hproj <;> exact hproj
    have hblock : s₁.tftp.tftpBlock = be16 pkt 0 := by
      have hproj := congrArg (fun r => r.tftp.tftpBlock) hcount
      simp only [Receiver.countBlock] at hproj
      split at hproj <;> exact hproj
    have hfirst : receiver (newTransfer { s₁ with
        tftp.tftpState := .data, tftp.tftpRemotePort := src }) = (receiver s₁).firstBlock src := rfl
    have hnet : (s₁.tftp.tftpState = .sendRrq ∨ s₁.tftp.tftpState = .oack ∨
        s₁.tftp.tftpState = .recvWrq) ↔ Receiver.awaitsFirst (receiver s).tftp = true := by
      rw [hstate]
      simp [Receiver.awaitsFirst, receiver, or_assoc]
    simp only [Receiver.data]
    by_cases hf : Receiver.awaitsFirst (receiver s).tftp = true
    · rw [if_pos (hnet.mpr hf), if_pos hf, apply_ite receiver, receiver_acceptBlock, hfirst, hcount]
      simp only [newTransfer, emitEvent, hblock]
    · rw [if_neg (mt hnet.mp hf), if_neg hf, receiver_acceptBlock, hcount]

theorem receiver_oackHandler (s : Net) (pkt : Buf) (src len : Nat) :
    receiver (tftpOackHandler s pkt src len) =
      (receiver s).oack src (tftpOackBlkSize pkt len s.tftp.tftpBlkSize) :=
  receiver_tftpSend _

theorem receiver_errorHandler (s : Net) (pkt : Buf) :
    receiver (tftpErrorHandler s pkt) = (receiver s).error (be16 pkt 0) := by
  rw [tftpErrorHandler, apply_ite receiver]
  rfl

section accepted

variable {T : Tftp} {pkt : Buf} {dest src len : Nat} {sip : IPaddr}

theorem Accepted.passes (h : Accepted T dest src len) :
    ¬(T.tftpState ≠ .sendRrq ∧ src ≠ T.tftpRemotePort ∧ T.tftpState ≠ .recvWrq ∧
      T.tftpState ≠ .sendWrq) := by
  have hserver := h.server
  tauto

theorem Accepted.tftpMsg (h : Accepted T dest src len) :
    tftpMsg T pkt dest src len =
      if be16 pkt 0 = tftpOACK then
        .oack src (tftpOackBlkSize (shift pkt 2) (len - 2) T.tftpBlkSize)
      else if be16 pkt 0 = tftpDATA then
        if len < 4 then .ignored else .data src (be16 pkt 2) (shift pkt 4) (len - 4)
      else if be16 pkt 0 = tftpERROR then .error (be16 pkt 2)
      else .ignored := by
  rw [NonOsLite.tftpMsg, if_neg (not_not.mpr h.port), if_neg h.passes,
    if_neg (Nat.not_lt.mpr h.long)]

theorem tftpMsg_refused (h : ¬Accepted T dest src len) : tftpMsg T pkt dest src len = .ignored := by
  unfold tftpMsg
  split
  · rfl
  · split
    · rfl
    · split
      · rfl
      · refine absurd ⟨not_not.mp ‹_›, ?_, Nat.not_lt.mp ‹_›⟩ h
        tauto

theorem tftpHandler_accepted (h : Accepted s.tftp dest src len) :
    tftpHandler s pkt dest sip src len =
      if be16 pkt 0 = tftpOACK then tftpOackHandler s (shift pkt 2) src (len - 2)
      else if be16 pkt 0 = tftpDATA then tftpDataHandler s (shift pkt 2) src (len - 2)
      else if be16 pkt 0 = tftpERROR then tftpErrorHandler s (shift pkt 2)
      else s := by
  rw [tftpHandler, if_neg (not_not.mpr h.port), if_neg h.passes, if_neg (Nat.not_lt.mpr h.long)]

theorem tftpHandler_refused (h : ¬Accepted s.tftp dest src len) :
    tftpHandler s pkt dest sip src len = s := by
  unfold tftpHandler
  split
  · rfl
  · split
    · rfl
    · split
      · rfl
      · refine absurd ⟨not_not.mp ‹_›, ?_, Nat.not_lt.mp ‹_›⟩ h
        tauto

end accepted

theorem receiver_tftpHandler (s : Net) (pkt : Buf) (dest : Nat) (sip : IPaddr) (src len : Nat) :
    receiver (tftpHandler s pkt dest sip src len) =
      (receiver s).handle (tftpMsg s.tftp pkt dest src len) := by
  by_cases h : Accepted s.tftp dest src len
  · have hshort : len - 2 < 2 ↔ len < 4 := by omega
    have hlen : len - 2 - 2 = len - 4 := by omega
    rw [tftpHandler_accepted h, h.tftpMsg]
    simp only [apply_ite receiver, apply_ite (receiver s).handle, receiver_oackHandler,
      receiver_dataHandler, receiver_errorHandler, be16_shift, shift_shift, hshort, hlen]
    rfl
  · rw [tftpHandler_refused h, tftpMsg_refused h]
    rfl

structure IsData (pkt : Buf) (src len : Nat) (src' n : Nat) (payload : Buf) (len' : Nat) : Prop where
  src_eq : src' = src
  block_eq : n = be16 pkt 2
  payload_eq : payload = shift pkt 4
  len_eq : len' = len - 4
  long : 4 ≤ len

theorem tftpMsg_data {t : Tftp} {pkt payload : Buf} {dest src src' len len' n : Nat}
    (h : tftpMsg t pkt dest src len = .data src' n payload len') :
    IsData pkt src len src' n payload len' := by
  unfold tftpMsg at h
  repeat' split at h
  all_goals cases h
  exact ⟨rfl, rfl, rfl, rfl, by omega⟩

theorem IsData.block_lt {pkt payload : Buf} {src src' len len' n : Nat}
    (h : IsData pkt src len src' n payload len') : n < 65536 :=
  h.block_eq ▸ be16_lt _ _

namespace Receiver

theorem newBlock_marks (r : Receiver) (payload : Buf) (len : Nat) :
    ∃ t n blkSize offset,
      (r.newBlock payload len).marks = sendMark t :: .store n blkSize offset len :: r.marks ∨
      (r.newBlock payload len).marks =
        .complete :: sendMark t :: .store n blkSize offset len :: r.marks := by
  unfold newBlock
  extract_lets _ r₁ r₂
  split
  · exact ⟨_, _, _, _, Or.inr rfl⟩
  · exact ⟨_, _, _, _, Or.inl rfl⟩

theorem newBlock_store {r : Receiver} {payload : Buf} {len n blkSize offset k : Nat}
    (h : .store n blkSize offset k ∈ (r.newBlock payload len).marks) :
    .store n blkSize offset k ∈ r.marks ∨ k = len := by
  have hsend (t : Tftp) : Mark.store n blkSize offset k ≠ sendMark t := by
    unfold sendMark
    split <;> simp
  obtain ⟨t, n', blkSize', offset', hmarks | hmarks⟩ := r.newBlock_marks payload len
  · simp only [hmarks, List.mem_cons, hsend, false_or, Mark.store.injEq] at h
    exact h.symm.imp_right fun heq => heq.2.2.2
  · simp only [hmarks, List.mem_cons, hsend, false_or, reduceCtorEq, Mark.store.injEq] at h
    exact h.symm.imp_right fun heq => heq.2.2.2

theorem handle_store {r : Receiver} {m : TftpMsg} {n blkSize offset k : Nat}
    (h : .store n blkSize offset k ∈ (r.handle m).marks) :
    .store n blkSize offset k ∈ r.marks ∨ ∃ src block payload, m = .data src block payload k := by
  cases m with
  | ignored => exact Or.inl h
  | oack src blkSize' =>
    refine Or.inl ((List.mem_cons.mp h).resolve_left ?_)
    unfold sendMark
    split <;> simp
  | error code =>
    simp only [handle, error] at h
    split at h <;> exact Or.inl h
  | data src block payload len =>
    simp only [handle] at h
    have hfirst (hmem : .store n blkSize offset k ∈ ((r.countBlock block).firstBlock src).marks) :
        .store n blkSize offset k ∈ r.marks := by
      simpa [firstBlock] using hmem
    rcases r.data_cases src block payload len with ⟨-, -, heq⟩ | ⟨-, -, heq⟩ | ⟨-, -, heq⟩ |
      ⟨-, -, heq⟩
    · rw [heq] at h
      exact Or.inl (hfirst h)
    · rw [heq] at h
      rcases newBlock_store h with hold | rfl
      · exact Or.inl (hfirst hold)
      · exact Or.inr ⟨src, block, payload, rfl⟩
    · rw [heq, countBlock_marks] at h
      exact Or.inl h
    · rw [heq] at h
      rcases newBlock_store h with hold | rfl
      · rw [countBlock_marks] at hold
        exact Or.inl hold
      · exact Or.inr ⟨src, block, payload, rfl⟩

end Receiver

theorem mem_marks_store {n blkSize offset k : Nat} :
    .store n blkSize offset k ∈ (receiver s).marks ↔ .storeBlock n blkSize offset k ∈ s.log := by
  constructor
  · intro h
    obtain ⟨e, he, hmark⟩ := List.mem_filterMap.mp h
    rwa [← eventMark_store hmark]
  · intro h
    exact List.mem_filterMap.mpr ⟨_, h, rfl⟩

theorem tftpHandler_store {pkt : Buf} {dest src len n blkSize offset k : Nat} {sip : IPaddr}
    (h : .storeBlock n blkSize offset k ∈ (tftpHandler s pkt dest sip src len).log)
    (hnew : .storeBlock n blkSize offset k ∉ s.log) : 4 + k ≤ len := by
  rw [← mem_marks_store, receiver_tftpHandler] at h
  rcases Receiver.handle_store h with hold | ⟨src', block, payload, hm⟩
  · exact absurd (mem_marks_store.mp hold) hnew
  · have hdata := tftpMsg_data hm
    have hlen := hdata.len_eq
    have hlong := hdata.long
    omega

theorem receiver_tftpTimeout (s : Net) : receiver (tftpTimeout s) = (receiver s).timeout := by
  simp only [tftpTimeout, Receiver.timeout]
  by_cases h : s.tftp.tftpTimeoutCountMax < s.tftp.tftpTimeoutCount + 1
  · rw [if_pos h, if_pos (show (receiver s).tftp.tftpTimeoutCountMax <
      (receiver s).tftp.tftpTimeoutCount + 1 from h)]
    rfl
  · rw [if_neg h, if_neg (show ¬(receiver s).tftp.tftpTimeoutCountMax <
      (receiver s).tftp.tftpTimeoutCount + 1 from h)]
    generalize hs₁ : netSetTimeout _ tftpTimeoutMSecs THand.tftpTimeout = s₁
    have h₁ := congrArg receiver hs₁
    rw [receiver_netSetTimeout _ _ (by decide)] at h₁
    rw [apply_ite receiver, receiver_tftpSend, ← h₁]
    have hstate : s₁.tftp.tftpState = s.tftp.tftpState :=
      congrArg (fun r => r.tftp.tftpState) h₁.symm
    rw [hstate]
    rfl

theorem receiver_tftpStart (s : Net) : ∃ port, receiver (tftpStart s) =
    Receiver.send { receiver s with
      tftp := { s.tftp with
        tftpRemoteIP := (tftpFilenameOf s.cfg).1
        tftpFilename := (tftpFilenameOf s.cfg).2
        tftpState := .sendRrq
        tftpTimeoutCountMax := tftpRRQTimeoutCountMax
        tftpRemotePort := wellKnownPort
        tftpTimeoutCount := 0
        tftpOurPort := port
        tftpBlock := 0
        tftpBlkSize := tftpBlockSize
        timeStart := 0 }
      timeHandler := some .tftpTimeout } := by
  simp only [tftpStart]
  generalize hs₁ : netSetTimeout _ tftpTimeoutMSecs THand.tftpTimeout = s₁
  refine ⟨1024 + getTimer s₁ 0 % 3072, ?_⟩
  rw [receiver_tftpSend]
  subst hs₁
  simp only [netSetTimeout, if_neg (show ¬tftpTimeoutMSecs = 0 by decide)]
  rfl

end NonOsLite
