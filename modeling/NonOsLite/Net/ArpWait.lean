import NonOsLite.Net.Session

namespace NonOsLite
open ByteBuf

def arpExpired (s : Net) : Prop := arpTimeoutMSecs < sub32 (getTimer s 0) s.tx.netArpWaitTimerStart

instance (s : Net) : Decidable (arpExpired s) :=
  inferInstanceAs (Decidable (arpTimeoutMSecs < sub32 (getTimer s 0) s.tx.netArpWaitTimerStart))

def etherOf (ether : EtherPtr) (dest : IPaddr) : EtherPtr :=
  if dest = 0 ∨ dest = netBroadcastIP then .netBcastAddr else ether

def Unresolved (s : Net) (ether : EtherPtr) (dest : IPaddr) : Prop :=
  etherAt s (etherOf ether dest) = netEtherNullAddr

instance (s : Net) (ether : EtherPtr) (dest : IPaddr) : Decidable (Unresolved s ether dest) :=
  inferInstanceAs (Decidable (etherAt s (etherOf ether dest) = netEtherNullAddr))

structure AskedFor (s t : Net) : Prop where
  sends : Sends s t
  clockPos : t.clockPos = s.clockPos
  tx : t.tx = { s.tx with
    netArpWaitReplyIP := t.tx.netArpWaitReplyIP
    netArpTxPacket := t.tx.netArpTxPacket }
  log : t.log = .frame (bytes t.tx.netArpTxPacket 64) :: s.log

def frameOf : Event → Option (List UInt8)
  | .frame bytes => some bytes
  | _ => none

def transmitted (s : Net) : List (List UInt8) := s.log.filterMap frameOf

-- A packet for ip is held; its address is to be stored through mac.
structure HoldsFor (s t : Net) (ip : IPaddr) (mac : Option EtherPtr) (size : Int) : Prop where
  tx : t.tx = { s.tx with
    netIPID := u32 (s.tx.netIPID + 1)
    netTxPacket := t.tx.netTxPacket
    netArpTxPacket := t.tx.netArpTxPacket
    netArpWaitPacketIP := ip
    netArpWaitReplyIP := t.tx.netArpWaitReplyIP
    netArpWaitPacketMAC := mac
    netArpWaitTxPacketSize := size
    netArpWaitTimerStart := getTimer s 0
    netArpWaitTry := 1 }
  transmitted : transmitted t = bytes t.tx.netArpTxPacket 64 :: transmitted s

variable {s t : Net}

theorem unresolved_congr (hserver : t.tx.netServerEther = s.tx.netServerEther)
    (hbcast : t.tx.netBcastAddr = s.tx.netBcastAddr) (ether : EtherPtr) (dest : IPaddr) :
    Unresolved t ether dest ↔ Unresolved s ether dest := by
  unfold Unresolved
  cases etherOf ether dest with
  | netServerEther => simp only [etherAt, hserver]
  | netBcastAddr => simp only [etherAt, hbcast]

theorem etherAt_packet (s : Net) (pkt : Buf) (ipID : Nat) (p : EtherPtr) :
    etherAt { s with tx.netTxPacket := pkt, tx.netIPID := ipID } p = etherAt s p := by
  cases p <;> rfl

theorem etherOf_eq (ether : EtherPtr) (dest : IPaddr) :
    (if (if dest = 0 then netBroadcastIP else dest) = netBroadcastIP then EtherPtr.netBcastAddr
      else ether) = etherOf ether dest := by
  unfold etherOf
  by_cases hzero : dest = 0
  · simp [hzero]
  · simp [hzero]

theorem netEthHdrSize_cases (c : Config) : netEthHdrSize c = 14 ∨ netEthHdrSize c = 18 := by
  unfold netEthHdrSize
  split
  · exact Or.inl rfl
  · exact Or.inr rfl

theorem arpRequest_asked (s : Net) : AskedFor s (arpRequest s) where
  sends := arpRequest_sends s
  clockPos := rfl
  tx := rfl
  log := by
    have hsize : (if ((netEthHdrSize s.cfg + arpHdrSize : Nat) : Int) < 64 then (64 : Int)
        else (netEthHdrSize s.cfg + arpHdrSize : Nat)).toNat = 64 := by
      rcases netEthHdrSize_cases s.cfg with h | h <;> rw [h] <;> rfl
    simp only [arpRequest, arpRawRequest, netSendPacket, emitEvent, netSetEther_size]
    rw [← Nat.cast_add, hsize]

theorem arpTimeoutCheck_idle (h : s.tx.netArpWaitPacketIP = 0) : arpTimeoutCheck s = s :=
  if_pos h

theorem arpTimeoutCheck_early (h : s.tx.netArpWaitPacketIP ≠ 0) (he : ¬arpExpired s) :
    arpTimeoutCheck s = tick s := by
  unfold arpTimeoutCheck
  rw [if_neg h]
  exact if_neg he

theorem arpTimeoutCheck_exceeded (h : s.tx.netArpWaitPacketIP ≠ 0) (he : arpExpired s)
    (htry : arpTimeoutCount ≤ s.tx.netArpWaitTry + 1) :
    arpTimeoutCheck s = { tick s with tx.netArpWaitTry := 0 } := by
  unfold arpTimeoutCheck
  rw [if_neg h]
  exact (if_pos he).trans (if_pos htry)

theorem arpTimeoutCheck_repeats (h : s.tx.netArpWaitPacketIP ≠ 0) (he : arpExpired s)
    (htry : s.tx.netArpWaitTry + 1 < arpTimeoutCount) :
    arpTimeoutCheck s = arpRequest { tick s with
      tx.netArpWaitTry := s.tx.netArpWaitTry + 1
      tx.netArpWaitTimerStart := getTimer s 0 } := by
  unfold arpTimeoutCheck
  rw [if_neg h]
  exact (if_pos he).trans (if_neg (not_le.mpr htry))

theorem arpTimeoutCheck_cases (s : Net) :
    (s.tx.netArpWaitPacketIP = 0 ∧ arpTimeoutCheck s = s) ∨
    (s.tx.netArpWaitPacketIP ≠ 0 ∧ ¬arpExpired s ∧ arpTimeoutCheck s = tick s) ∨
    (s.tx.netArpWaitPacketIP ≠ 0 ∧ arpExpired s ∧ arpTimeoutCount ≤ s.tx.netArpWaitTry + 1 ∧
      arpTimeoutCheck s = { tick s with tx.netArpWaitTry := 0 }) ∨
    (s.tx.netArpWaitPacketIP ≠ 0 ∧ arpExpired s ∧ s.tx.netArpWaitTry + 1 < arpTimeoutCount ∧
      AskedFor { tick s with
        tx.netArpWaitTry := s.tx.netArpWaitTry + 1
        tx.netArpWaitTimerStart := getTimer s 0 } (arpTimeoutCheck s)) := by
  by_cases h : s.tx.netArpWaitPacketIP = 0
  · exact Or.inl ⟨h, arpTimeoutCheck_idle h⟩
  · by_cases he : arpExpired s
    · rcases Nat.lt_or_ge (s.tx.netArpWaitTry + 1) arpTimeoutCount with htry | htry
      · refine Or.inr (Or.inr (Or.inr ⟨h, he, htry, ?_⟩))
        rw [arpTimeoutCheck_repeats h he htry]
        exact arpRequest_asked _
      · exact Or.inr (Or.inr (Or.inl ⟨h, he, htry, arpTimeoutCheck_exceeded h he htry⟩))
    · exact Or.inr (Or.inl ⟨h, he, arpTimeoutCheck_early h he⟩)

theorem arpTimeoutCheck_waits (s : Net) :
    (arpTimeoutCheck s).tx.netArpWaitPacketIP = s.tx.netArpWaitPacketIP := by
  rcases arpTimeoutCheck_cases s with ⟨-, h⟩ | ⟨-, -, h⟩ | ⟨-, -, -, h⟩ | ⟨-, -, -, h⟩
  · rw [h]
  · rw [h]
    rfl
  · rw [h]
    rfl
  · have hip := congrArg Transmit.netArpWaitPacketIP h.tx
    exact hip

theorem AskedFor.transmitted (h : AskedFor s t) :
    transmitted t = bytes t.tx.netArpTxPacket 64 :: transmitted s :=
  congrArg (List.filterMap frameOf) h.log

theorem netSendUdpPacket_holds {ether : EtherPtr} {dest : IPaddr} (h : Unresolved s ether dest)
    (dport sport payloadLen : Nat) :
    HoldsFor s (netSendUdpPacket s ether dest dport sport payloadLen)
      (if dest = 0 then netBroadcastIP else dest) (some (etherOf ether dest))
      (netEthHdrSize s.cfg + ipUdpHdrSize + payloadLen : Nat) := by
  unfold netSendUdpPacket
  simp only [etherOf_eq, netSetEther_size, etherAt_packet]
  rw [if_pos (show etherAt s (etherOf ether dest) = netEtherNullAddr from h)]
  have hask := arpRequest_asked
  exact ⟨(hask _).tx, (hask _).transmitted⟩

theorem netSendUdpPacket_resolved {ether : EtherPtr} {dest : IPaddr}
    (h : ¬Unresolved s ether dest) (dport sport payloadLen : Nat) :
    ∃ pkt frame, (netSendUdpPacket s ether dest dport sport payloadLen).tx =
        { s.tx with netIPID := u32 (s.tx.netIPID + 1), netTxPacket := pkt } ∧
      transmitted (netSendUdpPacket s ether dest dport sport payloadLen) =
        frame :: transmitted s := by
  unfold netSendUdpPacket
  simp only [etherOf_eq, netSetEther_size, etherAt_packet]
  rw [if_neg (show ¬etherAt s (etherOf ether dest) = netEtherNullAddr from h)]
  exact ⟨_, _, rfl, rfl⟩

theorem netSendUdpPacket_transmits (s : Net) (ether : EtherPtr) (dest : IPaddr)
    (dport sport payloadLen : Nat) :
    ∃ frame, transmitted (netSendUdpPacket s ether dest dport sport payloadLen) =
      frame :: transmitted s := by
  by_cases h : Unresolved s ether dest
  · exact ⟨_, (netSendUdpPacket_holds h dport sport payloadLen).transmitted⟩
  · obtain ⟨-, frame, -, hframe⟩ := netSendUdpPacket_resolved h dport sport payloadLen
    exact ⟨frame, hframe⟩

theorem pingSend_holds (s : Net) :
    HoldsFor s (pingSend s) s.ping.netPingIP s.tx.netArpWaitPacketMAC
      (netEthHdrSize s.cfg + ipIcmpHdrSize : Nat) := by
  unfold pingSend
  simp only [netSetEther_size]
  have hask := arpRequest_asked
  exact ⟨(hask _).tx, (hask _).transmitted⟩

end NonOsLite
