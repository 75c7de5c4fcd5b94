import NonOsLite.Net.ArpWait
import NonOsLite.Net.RoundTrip

namespace NonOsLite
open ByteBuf

def frameBuf (frame : List UInt8) : Buf := store (fun _ => 0) 0 frame

-- A frame as its addressee takes it: a node of the sender's VLAN that answers to every address.
def addresseeRx (c : Config) (frame : List UInt8) : Rx :=
  netDecode { c with netOurIP := 0 } (frameBuf frame) frame.length

def echoRequestOf (c : Config) (frame : List UInt8) : Option (Nat × Nat) :=
  match addresseeRx c frame with
  | .icmp ip _ =>
      if frameBuf frame (ip + ipHdrSize) = icmpEchoRequest then
        some (be16 (frameBuf frame) (ip + ipHdrSize + 4), be16 (frameBuf frame) (ip + ipHdrSize + 6))
      else none
  | _ => none

def ackOf (c : Config) (frame : List UInt8) : Option Nat :=
  match addresseeRx c frame with
  | .udp _ _ u => if u.len = 4 ∧ be16 u.pkt 0 = tftpACK then some (be16 u.pkt 2) else none
  | _ => none

def echoRequestsSent (s : Net) : List (Nat × Nat) := (transmitted s).filterMap (echoRequestOf s.cfg)

def acksSent (s : Net) : List Nat := (transmitted s).filterMap (ackOf s.cfg)

variable {s t : Net} {c : Config} {ether : EtherPtr} {dest : IPaddr} {n : Nat}

theorem transmitted_subset (h : ∀ e ∈ s.log, e ∈ t.log) {frame : List UInt8}
    (hframe : frame ∈ transmitted s) : frame ∈ transmitted t := by
  obtain ⟨e, he, hbytes⟩ := List.mem_filterMap.mp hframe
  exact List.mem_filterMap.mpr ⟨e, h e he, hbytes⟩

theorem echoRequestsSent_mono (hcfg : t.cfg = s.cfg) (h : ∀ e ∈ s.log, e ∈ t.log) {r : Nat × Nat}
    (hr : r ∈ echoRequestsSent s) : r ∈ echoRequestsSent t := by
  obtain ⟨frame, hframe, hrequest⟩ := List.mem_filterMap.mp hr
  exact List.mem_filterMap.mpr ⟨frame, transmitted_subset h hframe, hcfg ▸ hrequest⟩

theorem acksSent_mono (hcfg : t.cfg = s.cfg) (h : ∀ e ∈ s.log, e ∈ t.log) (hn : n ∈ acksSent s) :
    n ∈ acksSent t := by
  obtain ⟨frame, hframe, hack⟩ := List.mem_filterMap.mp hn
  exact List.mem_filterMap.mpr ⟨frame, transmitted_subset h hframe, hcfg ▸ hack⟩

theorem putBe16_u16 (b : Buf) (off v : Nat) : putBe16 b off (u16 v) = putBe16 b off v := by
  have hhigh : UInt8.ofNat (u16 v / 256) = UInt8.ofNat (v / 256) := by
    rw [← UInt8.toNat_inj, UInt8.toNat_ofNat', UInt8.toNat_ofNat', u16]
    omega
  have hlow : UInt8.ofNat (u16 v) = UInt8.ofNat v := by
    rw [← UInt8.toNat_inj, UInt8.toNat_ofNat', UInt8.toNat_ofNat', u16]
    omega
  rw [putBe16, hhigh, hlow, putBe16]

theorem udpFrame_u16 {ipID dport sport : Nat} {xet : Buf} {addr : Ether} :
    udpFrame c ipID xet addr dest (u16 dport) (u16 sport) n =
      udpFrame c ipID xet addr dest dport sport n := by
  simp only [udpFrame, netSetUdpHeader_eq, putUdpPorts, putBe16_u16]

theorem frameBuf_bytes (b : Buf) (n : Nat) : Agree n (frameBuf (bytes b n)) b := by
  intro i hi
  have hin := store_inside (fun _ => 0) 0 (bytes b n) (show i < (bytes b n).length by
    rwa [bytes_length])
  rw [Nat.zero_add] at hin
  rw [frameBuf, hin, bytes_getD hi]

theorem netSendUdpPacket_sent (h : ¬Unresolved s ether dest) (dport sport n : Nat) :
    transmitted (netSendUdpPacket s ether dest dport sport n) =
      bytes (udpFrame s.cfg s.tx.netIPID s.tx.netTxPacket (etherAt s (etherOf ether dest))
        (if dest = 0 then netBroadcastIP else dest) dport sport n)
        (max 64 (netEthHdrSize s.cfg + ipUdpHdrSize + n)) :: transmitted s := by
  have hsize (k : Nat) : (if (k : Int) < 64 then (64 : Int) else k).toNat = max 64 k := by
    split <;> omega
  unfold netSendUdpPacket
  simp only [etherOf_eq, netSetEther_size, etherAt_packet]
  rw [if_neg (show ¬etherAt s (etherOf ether dest) = netEtherNullAddr from h)]
  simp only [netSendPacket, hsize, udpFrame, netSetEther_size]
  rfl

theorem ackOf_udpFrame {ipID dport sport : Nat} {xet : Buf} {addr : Ether} (hn : n < 65536)
    (hpayload : StartsWith (shift xet (netEthHdrSize c + ipUdpHdrSize)) (ackBytes n)) :
    ackOf c (bytes (udpFrame c ipID xet addr dest dport sport 4)
      (max 64 (netEthHdrSize c + ipUdpHdrSize + 4))) = some n := by
  have hshort : netEthHdrSize c + ipUdpHdrSize + 4 ≤ 64 := by
    rcases netEthHdrSize_cases c with heq | heq <;> simp [heq, ipUdpHdrSize]
  rw [max_eq_left hshort]
  generalize hframe : bytes (udpFrame c ipID xet addr dest dport sport 4) 64 = frame
  have hlen : frame.length = 64 := by rw [← hframe, bytes_length]
  have hagree : Agree (netEthHdrSize c + ipUdpHdrSize + 4) (frameBuf frame)
      (udpFrame c ipID xet addr dest (u16 dport) (u16 sport) 4) := by
    rw [udpFrame_u16, ← hframe]
    exact (frameBuf_bytes _ _).mono hshort
  have hsame : { c with netOurIP := 0 }.netOurVLAN = c.netOurVLAN := rfl
  have hdecode := netDecode_udpFrame (u16_lt dport) (u16_lt sport) hshort
    (show 64 ≤ pktSizeAlign by decide) hsame (fun h => absurd rfl h) hagree
  have hsent : StartsWith (shift (udpFrame c ipID xet addr dest (u16 dport) (u16 sport)
      (ackBytes n).length) (netEthHdrSize c + ipUdpHdrSize)) (ackBytes n) :=
    udpFrame_payload hpayload
  have hbody := hsent.congr (Agree.shift hagree)
  rw [startsWith_iff] at hbody
  have hopcode : be16 (shift (frameBuf frame) (netEthHdrSize c + ipUdpHdrSize)) 0 = tftpACK := by
    rw [be16, hbody 0 (by simp [ackBytes]), hbody 1 (by simp [ackBytes])]
    rfl
  have hblock : be16 (shift (frameBuf frame) (netEthHdrSize c + ipUdpHdrSize)) 2 = n := by
    rw [be16, hbody 2 (by simp [ackBytes]), hbody 3 (by simp [ackBytes])]
    simp only [ackBytes, List.getD_cons_succ, List.getD_cons_zero, UInt8.toNat_ofNat']
    omega
  rw [ackOf, addresseeRx, hlen, hdecode]
  simp [hopcode, hblock]

theorem tftpSend_ack (hstate : s.tftp.tftpState = .data)
    (h : ¬Unresolved s .netServerEther s.tftp.tftpRemoteIP) :
    u16 s.tftp.tftpBlock ∈ acksSent (tftpSend s) := by
  let xp := netEthHdrSize s.cfg + ipUdpHdrSize
  let b := putBe16 (putBe16 s.tx.netTxPacket xp tftpACK) (xp + 2) (u16 s.tftp.tftpBlock)
  let t : Net := { emitEvent s (.tftpSend (bytes (shift b xp) 4)) with tx.netTxPacket := b }
  have hsend : tftpSend s = netSendUdpPacket t .netServerEther s.tftp.tftpRemoteIP
      s.tftp.tftpRemotePort s.tftp.tftpOurPort 4 := by
    simp only [tftpSend, tftpPacket, hstate]
    rfl
  have ht : ¬Unresolved t .netServerEther s.tftp.tftpRemoteIP := fun hu =>
    h ((unresolved_congr rfl rfl .netServerEther s.tftp.tftpRemoteIP).mp hu)
  have hsent := netSendUdpPacket_sent ht s.tftp.tftpRemotePort s.tftp.tftpOurPort 4
  have hcfg : (tftpSend s).cfg = s.cfg := (tftpSend_sends s).cfg
  rw [acksSent, hcfg, hsend, hsent]
  refine List.mem_filterMap.mpr ⟨_, List.mem_cons_self, ?_⟩
  exact ackOf_udpFrame (u16_lt _) (ackPacket_startsWith s.tx.netTxPacket xp (u16 s.tftp.tftpBlock))

end NonOsLite
