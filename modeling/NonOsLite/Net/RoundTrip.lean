import NonOsLite.Net.Effects
import NonOsLite.Net.Lengths
import NonOsLite.Net.Checksum

namespace NonOsLite
open ByteBuf OnesComplement

def pktSizeAlign : Nat := 1536

def udpFrame (c : Config) (ipID : Nat) (xet : Buf) (addr : Ether) (dest : IPaddr)
    (dport sport len : Nat) : Buf :=
  mapFrom (netSetEther c xet addr protIP).1 (netSetEther c xet addr protIP).2
    (fun pkt => netSetUdpHeader c ipID pkt dest dport sport len)

variable {c : Config} {p q pkt xet : Buf} {n i : Nat} {addr : Ether} {dest source : IPaddr}
  {ipID dport sport len : Nat}

structure UdpHeader (p : Buf) (source dest : IPaddr) (dport sport len : Nat) : Prop where
  version : p 0 = 0x45
  ipLen : be16 p 2 = ipUdpHdrSize + len
  fragment : be16 p 6 = 0x4000
  proto : p 9 = ipprotoUDP
  cksum : netCksumOk p (ipHdrSize / 2) = true
  source : netReadIP p 12 = source
  dest : netReadIP p 16 = dest
  sport : be16 p 20 = sport
  dport : be16 p 22 = dport
  udpLen : be16 p 24 = udpHdrSize + len

def udpIpHeader (ipID : Nat) (pkt : Buf) (dest source : IPaddr) (len : Nat) : Buf :=
  store (putBe16 (netSetIpHeader ipID pkt dest source) 2 (ipUdpHdrSize + len)) 9 [ipprotoUDP]

def padOdd (pkt : Buf) (len : Nat) : Buf :=
  if len % 2 = 1 then store pkt (ipUdpHdrSize + len) [0] else pkt

def putUdpPorts (pkt : Buf) (dport sport len : Nat) : Buf :=
  putLe16 (putBe16 (putBe16 (putBe16 pkt 20 sport) 22 dport) 24 (udpHdrSize + len)) 26 0

theorem netSetUdpHeader_eq (c : Config) (ipID : Nat) (pkt : Buf) (dest : IPaddr)
    (dport sport len : Nat) :
    netSetUdpHeader c ipID pkt dest dport sport len =
      putUdpPorts (putLe16 (udpIpHeader ipID (padOdd pkt len) dest c.netOurIP len) 10
        (65535 - netCksum (udpIpHeader ipID (padOdd pkt len) dest c.netOurIP len) 10))
        dport sport len := rfl

theorem putUdpPorts_agree (pkt : Buf) (dport sport len : Nat) :
    Agree 20 (putUdpPorts pkt dport sport len) pkt := by
  intro i hi
  simp only [putUdpPorts, putBe16, putLe16]
  rw [store_of_lt (by omega), store_of_lt (by omega), store_of_lt (by omega),
    store_of_lt (by omega)]

theorem udpIpHeader_apply (h : i < 20) :
    udpIpHeader ipID pkt dest source len i =
      ([0x45, 0, UInt8.ofNat ((ipUdpHdrSize + len) / 256), UInt8.ofNat (ipUdpHdrSize + len),
        UInt8.ofNat (ipID / 256), UInt8.ofNat ipID, 0x40, 0, 255, ipprotoUDP, 0, 0,
        UInt8.ofNat source.toNat, UInt8.ofNat (source.toNat / 256),
        UInt8.ofNat (source.toNat / 65536), UInt8.ofNat (source.toNat / 16777216),
        UInt8.ofNat dest.toNat, UInt8.ofNat (dest.toNat / 256),
        UInt8.ofNat (dest.toNat / 65536), UInt8.ofNat (dest.toNat / 16777216)] :
        List UInt8).getD i 0 := by
  interval_cases i <;>
    simp [udpIpHeader, netSetIpHeader, netWriteIP, putBe16, putLe16, putLe32, store]

theorem netReadIP_of_bytes {off : Nat} {ip : IPaddr} (h0 : p off = UInt8.ofNat ip.toNat)
    (h1 : p (off + 1) = UInt8.ofNat (ip.toNat / 256))
    (h2 : p (off + 2) = UInt8.ofNat (ip.toNat / 65536))
    (h3 : p (off + 2 + 1) = UInt8.ofNat (ip.toNat / 16777216)) : netReadIP p off = ip := by
  have hlt := ip.toNat_lt
  have hval : le32 p off = ip.toNat := by
    simp only [le32, le16, h0, h1, h2, h3, UInt8.toNat_ofNat']
    omega
  rw [netReadIP, hval]
  exact UInt32.ofNat_toNat

theorem netSetUdpHeader_header (c : Config) (ipID : Nat) (pkt : Buf) (dest : IPaddr)
    (hlen : ipUdpHdrSize + len < 65536) (hdport : dport < 65536) (hsport : sport < 65536) :
    UdpHeader (netSetUdpHeader c ipID pkt dest dport sport len) c.netOurIP dest dport sport
      len := by
  rw [netSetUdpHeader_eq]
  generalize hp : udpIpHeader ipID (padOdd pkt len) dest c.netOurIP len = p
  have hbyte (i : Nat) (hi : i < 20) : p i = _ := hp ▸ udpIpHeader_apply hi
  have hports := putUdpPorts_agree (putLe16 p 10 (65535 - netCksum p 10)) dport sport len
  have hfield (i : Nat) (hi : i < 20) (hne : i < 10 ∨ 12 ≤ i) :
      putUdpPorts (putLe16 p 10 (65535 - netCksum p 10)) dport sport len i = p i := by
    rw [hports i hi]
    rcases hne with h | h
    · exact store_of_lt h
    · exact store_of_ge h
  have hzero : le16 p (2 * 5) = 0 := by
    rw [le16, hbyte 10 (by decide), hbyte 11 (by decide)]
    rfl
  refine {
    version := ?_
    ipLen := ?_
    fragment := ?_
    proto := ?_
    cksum := ?_
    source := ?_
    dest := ?_
    sport := ?_
    dport := ?_
    udpLen := ?_ }
  · rw [hfield 0 (by decide) (by decide), hbyte 0 (by decide)]
    rfl
  · rw [be16, hfield 2 (by decide) (by decide), hfield 3 (by decide) (by decide),
      hbyte 2 (by decide), hbyte 3 (by decide)]
    simp only [List.getD_cons_succ, List.getD_cons_zero, UInt8.toNat_ofNat']
    omega
  · rw [be16, hfield 6 (by decide) (by decide), hfield 7 (by decide) (by decide),
      hbyte 6 (by decide), hbyte 7 (by decide)]
    rfl
  · rw [hfield 9 (by decide) (by decide), hbyte 9 (by decide)]
    rfl
  · have hok : netCksumOk (putLe16 p 10 (65535 - netCksum p 10)) 10 = true :=
      netCksumOk_putLe16 (k := 5) (by decide) (by decide) hzero
    rw [netCksumOk, netCksum_congr (by decide) hports]
    exact hok
  · refine netReadIP_of_bytes ?_ ?_ ?_ ?_
    all_goals
      rw [hfield _ (by decide) (by decide), hbyte _ (by decide)]
      rfl
  · refine netReadIP_of_bytes ?_ ?_ ?_ ?_
    all_goals
      rw [hfield _ (by decide) (by decide), hbyte _ (by decide)]
      rfl
  · rw [putUdpPorts, be16_putLe16_of_lt (by decide), be16_putBe16_of_lt (by decide),
      be16_putBe16_of_lt (by decide), be16_putBe16 hsport]
  · rw [putUdpPorts, be16_putLe16_of_lt (by decide), be16_putBe16_of_lt (by decide),
      be16_putBe16 hdport]
  · rw [putUdpPorts, be16_putLe16_of_lt (by decide), be16_putBe16]
    simp only [ipUdpHdrSize, ipHdrSize, udpHdrSize] at hlen ⊢
    omega

theorem netSetUdpHeader_payload (h : i < len) :
    netSetUdpHeader c ipID pkt dest dport sport len (ipUdpHdrSize + i) = pkt (ipUdpHdrSize + i) := by
  have hpad : padOdd pkt len (ipUdpHdrSize + i) = pkt (ipUdpHdrSize + i) := by
    unfold padOdd
    split
    · exact store_of_lt (by omega)
    · rfl
  rw [netSetUdpHeader_eq, ← hpad]
  simp only [putUdpPorts, udpIpHeader, netSetIpHeader, netWriteIP, putBe16, putLe16, putLe32,
    ipUdpHdrSize]
  repeat rw [store_of_ge (by simp only [List.length_cons, List.length_nil]; omega)]

theorem UdpHeader.congr (h : UdpHeader p source dest dport sport len) (ha : Agree 28 p q) :
    UdpHeader q source dest dport sport len := by
  have hword (i : Nat) (hi : i + 2 ≤ 28) : be16 q i = be16 p i := (ha.be16 hi).symm
  have hip (i : Nat) (hi : i + 4 ≤ 28) : netReadIP q i = netReadIP p i := by
    rw [netReadIP, netReadIP, le32, le32, le16, le16, le16, le16, ha i (by omega),
      ha (i + 1) (by omega), ha (i + 2) (by omega), ha (i + 2 + 1) (by omega)]
  exact {
    version := (ha 0 (by decide)).symm.trans h.version
    ipLen := (hword 2 (by decide)).trans h.ipLen
    fragment := (hword 6 (by decide)).trans h.fragment
    proto := (ha 9 (by decide)).symm.trans h.proto
    cksum := by
      rw [netCksumOk, ← netCksum_congr (by decide) (ha.mono (by decide))]
      exact h.cksum
    source := (hip 12 (by decide)).trans h.source
    dest := (hip 16 (by decide)).trans h.dest
    sport := (hword 20 (by decide)).trans h.sport
    dport := (hword 22 (by decide)).trans h.dport
    udpLen := (hword 24 (by decide)).trans h.udpLen }

theorem netIp_header {inpkt : Buf} {off : Nat} {l : Int}
    (h : UdpHeader (shift inpkt off) source dest dport sport len)
    (hl : (ipUdpHdrSize + len : Nat) ≤ l) (hmax : l < 4294967296)
    (hdest : c.netOurIP ≠ 0 → c.netOurIP = dest ∨ dest = netBroadcastIP) :
    netIp c inpkt off l = .udp off (ipUdpHdrSize + len : Nat)
      { pkt := shift inpkt (off + ipUdpHdrSize)
        dport := dport
        sip := source
        sport := sport
        len := len } := by
  have hshort : ¬toU32 l < ipUdpHdrSize := by
    simp only [toU32]
    omega
  have hus : ¬(c.netOurIP ≠ 0 ∧ dest ≠ c.netOurIP ∧ dest ≠ netBroadcastIP) := by
    rintro ⟨hzero, hne, hbcast⟩
    rcases hdest hzero with h | h
    · exact hne h.symm
    · exact hbcast h
  have hproto : (ipprotoUDP : UInt8) ≠ ipprotoICMP := by decide
  simp only [netIp, h.version, h.ipLen, h.fragment, h.proto, h.cksum, h.source, h.dest, h.sport,
    h.dport, h.udpLen, if_neg hshort, if_neg (Int.not_lt.mpr hl), if_neg hus, if_neg hproto]
  rw [if_neg (by decide), if_neg (by decide), if_neg (by decide), if_neg (by decide),
    if_neg (by simp), shift_shift, sub32_of_le (Nat.le_add_right _ _), Nat.add_sub_cancel_left]

theorem netSetEther_payload (h : netEthHdrSize c ≤ i) :
    (netSetEther c xet addr protIP).1 i = xet i := by
  have hether (e : Ether) : e.toList.length = 6 := by simp
  unfold netEthHdrSize at h
  unfold netSetEther
  extract_lets x₀ x₁ x₂ x₃
  have hx₁ (hi : 12 ≤ i) : x₁ i = xet i :=
    (store_of_ge (by rw [hether]; exact hi)).trans
      (store_of_ge (by rw [hether]; exact Nat.le_trans (by decide) hi))
  split at h <;> rename_i hv
  · rw [if_pos hv]
    exact (store_of_ge h).trans (hx₁ (Nat.le_trans (by decide) h))
  · rw [if_neg hv]
    refine (store_of_ge h).trans ((store_of_ge ?_).trans ((store_of_ge ?_).trans (hx₁ ?_)))
    all_goals
      simp only [vlanEtherHdrSize, List.length_cons, List.length_nil] at h ⊢
      omega

theorem netLink_frame {inpkt : Buf} (c' : Config) (l : Int)
    (hsame : c'.netOurVLAN = c.netOurVLAN)
    (ha : Agree (netEthHdrSize c) inpkt (netSetEther c xet addr protIP).1)
    (hlen : netEthHdrSize c ≤ toU32 l) :
    ∃ link, netLink c' inpkt l = some link ∧ link.ethProto = protIP ∧
      link.hdr = netEthHdrSize c ∧ vlanMatch c' link.vlanid = true := by
  by_cases hv : vlanOf c.netOurVLAN &&& vlanIdmask = vlanNone
  · have hsize : netEthHdrSize c = etherHdrSize := if_pos hv
    have hether : netSetEther c xet addr protIP = (_, etherHdrSize) := if_pos hv
    rw [hsize, hether] at ha
    have hproto : be16 inpkt 12 = protIP :=
      (ha.be16 (by decide)).trans (be16_putBe16 (by decide))
    refine ⟨⟨protIP, etherHdrSize, vlanNone⟩, ?_, rfl, hsize.symm, ?_⟩
    · simp only [netLink, hproto]
      rfl
    · simp only [vlanMatch, hsame, hv, ne_eq, not_true_eq_false, if_false]
  · have hsize : netEthHdrSize c = vlanEtherHdrSize := if_neg hv
    have hether : netSetEther c xet addr protIP = (_, vlanEtherHdrSize) := if_neg hv
    have htag : vlanOf c.netOurVLAN &&& vlanIdmask < 65536 :=
      Nat.lt_of_le_of_lt Nat.and_le_right (by decide)
    rw [hsize] at ha hlen
    rw [hether] at ha
    have hvlan : be16 inpkt 12 = protVLAN := by
      refine (ha.be16 (by decide)).trans ?_
      rw [be16_putBe16_of_lt (by decide), be16_putBe16_of_lt (by decide), be16_putBe16 (by decide)]
    have hid : be16 inpkt 14 = vlanOf c.netOurVLAN &&& vlanIdmask := by
      refine (ha.be16 (by decide)).trans ?_
      rw [be16_putBe16_of_lt (by decide), Nat.zero_shiftLeft, Nat.zero_or, be16_putBe16 htag]
    have hproto : be16 inpkt 16 = protIP :=
      (ha.be16 (by decide)).trans (be16_putBe16 (by decide))
    have hours : ¬ntohs c.netOurVLAN &&& vlanIdmask = vlanNone := by
      intro hnone
      apply hv
      unfold vlanOf
      split
      · rfl
      · exact hnone
    refine ⟨⟨protIP, vlanEtherHdrSize, vlanOf c.netOurVLAN &&& vlanIdmask⟩, ?_, rfl, hsize.symm, ?_⟩
    · have hshort : ¬toU32 l < vlanEtherHdrSize := Nat.not_lt.mpr hlen
      have hmask : vlanOf c.netOurVLAN &&& vlanIdmask &&& vlanIdmask =
          vlanOf c.netOurVLAN &&& vlanIdmask := by
        rw [Nat.and_assoc, Nat.and_self]
      simp only [netLink, hvlan, hid, hproto, hsame, if_neg hshort, if_neg hours, hmask]
      rfl
    · simp only [vlanMatch, hsame, ne_eq, hv, not_false_eq_true, if_true, if_false, decide_true]

theorem shift_udpFrame : shift (udpFrame c ipID xet addr dest dport sport len) (netEthHdrSize c) =
    netSetUdpHeader c ipID (shift (netSetEther c xet addr protIP).1 (netEthHdrSize c)) dest dport
      sport len := by
  unfold udpFrame
  rw [netSetEther_size, shift_mapFrom]

theorem udpFrame_header (hlen : ipUdpHdrSize + len < 65536) (hdport : dport < 65536)
    (hsport : sport < 65536) :
    UdpHeader (shift (udpFrame c ipID xet addr dest dport sport len) (netEthHdrSize c)) c.netOurIP
      dest dport sport len := by
  rw [shift_udpFrame]
  exact netSetUdpHeader_header c ipID _ dest hlen hdport hsport

theorem udpFrame_payload {payload : List UInt8}
    (h : StartsWith (shift xet (netEthHdrSize c + ipUdpHdrSize)) payload) :
    StartsWith (shift (udpFrame c ipID xet addr dest dport sport payload.length)
      (netEthHdrSize c + ipUdpHdrSize)) payload := by
  refine h.congr ?_
  intro i hi
  calc shift (udpFrame c ipID xet addr dest dport sport payload.length)
        (netEthHdrSize c + ipUdpHdrSize) i
      = shift (udpFrame c ipID xet addr dest dport sport payload.length) (netEthHdrSize c)
          (ipUdpHdrSize + i) := by
        simp only [shift_apply, Nat.add_assoc]
    _ = shift (netSetEther c xet addr protIP).1 (netEthHdrSize c) (ipUdpHdrSize + i) := by
        rw [shift_udpFrame, netSetUdpHeader_payload hi]
    _ = shift xet (netEthHdrSize c + ipUdpHdrSize) i := by
        simp only [shift_apply, ← Nat.add_assoc]
        exact netSetEther_payload (by omega)

theorem netDecode_udpFrame {c' : Config} {inpkt : Buf} {len n : Nat} (hdport : dport < 65536)
    (hsport : sport < 65536) (hmin : netEthHdrSize c + ipUdpHdrSize + n ≤ len)
    (hmax : len ≤ pktSizeAlign) (hsame : c'.netOurVLAN = c.netOurVLAN)
    (hdest : c'.netOurIP ≠ 0 → c'.netOurIP = dest ∨ dest = netBroadcastIP)
    (hframe : Agree (netEthHdrSize c + ipUdpHdrSize + n) inpkt
      (udpFrame c ipID xet addr dest dport sport n)) :
    netDecode c' inpkt len = .udp (netEthHdrSize c) (ipUdpHdrSize + n : Nat)
      { pkt := shift inpkt (netEthHdrSize c + ipUdpHdrSize)
        dport := dport
        sip := c.netOurIP
        sport := sport
        len := n } := by
  have hlt : len ≤ 1536 := hmax
  have hether : etherHdrSize ≤ netEthHdrSize c := by
    unfold netEthHdrSize
    split <;> decide
  have hu32 : toU32 (len : Int) = len := toU32_ofNat (by omega)
  have hlink : Agree (netEthHdrSize c) inpkt (netSetEther c xet addr protIP).1 := by
    intro i hi
    rw [hframe i (by omega)]
    unfold udpFrame
    rw [netSetEther_size, mapFrom_of_lt hi]
  have hip : Agree (ipUdpHdrSize + n) (shift inpkt (netEthHdrSize c))
      (shift (udpFrame c ipID xet addr dest dport sport n) (netEthHdrSize c)) :=
    Agree.shift (hframe.mono (Nat.le_of_eq (Nat.add_assoc _ _ _).symm))
  obtain ⟨link, hl, hproto, hoff, hmatch⟩ :=
    netLink_frame c' len hsame hlink (by rw [hu32]; omega)
  have hbuilt : UdpHeader (shift (udpFrame c ipID xet addr dest dport sport n)
      (netEthHdrSize c)) c.netOurIP dest dport sport n :=
    udpFrame_header (by omega) hdport hsport
  have hheader := hbuilt.congr (hip.symm.mono (Nat.le_add_right 28 n))
  rw [netDecode_ip hl hproto hmatch (by omega) (by omega), hoff]
  exact netIp_header hheader (by push_cast; omega) (by omega) hdest

theorem udp_round_trip (c : Config) (ipID : Nat) (xet : Buf) (addr : Ether) (dest : IPaddr)
    (dport sport : Nat) (payload : List UInt8) (r : Net) (inpkt : Buf) (len : Nat)
    (hdport : dport < 65536) (hsport : sport < 65536)
    (hpad : max 64 (netEthHdrSize c + ipUdpHdrSize + payload.length) ≤ len)
    (hfits : len ≤ pktSizeAlign)
    (hpayload : StartsWith (shift xet (netEthHdrSize c + ipUdpHdrSize)) payload)
    (hsame : r.cfg.netOurVLAN = c.netOurVLAN)
    (hdest : r.cfg.netOurIP = dest ∨ dest = netBroadcastIP)
    (hframe : Agree (netEthHdrSize c + ipUdpHdrSize + payload.length) inpkt
      (udpFrame c ipID xet addr dest dport sport payload.length)) :
    ∃ buf, StartsWith buf payload ∧
      Handles r inpkt len
        { pkt := buf, dport := dport, sip := c.netOurIP, sport := sport, len := payload.length } := by
  refine ⟨shift inpkt (netEthHdrSize c + ipUdpHdrSize), ?_, ?_⟩
  · exact (udpFrame_payload hpayload).congr (Agree.shift hframe)
  · exact handles_of_decode (netDecode_udpFrame hdport hsport
      ((Nat.le_max_right 64 _).trans hpad) hfits hsame (fun _ => hdest) hframe)

def sampleVlanNet : Net :=
  { sampleBoard with
    cfg := { sampleConfig with netOurVLAN := htons 5, netOurIP := stringToIp (ascii "10.0.0.179") }
    loop.udpPacketHandler := .tftpHandler }

theorem udp_round_trip_three_bytes :
    ∃ buf, StartsWith buf [7, 8, 9] ∧
      Handles sampleVlanNet (udpFrame sampleVlanNet.cfg 0 (store (fun _ => 0) 46 [7, 8, 9])
          (Vector.replicate 6 3) (stringToIp (ascii "10.0.0.179")) 69 1024 3) 100
        { pkt := buf, dport := 69, sip := sampleVlanNet.cfg.netOurIP, sport := 1024, len := 3 } :=
  udp_round_trip sampleVlanNet.cfg 0 (store (fun _ => 0) 46 [7, 8, 9]) (Vector.replicate 6 3) _ 69
    1024 [7, 8, 9] sampleVlanNet _ 100 (by decide) (by decide) (by decide +kernel)
    (by decide +kernel) (by decide +kernel) rfl (Or.inl rfl) (fun _ _ => rfl)

end NonOsLite
