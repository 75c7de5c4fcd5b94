import NonOsLite.Net.Delivery
import NonOsLite.Net.Receiver

namespace NonOsLite
open ByteBuf

def ipLen (inpkt : Buf) (ip : Nat) : Nat := be16 inpkt (ip + 2)

def udpLen (inpkt : Buf) (ip : Nat) : Nat := be16 inpkt (ip + 24)

-- The steps of ping_receive: the IP header but for its checksum, and the ICMP header likewise.
def echoIp (c : Config) (et : Buf) (ip : Nat) : Buf :=
  let pkt := putLe16 (putLe16 et (ip + 10) 0) (ip + 6) 0
  netWriteIP (store pkt (ip + 16) (bytes (shift pkt (ip + 12)) 4)) (ip + 12) c.netOurIP

def fillIpCksum (pkt : Buf) (ip : Nat) : Buf :=
  putLe16 pkt (ip + 10) (65535 - netCksum (shift pkt ip) (ipHdrSize / 2))

def echoIcmp (pkt : Buf) (ip : Nat) : Buf :=
  putLe16 (store pkt (ip + ipHdrSize) [icmpEchoReply]) (ip + ipHdrSize + 2) 0

def fillIcmpCksum (pkt : Buf) (ip n : Nat) : Buf :=
  putLe16 pkt (ip + ipHdrSize + 2) (65535 - netCksum (shift pkt (ip + ipHdrSize)) n)

def echoBuf (c : Config) (et : Buf) (ip n : Nat) : Buf :=
  fillIcmpCksum (echoIcmp (fillIpCksum (echoIp c et ip) ip) ip) ip n

structure UdpInside (s : Net) (inpkt : Buf) (len ip : Nat) (u : UdpCall) : Prop where
  receive : netReceive s inpkt len = rxhand s.loop.udpPacketHandler s u
  payload : ipUdpHdrSize + u.len ≤ ipLen inpkt ip
  datagram : ip + ipLen inpkt ip ≤ len
  opcode : u.len < 2 → tftpHandler s u.pkt u.dport u.sip u.sport u.len = s
  block : ∀ n blkSize offset k,
    .storeBlock n blkSize offset k ∈ (tftpHandler s u.pkt u.dport u.sip u.sport u.len).log →
      .storeBlock n blkSize offset k ∉ s.log → 4 + k ≤ u.len

structure EchoInside (s : Net) (inpkt : Buf) (len ip : Nat) : Prop where
  header : ipIcmpHdrSize ≤ ipLen inpkt ip
  answer : ∃ n, 2 * n ≤ ipLen inpkt ip - ipHdrSize ∧ netReceive s inpkt len =
    netSendPacket s (echoBuf s.cfg (netUpdateEther s.cfg inpkt (readEther inpkt 6) protIP).1 ip n)
      (ip + ipLen inpkt ip : Nat)
  datagram : ip + ipLen inpkt ip ≤ len

structure LengthsInside (s : Net) (inpkt : Buf) (len : Nat) : Prop where
  link : etherHdrSize ≤ len → ∀ l ∈ netLink s.cfg inpkt len, 0 ≤ linkLen len l
  udp : ∀ ip n u, netDecode s.cfg inpkt len = .udp ip n u → UdpInside s inpkt len ip u
  echo : ∀ ip n, netDecode s.cfg inpkt len = .icmp ip n →
    inpkt (ip + ipHdrSize) = icmpEchoRequest → EchoInside s inpkt len ip
  other : (∀ ip n u, netDecode s.cfg inpkt len ≠ .udp ip n u) → UdpIgnored s.cfg inpkt len

def Rx.HeadersSound (inpkt : Buf) : Rx → Prop
  | .udp ip _ _ => udpHdrSize ≤ udpLen inpkt ip ∧ ipHdrSize + udpLen inpkt ip ≤ ipLen inpkt ip
  | .icmp ip _ => inpkt (ip + ipHdrSize) = icmpEchoRequest → ipIcmpHdrSize ≤ ipLen inpkt ip
  | _ => True

-- An 802.2 frame has its whole header; udp_len lies between the header and ip_len; the ip_len of an
-- echo request covers the ICMP header.
structure HeadersSound (c : Config) (inpkt : Buf) (len : Nat) : Prop where
  e802 : etherHdrSize ≤ len → be16 inpkt 12 < 1514 → e802HdrSize ≤ len
  payload : (netDecode c inpkt len).HeadersSound inpkt

instance (inpkt : Buf) : (rx : Rx) → Decidable (rx.HeadersSound inpkt)
  | .udp ip _ _ => inferInstanceAs (Decidable
      (udpHdrSize ≤ udpLen inpkt ip ∧ ipHdrSize + udpLen inpkt ip ≤ ipLen inpkt ip))
  | .icmp ip _ => inferInstanceAs (Decidable
      (inpkt (ip + ipHdrSize) = icmpEchoRequest → ipIcmpHdrSize ≤ ipLen inpkt ip))
  | .arp _ _ | .drop => inferInstanceAs (Decidable True)

variable {s : Net} {c : Config} {inpkt : Buf} {len off ip : Nat} {l n : Int} {link : Link}
  {u : UdpCall}

theorem netLink_cases (h : netLink c inpkt l = some link) :
    (be16 inpkt 12 < 1514 ∧ link.hdr = e802HdrSize) ∨
    (1514 ≤ be16 inpkt 12 ∧ be16 inpkt 12 ≠ protVLAN ∧ link.hdr = etherHdrSize ∧
      link.ethProto = be16 inpkt 12) ∨
    (be16 inpkt 12 = protVLAN ∧ link.hdr = vlanEtherHdrSize ∧ vlanEtherHdrSize ≤ toU32 l) := by
  unfold netLink at h
  extract_lets protlen at h
  by_cases h802 : protlen < 1514
  · rw [if_pos h802] at h
    cases h
    exact Or.inl ⟨h802, rfl⟩
  · rw [if_neg h802] at h
    by_cases hvlan : protlen ≠ protVLAN
    · rw [if_pos hvlan] at h
      cases h
      exact Or.inr (Or.inl ⟨Nat.le_of_not_lt h802, hvlan, rfl, rfl⟩)
    · rw [if_neg hvlan] at h
      split at h
      · cases h
      · rename_i hlen
        split at h
        · cases h
        · cases h
          exact Or.inr (Or.inr ⟨not_not.mp hvlan, rfl, Nat.le_of_not_lt hlen⟩)

theorem netUpdateEther_hdr (c : Config) (et : Buf) (addr : Ether) (prot : Nat) :
    (netUpdateEther c et addr prot).2 =
      if be16 et 12 = protVLAN then vlanEtherHdrSize
      else if 1514 < be16 et 12 then etherHdrSize else e802HdrSize := by
  have hkeep : be16 (putEther (putEther et 0 addr) 6 c.netOurEther) 12 = be16 et 12 := by
    simp [be16, putEther, store]
  unfold netUpdateEther
  extract_lets et₁ et₂ protlen
  rw [show protlen = be16 et 12 from hkeep]
  split
  · rfl
  · split <;> rfl

theorem netLink_ip (h : netLink c inpkt l = some link) (hip : link.ethProto = protIP)
    (addr : Ether) : (netUpdateEther c inpkt addr protIP).2 = link.hdr := by
  rw [netUpdateEther_hdr]
  rcases netLink_cases h with ⟨hlt, hhdr⟩ | ⟨hle, hvlan, hhdr, hproto⟩ | ⟨hvlan, hhdr, -⟩
  · have hne : be16 inpkt 12 ≠ protVLAN := by
      intro heq
      rw [heq] at hlt
      exact absurd hlt (by decide)
    rw [hhdr, if_neg hne, if_neg (by omega)]
  · have hgt : 1514 < be16 inpkt 12 := by
      rw [← hproto, hip]
      decide
    rw [hhdr, if_neg hvlan, if_pos hgt]
  · rw [hhdr, if_pos hvlan]

theorem netIp_cases (c : Config) (inpkt : Buf) (off : Nat) (l : Int) :
    netIp c inpkt off l = .drop ∨ (ipLen inpkt off : Int) ≤ l ∧
      (netIp c inpkt off l = .icmp off (ipLen inpkt off) ∨
        netIp c inpkt off l = .udp off (ipLen inpkt off)
          { pkt := shift inpkt (off + ipUdpHdrSize)
            dport := be16 inpkt (off + 22)
            sip := netReadIP (shift inpkt off) 12
            sport := be16 inpkt (off + 20)
            len := sub32 (udpLen inpkt off) udpHdrSize }) := by
  unfold netIp
  extract_lets ip n dstIP srcIP
  by_cases hlen : l < be16 ip 2
  · rw [if_pos hlen]
    exact Or.inl (ite_self _)
  · have hle : (ipLen inpkt off : Int) ≤ l := Int.not_lt.mp (by rwa [be16_shift] at hlen)
    rw [if_neg hlen]
    repeat' split
    any_goals exact Or.inl rfl
    · exact Or.inr ⟨hle, Or.inl (by simp only [n, ip, be16_shift, ipLen])⟩
    · refine Or.inr ⟨hle, Or.inr ?_⟩
      simp only [n, ip, srcIP, be16_shift, shift_shift, ipLen, udpLen]

theorem netLink_hdr_lt (h : netLink c inpkt l = some link) : link.hdr < 65536 := by
  rcases netLink_cases h with ⟨-, hhdr⟩ | ⟨-, -, hhdr, -⟩ | ⟨-, hhdr, -⟩
  all_goals
    rw [hhdr]
    decide

theorem linkLen_eq (hlen : len < 2147483648) (h : netLink c inpkt l = some link) :
    linkLen len link = (len : Int) - link.hdr := by
  have hhdr := netLink_hdr_lt h
  rw [linkLen, toU32_ofNat (by omega)]
  simp only [toInt32, sub32, u32]
  split <;> split <;> omega

theorem netDecode_ip (hl : netLink c inpkt len = some link) (hproto : link.ethProto = protIP)
    (hmatch : vlanMatch c link.vlanid = true) (hlen : len < 2147483648) (hether : etherHdrSize ≤ len) :
    netDecode c inpkt len = netIp c inpkt link.hdr ((len : Int) - link.hdr) := by
  have harp : ¬protIP = protARP := by decide
  have hshort : ¬toU32 (len : Int) < etherHdrSize := by
    rw [toU32_ofNat (by omega)]
    exact Nat.not_lt.mpr hether
  simp only [netDecode, if_neg hshort, hl, hmatch, hproto, linkLen_eq hlen hl, if_neg harp,
    Bool.not_true, Bool.false_eq_true, if_false, if_true]

theorem netDecode_cases (c : Config) (inpkt : Buf) (len : Nat) (hlen : len < 2147483648) :
    netDecode c inpkt len = .drop ∨ (∃ ip n, netDecode c inpkt len = .arp ip n) ∨
    ∃ link, netLink c inpkt len = some link ∧ link.ethProto = protIP ∧
      vlanMatch c link.vlanid = true ∧
      netDecode c inpkt len = netIp c inpkt link.hdr ((len : Int) - link.hdr) := by
  unfold netDecode
  split
  · exact Or.inl rfl
  · cases hl : netLink c inpkt len with
    | none => exact Or.inl rfl
    | some link =>
      simp only [linkLen_eq hlen hl]
      split
      · exact Or.inl rfl
      · rename_i hmatch
        rw [Bool.not_eq_true', Bool.not_eq_false] at hmatch
        split
        · exact Or.inr (Or.inl ⟨_, _, rfl⟩)
        · split
          · exact Or.inr (Or.inr ⟨link, rfl, ‹_›, hmatch, rfl⟩)
          · exact Or.inl rfl

theorem netDecode_udp (hlen : len < 2147483648) (h : netDecode c inpkt len = .udp ip n u) :
    u.len = sub32 (udpLen inpkt ip) udpHdrSize ∧ ip + ipLen inpkt ip ≤ len := by
  rcases netDecode_cases c inpkt len hlen with hd | ⟨_, _, hd⟩ | ⟨link, -, -, -, hd⟩
  · rw [hd] at h
    cases h
  · rw [hd] at h
    cases h
  · rw [hd] at h
    rcases netIp_cases c inpkt link.hdr ((len : Int) - link.hdr) with hip | ⟨hle, hip | hip⟩
    all_goals
      rw [hip] at h
      cases h
    exact ⟨rfl, by omega⟩

theorem netDecode_icmp (hlen : len < 2147483648) (h : netDecode c inpkt len = .icmp ip n) :
    n = ipLen inpkt ip ∧ ip + ipLen inpkt ip ≤ len ∧
      ∀ addr, (netUpdateEther c inpkt addr protIP).2 = ip := by
  rcases netDecode_cases c inpkt len hlen with hd | ⟨_, _, hd⟩ | ⟨link, hl, hproto, -, hd⟩
  · rw [hd] at h
    cases h
  · rw [hd] at h
    cases h
  · rw [hd] at h
    rcases netIp_cases c inpkt link.hdr ((len : Int) - link.hdr) with hip | ⟨hle, hip | hip⟩
    all_goals
      rw [hip] at h
      cases h
    exact ⟨rfl, by omega, netLink_ip hl hproto⟩

theorem netReceive_request (hlen : len < 2147483648)
    (hdec : netDecode s.cfg inpkt len = .icmp ip n)
    (hreq : inpkt (ip + ipHdrSize) = icmpEchoRequest) :
    netReceive s inpkt len = netSendPacket s
      (echoBuf s.cfg (netUpdateEther s.cfg inpkt (readEther inpkt 6) protIP).1 ip
        (icmpCksumLen (ipLen inpkt ip))) (ip + ipLen inpkt ip : Nat) := by
  have hredirect : inpkt (ip + ipHdrSize) ≠ icmpRedirect := by
    rw [hreq]
    decide
  have hreply : inpkt (ip + ipHdrSize) ≠ icmpEchoReply := by
    rw [hreq]
    decide
  obtain ⟨rfl, -, hsize⟩ := netDecode_icmp hlen hdec
  simp only [netReceive, hdec, receiveIcmp, if_neg hredirect, pingReceive, if_neg hreply,
    if_pos hreq, hsize]
  rw [Nat.cast_add]
  rfl

theorem icmpCksumLen_ofNat {m : Nat} (h : m < 65536) :
    2 * icmpCksumLen m ≤ m - ipHdrSize ↔ ipHdrSize ≤ m := by
  rw [icmpCksumLen, toU32_ofNat (by omega), ipHdrSize]
  rcases Nat.le_total 20 m with hle | hle
  · rw [sub32_of_le hle]
    omega
  · by_cases heq : m = 20
    · subst heq
      decide
    · rw [sub32_of_lt (by omega)]
      omega

theorem udpInside_iff (hlen : len < 2147483648) (h : netDecode s.cfg inpkt len = .udp ip n u) :
    UdpInside s inpkt len ip u ↔
      udpHdrSize ≤ udpLen inpkt ip ∧ ipHdrSize + udpLen inpkt ip ≤ ipLen inpkt ip := by
  obtain ⟨hsize, hdatagram⟩ := netDecode_udp hlen h
  have hmax := be16_lt inpkt (ip + 2)
  have hudp := be16_lt inpkt (ip + 24)
  have hpayload : ipUdpHdrSize + u.len ≤ ipLen inpkt ip ↔
      udpHdrSize ≤ udpLen inpkt ip ∧ ipHdrSize + udpLen inpkt ip ≤ ipLen inpkt ip := by
    simp only [hsize, ipUdpHdrSize, udpHdrSize, ipHdrSize, ipLen, udpLen]
    by_cases hcover : 8 ≤ be16 inpkt (ip + 24)
    · rw [sub32_of_le hcover]
      omega
    · rw [sub32_of_lt (Nat.lt_of_not_le hcover)]
      omega
  constructor
  · intro hin
    exact hpayload.mp hin.payload
  · intro hsound
    exact {
      receive := (handles_of_decode h).receive
      payload := hpayload.mpr hsound
      datagram := hdatagram
      opcode := fun hshort => tftpHandler_refused fun ha => Nat.not_le.mpr hshort ha.long
      block := fun _ _ _ _ => tftpHandler_store }

theorem echoInside_iff (hlen : len < 2147483648) (hdec : netDecode s.cfg inpkt len = .icmp ip n)
    (hreq : inpkt (ip + ipHdrSize) = icmpEchoRequest) :
    EchoInside s inpkt len ip ↔ ipIcmpHdrSize ≤ ipLen inpkt ip := by
  obtain ⟨-, hdatagram, -⟩ := netDecode_icmp hlen hdec
  constructor
  · intro h
    exact h.header
  · intro hheader
    have hcksum : 2 * icmpCksumLen (ipLen inpkt ip) ≤ ipLen inpkt ip - ipHdrSize :=
      (icmpCksumLen_ofNat (be16_lt inpkt (ip + 2))).mpr
        ((Nat.le_add_right ipHdrSize icmpHdrSize).trans hheader)
    exact ⟨hheader, ⟨_, hcksum, netReceive_request hlen hdec hreq⟩, hdatagram⟩

theorem lengths_inside_iff (s : Net) (inpkt : Buf) (len : Nat) (hlen : len < 2147483648) :
    LengthsInside s inpkt len ↔ HeadersSound s.cfg inpkt len := by
  have hlink : (etherHdrSize ≤ len → ∀ l ∈ netLink s.cfg inpkt len, 0 ≤ linkLen len l) ↔
      (etherHdrSize ≤ len → be16 inpkt 12 < 1514 → e802HdrSize ≤ len) := by
    refine forall_congr' fun hether => ?_
    constructor
    · intro h h802
      have hsome : netLink s.cfg inpkt len = some ⟨be16 inpkt 20, e802HdrSize, vlanNone⟩ :=
        if_pos h802
      have hpos := h _ hsome
      rw [linkLen_eq hlen hsome] at hpos
      exact Int.ofNat_le.mp (Int.sub_nonneg.mp hpos)
    · intro h l hl
      rw [linkLen_eq hlen hl]
      have hle : l.hdr ≤ len := by
        rcases netLink_cases hl with ⟨h802, hhdr⟩ | ⟨-, -, hhdr, -⟩ | ⟨-, hhdr, hvlan⟩
        · rw [hhdr]
          exact h h802
        · rwa [hhdr]
        · rwa [hhdr, ← toU32_ofNat (n := len) (by omega)]
      omega
  constructor
  · intro h
    refine ⟨hlink.mp h.link, ?_⟩
    cases hd : netDecode s.cfg inpkt len with
    | udp ip n u => exact (udpInside_iff hlen hd).mp (h.udp ip n u hd)
    | icmp ip n => exact fun hreq => (echoInside_iff hlen hd hreq).mp (h.echo ip n hd hreq)
    | _ => trivial
  · intro h
    refine ⟨hlink.mpr h.e802, ?_, ?_, udpIgnored_of_decode⟩
    · intro ip n u hd
      have hsound := h.payload
      rw [hd] at hsound
      exact (udpInside_iff hlen hd).mpr hsound
    · intro ip n hd hreq
      have hsound := h.payload
      rw [hd] at hsound
      exact (echoInside_iff hlen hd hreq).mpr (hsound hreq)

def sampleConfig : Config := sampleBoard.cfg

def sampleUdpFrame (udpLen : Nat) : Buf :=
  let pkt := netSetUdpHeader sampleConfig 0 (fun _ => 0) netBroadcastIP 69 1024 4
  mapFrom (putBe16 (fun _ => 0) 12 protIP) etherHdrSize (fun _ => putBe16 pkt 24 udpLen)

theorem lengths_inside_four_bytes : LengthsInside sampleBoard (sampleUdpFrame 12) 64 :=
  (lengths_inside_iff _ _ _ (by decide)).mpr ⟨by decide +kernel, by decide +kernel⟩

-- The payload length the handler gets is 0 - 8.
theorem lengths_outside : ¬∀ (s : Net) (inpkt : Buf) (len : Nat), len < 2147483648 →
    LengthsInside s inpkt len := by
  intro h
  have hdec : ∃ u, netDecode sampleConfig (sampleUdpFrame 0) 64 = .udp 14 32 u := ⟨_, rfl⟩
  obtain ⟨u, hu⟩ := hdec
  have hinside := (h sampleBoard (sampleUdpFrame 0) 64 (by decide)).udp 14 32 u hu
  exact absurd ((udpInside_iff (by decide) hu).mp hinside) (by decide +kernel)

end NonOsLite
