import NonOsLite.Net.RoundTrip

namespace NonOsLite
open ByteBuf OnesComplement

inductive LinkIp (inpkt : Buf) : Nat → Option Nat → Prop where
  | ethernetII : be16 inpkt 12 = protIP → LinkIp inpkt etherHdrSize none
  | snap : be16 inpkt 12 < 1514 → be16 inpkt 20 = protIP → LinkIp inpkt e802HdrSize none
  | vlan : be16 inpkt 12 = protVLAN → be16 inpkt 16 = protIP →
      LinkIp inpkt vlanEtherHdrSize (some (be16 inpkt 14 % 4096))

-- A node in no VLAN takes untagged frames; the others count as of the native VLAN without a tag.
def VlanRule (c : Config) (tag : Option Nat) : Prop :=
  if vlanOf c.netOurVLAN &&& vlanIdmask = vlanNone then tag = none
  else
    (if tag.getD vlanNone = vlanNone then vlanOf c.netOurNativeVLAN &&& vlanIdmask
      else tag.getD vlanNone) = vlanOf c.netOurVLAN &&& vlanIdmask

structure Addressed (c : Config) (inpkt : Buf) (len hdr : Nat) : Prop where
  room : hdr + ipUdpHdrSize ≤ len
  version : (inpkt hdr).toNat / 16 = 4
  inside : hdr + ipLen inpkt hdr ≤ len
  cksum : Verifies (shift inpkt hdr) (ipHdrSize / 2)
  dest : c.netOurIP = 0 ∨ netReadIP inpkt (hdr + 16) = c.netOurIP ∨
    netReadIP inpkt (hdr + 16) = netBroadcastIP
  whole : be16 inpkt (hdr + 6) % 16384 = 0
  proto : inpkt (hdr + 9) = ipprotoUDP

def headerWords (inpkt : Buf) (hdr : Nat) : Nat := (inpkt hdr).toNat % 16

def WellFormedUdp (c : Config) (inpkt : Buf) (len : Nat) : Prop :=
  ∃ hdr tag, LinkIp inpkt hdr tag ∧ VlanRule c tag ∧ Addressed c inpkt len hdr ∧
    headerWords inpkt hdr = 5 ∧ ipUdpHdrSize ≤ ipLen inpkt hdr

def UdpCalled (c : Config) (inpkt : Buf) (len : Nat) : Prop :=
  ∃ u, ∀ s : Net, s.cfg = c → Handles s inpkt len u

structure ServesUdp (c : Config) (inpkt : Buf) (len : Nat) : Prop where
  called : UdpCalled c inpkt len ↔ WellFormedUdp c inpkt len
  ignored : ¬WellFormedUdp c inpkt len → UdpIgnored c inpkt len

-- A datagram otherwise for this node has no short IP header, and its length covers both headers.
def HeadersCovered (c : Config) (inpkt : Buf) (len : Nat) : Prop :=
  ∀ hdr tag, LinkIp inpkt hdr tag → VlanRule c tag → Addressed c inpkt len hdr →
    headerWords inpkt hdr ≤ 5 → headerWords inpkt hdr = 5 ∧ ipUdpHdrSize ≤ ipLen inpkt hdr

variable {c : Config} {inpkt p : Buf} {len hdr hdr' n off : Nat} {tag tag' : Option Nat}
  {link : Link}

theorem netReadIP_shift (p : Buf) (n off : Nat) :
    netReadIP (shift p n) off = netReadIP p (n + off) := by
  simp only [netReadIP, le32, le16_shift, Nat.add_assoc]

theorem version_iff (b : UInt8) : b &&& 0xf0 = 0x40 ↔ b.toNat / 16 = 4 := by
  have hall : ∀ n < 256, n &&& 0xf0 = 0x40 ↔ n / 16 = 4 := by decide +kernel
  rw [← UInt8.toNat_inj, UInt8.toNat_and]
  exact hall _ b.toNat_lt

theorem headerWords_le_iff (b : UInt8) : ¬0x05 < b &&& 0x0f ↔ b.toNat % 16 ≤ 5 := by
  rw [UInt8.lt_iff_toNat_lt, UInt8.toNat_and, Nat.not_lt]
  exact (Nat.and_two_pow_sub_one_eq_mod b.toNat 4) ▸ Iff.rfl

theorem drop_or_udp {q : Prop} [Decidable q] {rx : Rx} {ip : Nat} {l : Int} {u : UdpCall} :
    (if q then .drop else rx) = .udp ip l u ↔ ¬q ∧ rx = .udp ip l u := by
  split <;> simp [*]

theorem icmp_or_udp {q : Prop} [Decidable q] {rx : Rx} {off ip : Nat} {l l' : Int} {u : UdpCall} :
    (if q then .icmp off l' else rx) = .udp ip l u ↔ ¬q ∧ rx = .udp ip l u := by
  split <;> simp [*]

theorem netIp_udp_iff (hlen : len < 2147483648) :
    (∃ ip l u, netIp c inpkt off ((len : Int) - off) = .udp ip l u) ↔
      Addressed c inpkt len off ∧ headerWords inpkt off ≤ 5 := by
  have hroom : ¬toU32 ((len : Int) - off) < ipUdpHdrSize ∧ ¬((len : Int) - off < ipLen inpkt off) ↔
      off + ipUdpHdrSize ≤ len ∧ off + ipLen inpkt off ≤ len := by
    have hmax := be16_lt inpkt (off + 2)
    simp only [toU32, ipUdpHdrSize, ipLen]
    omega
  have hwhole : be16 inpkt (off + 6) &&& 0x3fff = be16 inpkt (off + 6) % 16384 :=
    Nat.and_two_pow_sub_one_eq_mod _ 14
  simp only [netIp, drop_or_udp, icmp_or_udp, be16_shift, netReadIP_shift, hwhole,
    ne_eq, not_not, version_iff, headerWords_le_iff, Bool.not_eq_true', Bool.not_eq_false,
    netCksumOk_iff (p := shift inpkt off) (n := ipHdrSize / 2) (by decide)]
  constructor
  · rintro ⟨ip, l, u, hshort, hinside, hversion, hwords, hcksum, hdest, hfrag, -, hproto, -⟩
    obtain ⟨hfits, hcovers⟩ := hroom.mp ⟨hshort, hinside⟩
    refine ⟨⟨hfits, hversion, hcovers, hcksum, ?_, hfrag, hproto⟩, hwords⟩
    by_cases hip : c.netOurIP = 0
    · exact Or.inl hip
    · by_cases hours : netReadIP inpkt (off + 16) = c.netOurIP
      · exact Or.inr (Or.inl hours)
      · exact Or.inr (Or.inr (not_not.mp fun hb => hdest ⟨hip, hours, hb⟩))
  · rintro ⟨h, hwords⟩
    obtain ⟨hshort, hinside⟩ := hroom.mpr ⟨h.room, h.inside⟩
    have hicmp : ¬shift inpkt off 9 = ipprotoICMP := by
      rw [shift_apply, h.proto]
      decide
    refine ⟨_, _, _, hshort, hinside, h.version, hwords, h.cksum, ?_, h.whole, hicmp, h.proto, rfl⟩
    rintro ⟨hip, hours, hbcast⟩
    rcases h.dest with hd | hd | hd
    · exact hip hd
    · exact hours hd
    · exact hbcast hd

theorem vlanOf_none_iff (v : Nat) :
    vlanOf v &&& vlanIdmask = vlanNone ↔ ntohs v &&& vlanIdmask = vlanNone := by
  unfold vlanOf
  split <;> rename_i h
  · rw [h]
    decide
  · rfl

theorem LinkIp.unique (h : LinkIp inpkt hdr tag) (k : LinkIp inpkt hdr' tag') :
    hdr = hdr' ∧ tag = tag' := by
  have hip : protIP = 2048 := rfl
  have hvlan : protVLAN = 33024 := rfl
  cases h <;> cases k <;> first | exact ⟨rfl, rfl⟩ | omega

theorem LinkIp.netLink (h : LinkIp inpkt hdr tag) (hv : VlanRule c tag) (hlen : len < 2147483648)
    (hhdr : hdr ≤ len) :
    netLink c inpkt len = some ⟨protIP, hdr, tag.getD vlanNone⟩ ∧
      vlanMatch c (tag.getD vlanNone) = true := by
  constructor
  · cases h with
    | ethernetII hproto =>
      simp only [NonOsLite.netLink, hproto]
      rfl
    | snap h802 hproto => simp only [NonOsLite.netLink, if_pos h802, hproto, Option.getD_none]
    | vlan hvlan hproto =>
      have hours : ¬ntohs c.netOurVLAN &&& vlanIdmask = vlanNone := by
        intro hnone
        rw [VlanRule, if_pos ((vlanOf_none_iff _).mpr hnone)] at hv
        cases hv
      have hlong : ¬toU32 (len : Int) < vlanEtherHdrSize := by
        rw [toU32_ofNat (by omega)]
        exact Nat.not_lt.mpr hhdr
      have hmask : be16 inpkt 14 &&& vlanIdmask = be16 inpkt 14 % 4096 :=
        Nat.and_two_pow_sub_one_eq_mod _ 12
      simp only [NonOsLite.netLink, hvlan, if_neg hlong, if_neg hours, hproto, hmask]
      rfl
  · unfold vlanMatch
    extract_lets ours native vlanid
    by_cases hnone : ours &&& vlanIdmask = vlanNone
    · rw [if_neg (not_not.mpr hnone)]
    · rw [VlanRule, if_neg hnone] at hv
      rw [if_pos hnone]
      exact decide_eq_true hv

theorem netLink_linkIp (h : netLink c inpkt len = some link) (hip : link.ethProto = protIP)
    (hv : vlanMatch c link.vlanid = true) :
    ∃ tag, LinkIp inpkt link.hdr tag ∧ VlanRule c tag := by
  have hrule {tag : Option Nat} (htag : link.vlanid = tag.getD vlanNone)
      (hnone : vlanOf c.netOurVLAN &&& vlanIdmask = vlanNone → tag = none) : VlanRule c tag := by
    unfold VlanRule
    by_cases hours : vlanOf c.netOurVLAN &&& vlanIdmask = vlanNone
    · rw [if_pos hours]
      exact hnone hours
    · rw [if_neg hours, ← htag]
      unfold vlanMatch at hv
      rw [if_pos hours] at hv
      exact of_decide_eq_true hv
  unfold netLink at h
  extract_lets protlen at h
  by_cases h802 : protlen < 1514
  · rw [if_pos h802] at h
    cases h
    exact ⟨none, .snap h802 hip, hrule rfl fun _ => rfl⟩
  · rw [if_neg h802] at h
    by_cases hvlan : protlen ≠ protVLAN
    · rw [if_pos hvlan] at h
      cases h
      exact ⟨none, .ethernetII hip, hrule rfl fun _ => rfl⟩
    · rw [if_neg hvlan] at h
      split at h
      · cases h
      · split at h
        · cases h
        · rename_i hours
          cases h
          refine ⟨some (be16 inpkt 14 % 4096), .vlan (not_not.mp hvlan) hip, hrule ?_ ?_⟩
          · exact Nat.and_two_pow_sub_one_eq_mod _ 12
          · intro hnone
            exact absurd ((vlanOf_none_iff _).mp hnone) hours

theorem netDecode_linkIp (c : Config) (inpkt : Buf) (hlen : len < 2147483648) :
    netDecode c inpkt len = .drop ∨ (∃ ip n, netDecode c inpkt len = .arp ip n) ∨
    ∃ hdr tag, LinkIp inpkt hdr tag ∧ VlanRule c tag ∧
      netDecode c inpkt len = netIp c inpkt hdr ((len : Int) - hdr) := by
  rcases netDecode_cases c inpkt len hlen with hd | harp | ⟨link, hl, hip, hmatch, hd⟩
  · exact Or.inl hd
  · exact Or.inr (Or.inl harp)
  · obtain ⟨tag, hlink, hvlan⟩ := netLink_linkIp hl hip hmatch
    exact Or.inr (Or.inr ⟨link.hdr, tag, hlink, hvlan, hd⟩)

theorem LinkIp.netDecode (h : LinkIp inpkt hdr tag) (hv : VlanRule c tag) (hlen : len < 2147483648)
    (hhdr : hdr ≤ len) : netDecode c inpkt len = netIp c inpkt hdr ((len : Int) - hdr) := by
  obtain ⟨hl, hmatch⟩ := h.netLink hv hlen hhdr
  have hether : etherHdrSize ≤ hdr := by cases h <;> decide
  exact netDecode_ip hl rfl hmatch hlen (hether.trans hhdr)

theorem udpCalled_iff_decode :
    UdpCalled c inpkt len ↔ ∃ ip n u, netDecode c inpkt len = .udp ip n u := by
  constructor
  · rintro ⟨u, hu⟩
    obtain ⟨ip, n, hd⟩ := (hu { sampleBoard with cfg := c } rfl).decode
    exact ⟨ip, n, u, hd⟩
  · rintro ⟨ip, n, u, hd⟩
    refine ⟨u, ?_⟩
    rintro s rfl
    exact handles_of_decode hd

theorem udpIgnored_of_not_called (h : ¬UdpCalled c inpkt len) : UdpIgnored c inpkt len :=
  udpIgnored_of_decode fun ip n u hd => h (udpCalled_iff_decode.mpr ⟨ip, n, u, hd⟩)

theorem udpCalled_iff (hlen : len < 2147483648) :
    UdpCalled c inpkt len ↔ ∃ hdr tag, LinkIp inpkt hdr tag ∧ VlanRule c tag ∧
      Addressed c inpkt len hdr ∧ headerWords inpkt hdr ≤ 5 := by
  rw [udpCalled_iff_decode]
  constructor
  · rintro ⟨ip, l, u, h⟩
    rcases netDecode_linkIp c inpkt hlen with hd | ⟨_, _, hd⟩ | ⟨hdr, tag, hlink, hvlan, hd⟩
    · rw [hd] at h
      cases h
    · rw [hd] at h
      cases h
    · rw [hd] at h
      exact ⟨hdr, tag, hlink, hvlan, (netIp_udp_iff hlen).mp ⟨ip, l, u, h⟩⟩
  · rintro ⟨hdr, tag, hlink, hvlan, haddr, hwords⟩
    rw [hlink.netDecode hvlan hlen (Nat.le_of_add_right_le haddr.room)]
    exact (netIp_udp_iff hlen).mpr ⟨haddr, hwords⟩

theorem udp_called_iff (c : Config) (inpkt : Buf) (len : Nat) (hlen : len < 2147483648) :
    ServesUdp c inpkt len ↔ HeadersCovered c inpkt len := by
  constructor
  · intro h hdr tag hlink hvlan haddr hwords
    obtain ⟨hdr', tag', hlink', -, -, hfive, hcovers⟩ :=
      h.called.mp ((udpCalled_iff hlen).mpr ⟨hdr, tag, hlink, hvlan, haddr, hwords⟩)
    obtain ⟨rfl, -⟩ := hlink.unique hlink'
    exact ⟨hfive, hcovers⟩
  · intro h
    have hcalled : UdpCalled c inpkt len ↔ WellFormedUdp c inpkt len := by
      rw [udpCalled_iff hlen]
      constructor
      · rintro ⟨hdr, tag, hlink, hvlan, haddr, hwords⟩
        exact ⟨hdr, tag, hlink, hvlan, haddr, h hdr tag hlink hvlan haddr hwords⟩
      · rintro ⟨hdr, tag, hlink, hvlan, haddr, hfive, -⟩
        exact ⟨hdr, tag, hlink, hvlan, haddr, Nat.le_of_eq hfive⟩
    exact ⟨hcalled, fun hill => udpIgnored_of_not_called (mt hcalled.mp hill)⟩

theorem udp_called_four_bytes : ServesUdp sampleConfig (sampleUdpFrame 12) 64 := by
  refine (udp_called_iff _ _ _ (by decide)).mpr ?_
  intro hdr tag hlink _ _ _
  obtain ⟨rfl, -⟩ := hlink.unique (.ethernetII (by decide +kernel))
  exact ⟨by decide +kernel, by decide +kernel⟩

def sampleShortHeader : Buf :=
  mapFrom (sampleUdpFrame 12) etherHdrSize (fun pkt =>
    let pkt := putLe16 (store pkt 0 [0x44]) 10 0
    putLe16 pkt 10 (65535 - netCksum pkt (ipHdrSize / 2)))

theorem udp_called_short_header : ¬∀ (c : Config) (inpkt : Buf) (len : Nat), len < 2147483648 →
    ServesUdp c inpkt len := by
  intro h
  have hserves := h sampleConfig sampleShortHeader 64 (by decide)
  have hlink : LinkIp sampleShortHeader etherHdrSize none := .ethernetII (by decide +kernel)
  have hcalled : UdpCalled sampleConfig sampleShortHeader 64 := by
    have hvlan : VlanRule sampleConfig none := (if_pos (by decide)).mpr rfl
    refine (udpCalled_iff (by decide)).mpr ⟨etherHdrSize, none, hlink, hvlan, ?_, by decide +kernel⟩
    exact {
      room := by decide
      version := by decide +kernel
      inside := by decide +kernel
      cksum := (netCksumOk_iff (by decide)).mp (by decide +kernel)
      dest := Or.inl (by decide)
      whole := by decide +kernel
      proto := by decide +kernel }
  obtain ⟨hdr, tag, hlink', -, -, hfive, -⟩ := hserves.called.mp hcalled
  obtain ⟨rfl, -⟩ := hlink'.unique hlink
  exact absurd hfive (by decide +kernel)

end NonOsLite
