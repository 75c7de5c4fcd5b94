import NonOsLite.Net.Ping
import NonOsLite.Net.Tftp

namespace NonOsLite
open ByteBuf

structure UdpCall where
  pkt : Buf
  dport : Nat
  sip : IPaddr
  sport : Nat
  len : Nat

-- What NetReceive does with a frame; ip is the offset of the header behind the link header.
inductive Rx where
  | drop
  | arp (ip : Nat) (len : Int)
  | icmp (ip : Nat) (len : Int)
  | udp (ip : Nat) (len : Int) (call : UdpCall)

structure Link where
  ethProto : Nat
  hdr : Nat
  vlanid : Nat

def netLink (c : Config) (inpkt : Buf) (len : Int) : Option Link :=
  let protlen := be16 inpkt 12
  if protlen < 1514 then some ⟨be16 inpkt 20, e802HdrSize, vlanNone⟩
  else if protlen ≠ protVLAN then some ⟨protlen, etherHdrSize, vlanNone⟩
  else if toU32 len < vlanEtherHdrSize then none
  else if ntohs c.netOurVLAN &&& vlanIdmask = vlanNone then none
  else some ⟨be16 inpkt 16, vlanEtherHdrSize, be16 inpkt 14 &&& vlanIdmask⟩

-- The length behind the link header: an unsigned difference, an int again.
def linkLen (len : Int) (link : Link) : Int := toInt32 (sub32 (toU32 len) link.hdr)

def vlanMatch (c : Config) (vlanid : Nat) : Bool :=
  let myvlanid := vlanOf c.netOurVLAN
  let mynvlanid := vlanOf c.netOurNativeVLAN
  if myvlanid &&& vlanIdmask ≠ vlanNone then
    let vlanid := if vlanid = vlanNone then mynvlanid &&& vlanIdmask else vlanid
    vlanid = myvlanid &&& vlanIdmask
  else true

def netIp (c : Config) (inpkt : Buf) (off : Nat) (len : Int) : Rx :=
  let ip := shift inpkt off
  -- sizeof is unsigned, ntohs(..) promotes to int
  if toU32 len < ipUdpHdrSize then .drop
  else if len < be16 ip 2 then .drop
  else
    let len := be16 ip 2
    if ip 0 &&& 0xf0 ≠ 0x40 then .drop
    else if 0x05 < ip 0 &&& 0x0f then .drop
    else if !netCksumOk ip (ipHdrSize / 2) then .drop
    else
      let dstIP := netReadIP ip 16
      if c.netOurIP ≠ 0 ∧ dstIP ≠ c.netOurIP ∧ dstIP ≠ netBroadcastIP then .drop
      else
        let srcIP := netReadIP ip 12
        -- a fragment: NetDefragment gives NULL without CONFIG_IP_DEFRAG
        if be16 ip 6 &&& 0x3fff ≠ 0 then .drop
        else if ip 9 = ipprotoICMP then .icmp off len
        else if ip 9 ≠ ipprotoUDP then .drop
        else .udp off len
          { pkt := shift ip ipUdpHdrSize
            dport := be16 ip 22
            sip := srcIP
            sport := be16 ip 20
            len := sub32 (be16 ip 24) udpHdrSize }

def netDecode (c : Config) (inpkt : Buf) (len : Int) : Rx :=
  if toU32 len < etherHdrSize then .drop
  else
    match netLink c inpkt len with
    | none => .drop
    | some link =>
        let len := linkLen len link
        if !vlanMatch c link.vlanid then .drop
        else if link.ethProto = protARP then .arp link.hdr len
        else if link.ethProto = protIP then netIp c inpkt link.hdr len
        else .drop

def receiveIcmp (s : Net) (et : Buf) (ip : Nat) (len : Int) : Net :=
  -- a redirect is only reported
  if et (ip + ipHdrSize) = icmpRedirect then s else pingReceive s et ip len

def rxhand : RxHand → Net → UdpCall → Net
  | .dummyHandler, s, _ => s
  | .tftpHandler, s, u => tftpHandler s u.pkt u.dport u.sip u.sport u.len

def netReceive (s : Net) (inpkt : Buf) (len : Int) : Net :=
  match netDecode s.cfg inpkt len with
  | .drop => s
  | .arp ip len => arpReceive s inpkt ip len
  | .icmp ip len => receiveIcmp s inpkt ip len
  | .udp _ _ u => rxhand s.loop.udpPacketHandler s u

end NonOsLite
