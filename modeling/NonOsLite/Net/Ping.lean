import NonOsLite.Net.Arp

namespace NonOsLite
open ByteBuf

def icmpEchoReply : UInt8 := 0
def icmpEchoRequest : UInt8 := 8
def icmpRedirect : UInt8 := 5

def setIcmpHeader (c : Config) (ipID seqNo : Nat) (pkt : Buf) (dest : IPaddr) : Buf :=
  let pkt := netSetIpHeader ipID pkt dest c.netOurIP
  let pkt := putBe16 pkt 2 ipIcmpHdrSize
  let pkt := store pkt 9 [ipprotoICMP]
  let pkt := putLe16 pkt 10 (65535 - netCksum pkt (ipHdrSize / 2))
  mapFrom pkt ipHdrSize (fun icmp =>
    let icmp := store icmp 0 [icmpEchoRequest, 0, 0, 0, 0, 0]
    let icmp := putBe16 icmp 6 seqNo
    putLe16 icmp 2 (65535 - netCksum icmp (icmpHdrSize / 2)))

def pingSend (s : Net) : Net :=
  let s := { s with tx.netArpWaitPacketIP := s.ping.netPingIP }
  let (pkt, ethHdrSize) := netSetEther s.cfg s.tx.netTxPacket netEtherNullAddr protIP
  let pkt := mapFrom pkt ethHdrSize
    (fun p => setIcmpHeader s.cfg s.tx.netIPID s.ping.pingSeqNo p s.ping.netPingIP)
  let s := emitEvent s (.echoRequest 0 s.ping.pingSeqNo)
  let t := getTimer s 0
  let s := tick s
  arpRequest { s with
    tx.netTxPacket := pkt
    tx.netIPID := u32 (s.tx.netIPID + 1)
    ping.pingSeqNo := u16 (s.ping.pingSeqNo + 1)
    tx.netArpWaitTxPacketSize := (ethHdrSize + ipIcmpHdrSize : Nat)
    tx.netArpWaitTry := 1
    tx.netArpWaitTimerStart := t }

def pingTimeout (s : Net) : Net := netSetState s .netloopFail

def pingStart (s : Net) : Net := pingSend (netSetTimeout s 10000 .pingTimeout)

-- Halfwords under the ICMP checksum: (len - IP_HDR_SIZE) >> 1, an unsigned difference.
def icmpCksumLen (len : Int) : Nat := sub32 (toU32 len) ipHdrSize / 2

def pingReceive (s : Net) (et : Buf) (ip : Nat) (len : Int) : Net :=
  let icmph := ip + ipHdrSize
  if et icmph = icmpEchoReply then
    let srcIP := netReadIP et (ip + 12)
    let s := emitEvent s (.echoReply srcIP (be16 et (icmph + 4)) (be16 et (icmph + 6)))
    if srcIP = s.ping.netPingIP then netSetState s .netloopSuccess else s
  else if et icmph = icmpEchoRequest then
    let (pkt, ethHdrSize) := netUpdateEther s.cfg et (readEther et 6) protIP
    let pkt := putLe16 pkt (ip + 10) 0
    let pkt := putLe16 pkt (ip + 6) 0
    let pkt := store pkt (ip + 16) (bytes (shift pkt (ip + 12)) 4)
    let pkt := netWriteIP pkt (ip + 12) s.cfg.netOurIP
    let pkt := putLe16 pkt (ip + 10) (65535 - netCksum (shift pkt ip) (ipHdrSize / 2))
    let pkt := store pkt icmph [icmpEchoReply]
    let pkt := putLe16 pkt (icmph + 2) 0
    let pkt := putLe16 pkt (icmph + 2) (65535 - netCksum (shift pkt icmph) (icmpCksumLen len))
    netSendPacket s pkt (ethHdrSize + len)
  else s

end NonOsLite
