import NonOsLite.Net.Core

namespace NonOsLite
open ByteBuf

def arpTimeoutMSecs : Nat := 5000
def arpTimeoutCount : Nat := 5

def arpInit (s : Net) : Net :=
  { s with
    tx.netArpWaitPacketMAC := none
    tx.netArpWaitPacketIP := 0
    tx.netArpWaitReplyIP := 0
    tx.netArpWaitTxPacketSize := 0 }

def arpRawRequest (s : Net) (sourceIP : IPaddr) (targetEther : Ether) (targetIP : IPaddr) : Net :=
  let (pkt, ethHdrSize) := netSetEther s.cfg s.tx.netArpTxPacket s.tx.netBcastAddr protARP
  let arp := ethHdrSize
  let pkt := putBe16 pkt arp 1
  let pkt := putBe16 pkt (arp + 2) protIP
  let pkt := store pkt (arp + 4) [6, 4]
  let pkt := putBe16 pkt (arp + 6) 1
  let pkt := putEther pkt (arp + 8) s.cfg.netOurEther
  let pkt := netWriteIP pkt (arp + 14) sourceIP
  let pkt := putEther pkt (arp + 18) targetEther
  let pkt := netWriteIP pkt (arp + 24) targetIP
  netSendPacket { s with tx.netArpTxPacket := pkt } pkt (ethHdrSize + arpHdrSize)

def arpRequest (s : Net) : Net :=
  let replyIP :=
    if s.tx.netArpWaitPacketIP &&& s.cfg.netOurSubnetMask ≠
        s.cfg.netOurIP &&& s.cfg.netOurSubnetMask then
      if s.cfg.netOurGatewayIP = 0 then s.tx.netArpWaitPacketIP else s.cfg.netOurGatewayIP
    else s.tx.netArpWaitPacketIP
  let s := { s with tx.netArpWaitReplyIP := replyIP }
  arpRawRequest s s.cfg.netOurIP netEtherNullAddr replyIP

def arpTimeoutCheck (s : Net) : Net :=
  if s.tx.netArpWaitPacketIP = 0 then s
  else
    let t := getTimer s 0
    let s := tick s
    if arpTimeoutMSecs < sub32 t s.tx.netArpWaitTimerStart then
      let s := { s with tx.netArpWaitTry := s.tx.netArpWaitTry + 1 }
      if arpTimeoutCount ≤ s.tx.netArpWaitTry then { s with tx.netArpWaitTry := 0 }
      else arpRequest { s with tx.netArpWaitTimerStart := t }
    else s

-- et is the whole frame and arp the offset of the ARP header in it.
def arpForUs (s : Net) (et : Buf) (arp : Nat) (len : Int) : Bool :=
  arpHdrSize ≤ len && be16 et arp == 1 && be16 et (arp + 2) == protIP && et (arp + 4) == 6 &&
    et (arp + 5) == 4 && s.cfg.netOurIP != 0 && netReadIP et (arp + 24) == s.cfg.netOurIP

def arpReply (s : Net) (et : Buf) (arp : Nat) : Net :=
  let (pkt, ethHdrSize) := netUpdateEther s.cfg et (readEther et 6) protARP
  let pkt := putBe16 pkt (arp + 6) 2
  let pkt := store pkt (arp + 18) (bytes (shift pkt (arp + 8)) 6)
  let pkt := store pkt (arp + 24) (bytes (shift pkt (arp + 14)) 4)
  let pkt := putEther pkt (arp + 8) s.cfg.netOurEther
  let pkt := netWriteIP pkt (arp + 14) s.cfg.netOurIP
  netSendPacket s pkt (ethHdrSize + arpHdrSize)

def arpResolved (s : Net) (sha : Ether) : Net :=
  let s := match s.tx.netArpWaitPacketMAC with
    | none => s
    | some p => setEtherAt s sha p
  -- the ARP handler called here is never anything but the dummy
  let pkt := putEther s.tx.netTxPacket 0 sha
  let s := netSendPacket { s with tx.netTxPacket := pkt } pkt s.tx.netArpWaitTxPacketSize
  { s with
    tx.netArpWaitPacketIP := 0
    tx.netArpWaitTxPacketSize := 0
    tx.netArpWaitPacketMAC := none }

def arpReceive (s : Net) (et : Buf) (arp : Nat) (len : Int) : Net :=
  if !arpForUs s et arp len then s
  else if be16 et (arp + 6) = 1 then arpReply s et arp
  else if be16 et (arp + 6) = 2 then
    if s.tx.netArpWaitPacketIP = 0 then s
    else if netReadIP et (arp + 14) = s.tx.netArpWaitReplyIP then
      arpResolved s (readEther et (arp + 8))
    else s
  else s

def netSendUdpPacket (s : Net) (ether : EtherPtr) (dest : IPaddr) (dport sport payloadLen : Nat) :
    Net :=
  let dest := if dest = 0 then netBroadcastIP else dest
  let ether := if dest = netBroadcastIP then .netBcastAddr else ether
  let (pkt, ethHdrSize) := netSetEther s.cfg s.tx.netTxPacket (etherAt s ether) protIP
  let pkt := mapFrom pkt ethHdrSize
    (fun p => netSetUdpHeader s.cfg s.tx.netIPID p dest dport sport payloadLen)
  let s := { s with tx.netTxPacket := pkt, tx.netIPID := u32 (s.tx.netIPID + 1) }
  let len : Int := (ethHdrSize + ipUdpHdrSize + payloadLen : Nat)
  if etherAt s ether = netEtherNullAddr then
    let t := getTimer s 0
    let s := tick s
    arpRequest { s with
      tx.netArpWaitPacketIP := dest
      tx.netArpWaitPacketMAC := some ether
      tx.netArpWaitTxPacketSize := len
      tx.netArpWaitTry := 1
      tx.netArpWaitTimerStart := t }
  else netSendPacket s s.tx.netTxPacket len

end NonOsLite
