import NonOsLite.Lib.ByteBuf
import NonOsLite.Libc.CInt

namespace NonOsLite
open ByteBuf

-- An address keeps the network byte order it has in a packet.
abbrev IPaddr := UInt32

abbrev Ether := Vector UInt8 6

inductive NetLoopState where
  | netloopContinue
  | netloopRestart
  | netloopSuccess
  | netloopFail
deriving DecidableEq, Repr

inductive RxHand where
  | dummyHandler
  | tftpHandler
deriving DecidableEq, Repr

inductive THand where
  | tftpTimeout
  | pingTimeout
deriving DecidableEq, Repr

inductive EtherPtr where
  | netServerEther
  | netBcastAddr
deriving DecidableEq, Repr

-- TftpState; none is the zero it holds before the first transfer.
inductive TftpState where
  | none
  | sendRrq
  | data
  | tooLarge
  | badMagic
  | oack
  | recvWrq
  | sendWrq
deriving DecidableEq, Repr

inductive Proto where
  | bootp
  | rarp
  | arp
  | tftpget
  | dhcp
  | ping
  | dns
  | nfs
  | cdp
  | netcons
  | sntp
  | tftpsrv
  | tftpput
  | linklocal
deriving DecidableEq, Repr

-- What a run did, newest first; no function reads it back.
inductive Event where
  | frame (bytes : List UInt8)
  | tftpSend (payload : List UInt8)
  | storeBlock (block blkSize offset len : Nat)
  | newTransfer
  | tftpComplete
  | echoRequest (id seq : Nat)
  | echoReply (src : IPaddr) (id seq : Nat)
deriving DecidableEq, Repr

structure Config where
  netOurIP : IPaddr
  netOurGatewayIP : IPaddr
  netOurSubnetMask : IPaddr
  netServerIP : IPaddr
  netOurEther : Ether
  netOurVLAN : Nat
  netOurNativeVLAN : Nat
  bootFile : List UInt8
  loadAddr : Nat
  enetaddr : Ether
  sysHz : Nat

structure Transmit where
  netServerEther : Ether
  netBcastAddr : Ether
  netIPID : Nat
  netTxPacket : Buf
  netArpTxPacket : Buf
  netArpWaitPacketIP : IPaddr
  netArpWaitReplyIP : IPaddr
  netArpWaitPacketMAC : Option EtherPtr
  netArpWaitTxPacketSize : Int
  netArpWaitTimerStart : Nat
  netArpWaitTry : Nat

structure LoopVars where
  netState : NetLoopState
  netBootFileXferSize : Nat
  udpPacketHandler : RxHand
  arpPacketHandler : RxHand
  timeHandler : Option THand
  timeStart : Nat
  timeDelta : Nat

structure Tftp where
  tftpRemoteIP : IPaddr
  tftpRemotePort : Nat
  tftpOurPort : Nat
  tftpTimeoutCount : Nat
  tftpTimeoutCountMax : Nat
  tftpBlock : Nat
  tftpLastBlock : Nat
  tftpBlockWrap : Nat
  tftpBlockWrapOffset : Nat
  tftpState : TftpState
  tftpFilename : List UInt8
  tftpBlkSize : Nat
  timeStart : Nat

structure Ping where
  pingSeqNo : Nat
  netPingIP : IPaddr

structure Net where
  cfg : Config
  tx : Transmit
  loop : LoopVars
  tftp : Tftp
  ping : Ping
  memory : Buf
  -- successive readings of the hardware timer
  clock : Nat → Nat
  clockPos : Nat
  firstCall : Bool
  log : List Event

-- The globals before the first command; BootFile is what eth_initialize puts there.
def netBoot (enetaddr : Ether) (sysHz : Nat) (clock : Nat → Nat) (memory : Buf) : Net where
  cfg := {
    netOurIP := 0
    netOurGatewayIP := 0
    netOurSubnetMask := 0
    netServerIP := 0
    netOurEther := Vector.replicate 6 0
    netOurVLAN := 0xFFFF
    netOurNativeVLAN := 0xFFFF
    bootFile := ascii "zImage"
    loadAddr := 0x2000000
    enetaddr := enetaddr
    sysHz := sysHz }
  tx := {
    netServerEther := Vector.replicate 6 0
    netBcastAddr := Vector.replicate 6 0xff
    netIPID := 0
    netTxPacket := fun _ => 0
    netArpTxPacket := fun _ => 0
    netArpWaitPacketIP := 0
    netArpWaitReplyIP := 0
    netArpWaitPacketMAC := none
    netArpWaitTxPacketSize := 0
    netArpWaitTimerStart := 0
    netArpWaitTry := 0 }
  loop := {
    netState := .netloopContinue
    netBootFileXferSize := 0
    udpPacketHandler := .dummyHandler
    arpPacketHandler := .dummyHandler
    timeHandler := none
    timeStart := 0
    timeDelta := 0 }
  tftp := {
    tftpRemoteIP := 0
    tftpRemotePort := 0
    tftpOurPort := 0
    tftpTimeoutCount := 0
    tftpTimeoutCountMax := 10
    tftpBlock := 0
    tftpLastBlock := 0
    tftpBlockWrap := 0
    tftpBlockWrapOffset := 0
    tftpState := .none
    tftpFilename := []
    tftpBlkSize := 512
    timeStart := 0 }
  ping := {
    pingSeqNo := 0
    netPingIP := 0 }
  memory := memory
  clock := clock
  clockPos := 0
  firstCall := true
  log := []

def sampleBoard : Net := netBoot (Vector.replicate 6 2) 1000 (fun _ => 0) (fun _ => 0)

variable (s : Net)

def getTimer (base : Nat) : Nat := sub32 (u32 (s.clock s.clockPos)) base

-- Every call of get_timer reads the clock anew.
def tick : Net := { s with clockPos := s.clockPos + 1 }

def emitEvent (e : Event) : Net := { s with log := e :: s.log }

def etherAt : EtherPtr → Ether
  | .netServerEther => s.tx.netServerEther
  | .netBcastAddr => s.tx.netBcastAddr

def setEtherAt (e : Ether) : EtherPtr → Net
  | .netServerEther => { s with tx.netServerEther := e }
  | .netBcastAddr => { s with tx.netBcastAddr := e }

def netSetState (state : NetLoopState) : Net := { s with loop.netState := state }

def netSetTimeout (iv : Nat) (f : THand) : Net :=
  if iv = 0 then { s with loop.timeHandler := none }
  else
    let t := getTimer s 0
    let s := tick s
    { s with
      loop.timeHandler := some f
      loop.timeStart := t
      loop.timeDelta := u32 (iv * s.cfg.sysHz) / 1000 }

end NonOsLite
