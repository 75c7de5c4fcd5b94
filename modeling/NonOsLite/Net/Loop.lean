import NonOsLite.Net.Receive
import NonOsLite.Lib.Machine

namespace NonOsLite
open ByteBuf

def netClearHandlers (s : Net) : Net :=
  { s with
    loop.udpPacketHandler := .dummyHandler
    loop.arpPacketHandler := .dummyHandler
    loop.timeHandler := none }

def netInitLoop (s : Net) : Net :=
  { s with
    cfg.netOurIP := stringToIp (ascii "10.0.0.179")
    cfg.netOurGatewayIP := stringToIp (ascii "10.0.0.254")
    cfg.netOurSubnetMask := stringToIp (ascii "255.255.255.0")
    cfg.netServerIP := stringToIp (ascii "10.0.0.128")
    cfg.netOurEther := s.cfg.enetaddr }

def netInit (s : Net) : Net :=
  let s := if s.firstCall then { netClearHandlers (arpInit s) with firstCall := false } else s
  netInitLoop s

def netCheckPrereq (s : Net) (protocol : Proto) : Nat :=
  let common := if s.cfg.netOurIP = 0 then 1 else if s.cfg.netOurEther = netEtherNullAddr then 2 else 0
  match protocol with
  | .ping => if s.ping.netPingIP = 0 then 1 else common
  | .tftpget | .tftpput => if s.cfg.netServerIP = 0 then 1 else common
  | _ => 0

inductive Loop where
  | running (s : Net)
  | done (ret : Int) (s : Net)

-- From the restart label to the first round of the reception loop.
def netLoopRestart (protocol : Proto) (s : Net) : Loop :=
  let s := netInitLoop (netSetState s .netloopContinue)
  if netCheckPrereq s protocol ≠ 0 then .done (-1) s
  else
    let s := { s with loop.netBootFileXferSize := 0 }
    .running (match protocol with
      | .tftpget => tftpStart s
      | .ping => pingStart s
      | _ => s)

def netLoopEntry (protocol : Proto) (s : Net) : Loop := netLoopRestart protocol (netInit s)

def thand : THand → Net → Net
  | .tftpTimeout, s => tftpTimeout s
  | .pingTimeout, s => pingTimeout s

def timeoutCheck (s : Net) : Net :=
  match s.loop.timeHandler with
  | none => s
  | some x =>
      let t := getTimer s 0
      let s := tick s
      if s.loop.timeDelta < sub32 t s.loop.timeStart then
        thand x { s with loop.timeHandler := none }
      else s

-- A round of the loop: the frames eth_rx delivers, then the rest of the round with the key read.
inductive LoopInput where
  | frame (inpkt : Buf) (len : Int)
  | poll (key : UInt8)

def netLoopPoll (protocol : Proto) (s : Net) (key : UInt8) : Loop :=
  if key = 113 then .done (-1) (netClearHandlers { s with tx.netArpWaitPacketIP := 0 })
  else
    let s := timeoutCheck (arpTimeoutCheck s)
    match s.loop.netState with
    | .netloopRestart => netLoopRestart protocol s
    | .netloopSuccess => .done (toInt32 s.loop.netBootFileXferSize) (netClearHandlers s)
    | .netloopFail => .done (-1) (netClearHandlers s)
    | .netloopContinue => .running s

def netLoopStep (protocol : Proto) : Loop → LoopInput → Loop
  | .done ret s, _ => .done ret s
  | .running s, .frame inpkt len => .running (netReceive s inpkt len)
  | .running s, .poll key => netLoopPoll protocol s key

def netLoop (protocol : Proto) (s : Net) (xs : List LoopInput) : Loop :=
  InputMachine.run (netLoopStep protocol) (netLoopEntry protocol s) xs

end NonOsLite
