import NonOsLite.Lib.BoundedSink
import NonOsLite.Net.Arp
import NonOsLite.Libc.Strtoul
import NonOsLite.Stdio.Printf

namespace NonOsLite
open ByteBuf BoundedSink

def wellKnownPort : Nat := 69
def tftpTimeoutMSecs : Nat := 5000
def timeoutCount : Nat := 10
-- TftpRRQTimeoutCountMax starts at TIMEOUT_COUNT and no code assigns to it.
def tftpRRQTimeoutCountMax : Nat := timeoutCount
def tftpBlockSize : Nat := 512
def tftpSequenceSize : Nat := 65536
def tftpBlkSizeOption : Nat := 1468
def maxLen : Nat := 128

def tftpRRQ : Nat := 1
def tftpDATA : Nat := 3
def tftpACK : Nat := 4
def tftpERROR : Nat := 5
def tftpOACK : Nat := 6

def tftpErrFileNotFound : Nat := 1
def tftpErrAccessDenied : Nat := 2

-- Every sprintf target here is a buffer somewhere in RAM; its address only has to be not null.
def strAddr : Nat := 0x10000

def sprintf (b : Buf) (off : Nat) (fmt : List UInt8) (args : List Stdio.Arg) : Buf × Int :=
  let r := Stdio.simpleSprintf strAddr fmt args
  (mapFrom b off (fun d => applyWrites d r.1.writes), r.2)

def strcpy (b : Buf) (off : Nat) (str : List UInt8) : Buf := store b off (str ++ [0])

def strlen (b : Buf) (off : Nat) : Nat := (cString (shift b off)).length

-- block is the signed number TftpBlock - 1.
def storeOffset (t : Tftp) (block : Int) : Nat :=
  toU32 (block * t.tftpBlkSize + t.tftpBlockWrapOffset)

def storeBlock (s : Net) (block : Int) (src : Buf) (len : Nat) : Net :=
  let offset := storeOffset s.tftp block
  let newsize := u32 (offset + len)
  let s := emitEvent s (.storeBlock (toU32 (block + 1)) s.tftp.tftpBlkSize offset len)
  { s with
    memory := copy s.memory (u32 (s.cfg.loadAddr + offset)) src len
    loop.netBootFileXferSize :=
      if s.loop.netBootFileXferSize < newsize then newsize else s.loop.netBootFileXferSize }

def newTransfer (s : Net) : Net :=
  emitEvent { s with
    tftp.tftpLastBlock := 0
    tftp.tftpBlockWrap := 0
    tftp.tftpBlockWrapOffset := 0 } .newTransfer

def updateBlockNumber (s : Net) : Net :=
  if s.tftp.tftpBlock = 0 then
    { s with
      tftp.tftpBlockWrap := u32 (s.tftp.tftpBlockWrap + 1)
      tftp.tftpBlockWrapOffset :=
        u32 (s.tftp.tftpBlockWrapOffset + s.tftp.tftpBlkSize * tftpSequenceSize)
      tftp.tftpTimeoutCount := 0 }
  else s

def tftpComplete (s : Net) : Net :=
  let t := getTimer s s.tftp.timeStart
  let s := tick s
  netSetState (emitEvent { s with tftp.timeStart := t } .tftpComplete) .netloopSuccess

-- TftpSend in STATE_SEND_RRQ, with the two settings it reads as arguments.
def tftpRequest (timeoutMSecs blkSizeOption : Nat) (filename : List UInt8) (b : Buf) (xp : Nat) :
    Buf × Nat :=
  let b := putBe16 b xp tftpRRQ
  let pkt := xp + 2
  let b := strcpy b pkt filename
  let pkt := pkt + filename.length + 1
  let b := strcpy b pkt (ascii "octet")
  let pkt := pkt + 5 + 1
  let b := strcpy b pkt (ascii "timeout")
  let pkt := pkt + 7 + 1
  let (b, _) := sprintf b pkt (ascii "%lu") [.word (timeoutMSecs / 1000)]
  let pkt := pkt + strlen b pkt + 1
  let (b, n) := sprintf b pkt (ascii "blksize%c%d%c") [.word 0, .word blkSizeOption, .word 0]
  (b, pkt + n.toNat - xp)

-- The payload TftpSend writes at offset xp of the packet buffer, and its length.
def tftpPacket (t : Tftp) (b : Buf) (xp : Nat) : Buf × Nat :=
  match t.tftpState with
  | .sendRrq | .sendWrq => tftpRequest tftpTimeoutMSecs tftpBlkSizeOption t.tftpFilename b xp
  | .oack | .recvWrq | .data =>
      let b := putBe16 b xp tftpACK
      (putBe16 b (xp + 2) (u16 t.tftpBlock), 4)
  | .tooLarge =>
      let b := putBe16 b xp tftpERROR
      let b := putBe16 b (xp + 2) 3
      (strcpy b (xp + 4) (ascii "File too large"), 4 + 14 + 1)
  | .badMagic =>
      let b := putBe16 b xp tftpERROR
      let b := putBe16 b (xp + 2) 2
      (strcpy b (xp + 4) (ascii "File has bad magic"), 4 + 18 + 1)
  | .none => (b, 0)

def tftpSend (s : Net) : Net :=
  let xp := netEthHdrSize s.cfg + ipUdpHdrSize
  let (b, len) := tftpPacket s.tftp s.tx.netTxPacket xp
  let s := emitEvent s (.tftpSend (bytes (shift b xp) len))
  netSendUdpPacket { s with tx.netTxPacket := b } .netServerEther s.tftp.tftpRemoteIP
    s.tftp.tftpRemotePort s.tftp.tftpOurPort len

-- The option scan; pkt and len are what follows the opcode.
def tftpOackBlkSize (pkt : Buf) (len blkSize : Nat) : Nat :=
  (List.range (len - 8)).foldl (fun blkSize i =>
    if strcmp (shift pkt i) (ascii "blksize") = 0 then
      u16 (strtoul (cString (shift pkt (i + 8))) 10).1
    else blkSize) blkSize

def tftpOackHandler (s : Net) (pkt : Buf) (src len : Nat) : Net :=
  tftpSend { s with
    tftp.tftpState := .oack
    tftp.tftpRemotePort := src
    tftp.tftpBlkSize := tftpOackBlkSize pkt len s.tftp.tftpBlkSize }

def tftpNewBlock (s : Net) (pkt : Buf) (len : Nat) : Net :=
  let s := { s with
    tftp.tftpLastBlock := s.tftp.tftpBlock
    tftp.tftpTimeoutCountMax := timeoutCount }
  let s := netSetTimeout s tftpTimeoutMSecs .tftpTimeout
  let s := storeBlock s ((s.tftp.tftpBlock : Int) - 1) (shift pkt 2) len
  let s := tftpSend s
  if len < s.tftp.tftpBlkSize then tftpComplete s else s

-- Same block again; ignore it.
def tftpAcceptBlock (s : Net) (pkt : Buf) (len : Nat) : Net :=
  if s.tftp.tftpBlock = s.tftp.tftpLastBlock then s else tftpNewBlock s pkt len

def tftpDataHandler (s : Net) (pkt : Buf) (src len : Nat) : Net :=
  if len < 2 then s
  else
    let len := len - 2
    let s := updateBlockNumber { s with tftp.tftpBlock := be16 pkt 0 }
    if s.tftp.tftpState = .sendRrq ∨ s.tftp.tftpState = .oack ∨ s.tftp.tftpState = .recvWrq then
      let s := newTransfer { s with tftp.tftpState := .data, tftp.tftpRemotePort := src }
      if s.tftp.tftpBlock ≠ 1 then s else tftpAcceptBlock s pkt len
    else tftpAcceptBlock s pkt len

def tftpErrorHandler (s : Net) (pkt : Buf) : Net :=
  if be16 pkt 0 = tftpErrFileNotFound ∨ be16 pkt 0 = tftpErrAccessDenied then
    netSetState s .netloopFail
  else s

def tftpHandler (s : Net) (pkt : Buf) (dest : Nat) (_sip : IPaddr) (src len : Nat) : Net :=
  if dest ≠ s.tftp.tftpOurPort then s
  else if s.tftp.tftpState ≠ .sendRrq ∧ src ≠ s.tftp.tftpRemotePort ∧
      s.tftp.tftpState ≠ .recvWrq ∧ s.tftp.tftpState ≠ .sendWrq then s
  else if len < 2 then s
  else
    let len := len - 2
    let proto := be16 pkt 0
    let pkt := shift pkt 2
    if proto = tftpOACK then tftpOackHandler s pkt src len
    else if proto = tftpDATA then tftpDataHandler s pkt src len
    else if proto = tftpERROR then tftpErrorHandler s pkt
    -- RRQ, ACK and every other opcode
    else s

-- "Retry count exceeded" only prints: restart() changes nothing.
def tftpTimeout (s : Net) : Net :=
  let s := { s with tftp.tftpTimeoutCount := s.tftp.tftpTimeoutCount + 1 }
  if s.tftp.tftpTimeoutCountMax < s.tftp.tftpTimeoutCount then s
  else
    let s := netSetTimeout s tftpTimeoutMSecs .tftpTimeout
    if s.tftp.tftpState ≠ .recvWrq then tftpSend s else s

def defaultFilename (ip : IPaddr) : List UInt8 :=
  let octet (k : Nat) : Stdio.Arg := .word (ip.toNat / 256 ^ k % 256)
  cString (sprintf (fun _ => 0) 0 (ascii "%02X%02X%02X%02X.img")
    [octet 0, octet 1, octet 2, octet 3]).1

def tftpFilenameOf (c : Config) : IPaddr × List UInt8 :=
  if c.bootFile = [] then (c.netServerIP, (defaultFilename c.netOurIP).take (maxLen - 1))
  else
    match c.bootFile.dropWhile (· ≠ 58) with
    | [] => (c.netServerIP, c.bootFile.take (maxLen - 1))
    | _ :: p => (stringToIp c.bootFile, p.take (maxLen - 1))

def tftpStart (s : Net) : Net :=
  let s := { s with
    tftp.tftpRemoteIP := (tftpFilenameOf s.cfg).1
    tftp.tftpFilename := (tftpFilenameOf s.cfg).2
    tftp.tftpState := .sendRrq }
  let t := getTimer s 0
  let s := tick s
  let s := { s with
    tftp.timeStart := t
    tftp.tftpTimeoutCountMax := tftpRRQTimeoutCountMax }
  let s := netSetTimeout s tftpTimeoutMSecs .tftpTimeout
  let t := getTimer s 0
  let s := tick s
  tftpSend { s with
    loop.udpPacketHandler := .tftpHandler
    tftp.tftpRemotePort := wellKnownPort
    tftp.tftpTimeoutCount := 0
    tftp.tftpOurPort := 1024 + t % 3072
    tftp.tftpBlock := 0
    tx.netServerEther := netEtherNullAddr
    tftp.tftpBlkSize := tftpBlockSize }

end NonOsLite
