import NonOsLite.Net.State

namespace NonOsLite
open ByteBuf

def etherHdrSize : Nat := 14
def e802HdrSize : Nat := 22
def vlanEtherHdrSize : Nat := 18
def ipHdrSize : Nat := 20
def ipUdpHdrSize : Nat := 28
def udpHdrSize : Nat := ipUdpHdrSize - ipHdrSize
def icmpHdrSize : Nat := 8
def ipIcmpHdrSize : Nat := ipHdrSize + icmpHdrSize
def arpHdrSize : Nat := 28

def protIP : Nat := 0x0800
def protARP : Nat := 0x0806
def protVLAN : Nat := 0x8100
def ipprotoICMP : UInt8 := 1
def ipprotoUDP : UInt8 := 17
def vlanNone : Nat := 4095
def vlanIdmask : Nat := 0x0fff

def netEtherNullAddr : Ether := Vector.replicate 6 0
def netBroadcastIP : IPaddr := 0xFFFFFFFF

def netReadIP (p : Buf) (off : Nat) : IPaddr := UInt32.ofNat (le32 p off)

def netWriteIP (p : Buf) (off : Nat) (ip : IPaddr) : Buf := putLe32 p off ip.toNat

def putEther (p : Buf) (off : Nat) (e : Ether) : Buf := store p off e.toList

def readEther (p : Buf) (off : Nat) : Ether := Vector.ofFn (fun i : Fin 6 => p (off + i))

def netSendPacket (s : Net) (pkt : Buf) (len : Int) : Net :=
  emitEvent s (.frame (bytes pkt (if len < 64 then 64 else len).toNat))

-- The sum of n halfwords, read as the little-endian processor reads them.
def netCksumSum (p : Buf) : Nat → Nat
  | 0 => 0
  | n + 1 => u32 (netCksumSum p n + le16 p (2 * n))

def netCksum (p : Buf) (n : Nat) : Nat :=
  let xsum := netCksumSum p n
  let xsum := u32 (xsum % 65536 + xsum / 65536)
  let xsum := u32 (xsum % 65536 + xsum / 65536)
  xsum % 65536

def netCksumOk (p : Buf) (n : Nat) : Bool := (netCksum p n + 1) &&& 0xfffe == 0

def vlanOf (vlan : Nat) : Nat := if ntohs vlan = 0xFFFF then vlanNone else ntohs vlan

def netEthHdrSize (c : Config) : Nat :=
  if vlanOf c.netOurVLAN &&& vlanIdmask = vlanNone then etherHdrSize else vlanEtherHdrSize

def netSetEther (c : Config) (xet : Buf) (addr : Ether) (prot : Nat) : Buf × Nat :=
  let xet := putEther xet 0 addr
  let xet := putEther xet 6 c.netOurEther
  if vlanOf c.netOurVLAN &&& vlanIdmask = vlanNone then (putBe16 xet 12 prot, etherHdrSize)
  else
    let xet := putBe16 xet 12 protVLAN
    let xet := putBe16 xet 14 (0 <<< 5 ||| (vlanOf c.netOurVLAN &&& vlanIdmask))
    (putBe16 xet 16 prot, vlanEtherHdrSize)

def netUpdateEther (c : Config) (et : Buf) (addr : Ether) (prot : Nat) : Buf × Nat :=
  let et := putEther et 0 addr
  let et := putEther et 6 c.netOurEther
  let protlen := be16 et 12
  if protlen = protVLAN then (putBe16 et 16 prot, vlanEtherHdrSize)
  else if 1514 < protlen then (putBe16 et 12 prot, etherHdrSize)
  else (putBe16 et 20 prot, e802HdrSize)

-- ipID is NetIPID before its increment, which the callers make.
def netSetIpHeader (ipID : Nat) (pkt : Buf) (dest source : IPaddr) : Buf :=
  let pkt := store pkt 0 [0x45, 0]
  let pkt := putBe16 pkt 2 ipHdrSize
  let pkt := putBe16 pkt 4 ipID
  let pkt := putBe16 pkt 6 0x4000
  let pkt := store pkt 8 [255]
  let pkt := putLe16 pkt 10 0
  let pkt := netWriteIP pkt 12 source
  netWriteIP pkt 16 dest

def netSetUdpHeader (c : Config) (ipID : Nat) (pkt : Buf) (dest : IPaddr) (dport sport len : Nat) :
    Buf :=
  let pkt := if len % 2 = 1 then store pkt (ipUdpHdrSize + len) [0] else pkt
  let pkt := netSetIpHeader ipID pkt dest c.netOurIP
  let pkt := putBe16 pkt 2 (ipUdpHdrSize + len)
  let pkt := store pkt 9 [ipprotoUDP]
  let pkt := putLe16 pkt 10 (65535 - netCksum pkt (ipHdrSize / 2))
  let pkt := putBe16 pkt 20 sport
  let pkt := putBe16 pkt 22 dport
  let pkt := putBe16 pkt 24 (udpHdrSize + len)
  putLe16 pkt 26 0

end NonOsLite
