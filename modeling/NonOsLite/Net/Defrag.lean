import NonOsLite.Lib.LinkedTable
import NonOsLite.Net.Core

namespace NonOsLite
open ByteBuf LinkedTable

def ipOffs : Nat := 0x1fff
def ipFlagsMfrag : Nat := 0x2000

-- The static data of __NetDefragment; pkt_buff has size bytes, IP_PKTSIZE of the source.
structure Defrag where
  pktBuff : Buf
  firstHole : Nat
  totalLen : Nat

-- payload[k], and the fields of struct hole in it.
def holeAddr (k : Nat) : Nat := ipHdrSize + 8 * k

def lastByte : Nat := 0
def nextHole : Nat := 2
def prevHole : Nat := 4

-- Every access is none outside its buffer.
def readHole (size : Nat) (b : Buf) (k field : Nat) : Option Nat :=
  if holeAddr k + field + 2 ≤ size then some (le16 b (holeAddr k + field)) else none

def writeHole (size k field v : Nat) (b : Buf) : Option Buf :=
  if holeAddr k + field + 2 ≤ size then some (putLe16 b (holeAddr k + field) v) else none

def copyHole (size dst src : Nat) (b : Buf) : Option Buf :=
  if holeAddr dst + 8 ≤ size ∧ holeAddr src + 8 ≤ size then
    some (copy b (holeAddr dst) (shift b (holeAddr src)) 8)
  else none

-- memcpy from the n bytes of the received packet; a negative length is a huge size_t.
def copyIn (size off : Nat) (ip : Buf) (n from' : Nat) (len : Int) (b : Buf) : Option Buf :=
  if 0 ≤ len ∧ off + len ≤ size ∧ from' + len ≤ n then
    some (copy b off (shift ip from') len.toNat)
  else none

def newPacket (s : Defrag) (ip : Buf) : Bool := s.totalLen = 0 ∨ be16 s.pktBuff 4 ≠ be16 ip 4

def restart (size : Nat) (ip : Buf) (n : Nat) (s : Defrag) : Option Defrag := do
  let b ← writeHole size 0 lastByte 0xffff s.pktBuff
  let b ← writeHole size 0 nextHole 0 b
  let b ← writeHole size 0 prevHole 0 b
  let b ← copyIn size 0 ip n 0 ipHdrSize b
  return ⟨b, 0, 0xffff⟩

def restartIfNew (size : Nat) (ip : Buf) (n : Nat) (s : Defrag) : Option Defrag :=
  if newPacket s ip then restart size ip n s else some s

-- The while loop: the index of the first hole that reaches start, or that there is none.
def findHole (size : Nat) (b : Buf) (start : Nat) : Nat → Nat → Option (Option Nat)
  | 0, _ => none
  | fuel + 1, h => do
      let last ← readHole size b h lastByte
      if last < start then
        let next ← readHole size b h nextHole
        if next = 0 then return none else findHole size b start fuel next
      else return some h

-- Whether it was the last one, and what is left.
def removeHole (size h : Nat) (s : Defrag) : Option (Bool × Defrag) := do
  let prev ← readHole size s.pktBuff h prevHole
  let next ← readHole size s.pktBuff h nextHole
  if prev = 0 ∧ next = 0 then return (true, s)
  else if prev = 0 then
    let b ← writeHole size next prevHole 0 s.pktBuff
    return (false, { s with pktBuff := b, firstHole := next })
  else if next = 0 then
    let b ← writeHole size prev nextHole 0 s.pktBuff
    return (false, { s with pktBuff := b })
  else
    let b ← writeHole size next prevHole prev s.pktBuff
    let b ← writeHole size prev nextHole next b
    return (false, { s with pktBuff := b })

def linkBack (size next newh : Nat) (b : Buf) : Option Buf :=
  if next ≠ 0 then writeHole size next prevHole newh b else some b

def moveHole (size h newh : Nat) (s : Defrag) : Option Defrag := do
  let b ← copyHole size newh h s.pktBuff
  let next ← readHole size b newh nextHole
  let b ← linkBack size next newh b
  let prev ← readHole size b newh prevHole
  if prev ≠ 0 then
    let b ← writeHole size prev nextHole newh b
    return { s with pktBuff := b }
  else return { s with pktBuff := b, firstHole := newh }

def splitHole (size h newh start : Nat) (s : Defrag) : Option Defrag := do
  let b ← copyHole size newh h s.pktBuff
  let b ← writeHole size h lastByte start b
  let b ← writeHole size h nextHole newh b
  let b ← writeHole size newh prevHole h b
  let next ← readHole size b newh nextHole
  let b ← linkBack size next newh b
  return { s with pktBuff := b }

def fixHoles (size h offset8 : Nat) (len : Int) (s : Defrag) : Option (Bool × Defrag) := do
  let start := offset8 * 8
  let newh := (offset8 + len.tdiv 8).toNat
  let last ← readHole size s.pktBuff h lastByte
  if offset8 ≤ h ∧ last ≤ start + len then removeHole size h s
  else if last ≤ start + len then
    let b ← writeHole size h lastByte start s.pktBuff
    return (false, { s with pktBuff := b })
  else if offset8 ≤ h then
    let s ← moveHole size h newh s
    return (false, s)
  else
    let s ← splitHole size h newh start s
    return (false, s)

def truncateHole (size h ipOff stop : Nat) (s : Defrag) : Option Defrag :=
  if ipOff &&& ipFlagsMfrag = 0 then do
    let b ← writeHole size h lastByte stop s.pktBuff
    return { s with pktBuff := b, totalLen := u16 stop }
  else some s

def fragOffset8 (ip : Buf) : Nat := be16 ip 6 &&& ipOffs

def fragStart (ip : Buf) : Nat := fragOffset8 ip * 8

def fragLen (ip : Buf) : Int := be16 ip 2 - ipHdrSize

def placeFragment (size : Nat) (ip : Buf) (n h : Nat) (s : Defrag) :
    Option (Defrag × Option Nat) := do
  let s ← truncateHole size h (be16 ip 6) (toU32 (fragStart ip + fragLen ip)) s
  let (done, s) ← fixHoles size h (fragOffset8 ip) (fragLen ip) s
  let b ← copyIn size (holeAddr (fragOffset8 ip)) ip n ipHdrSize (fragLen ip) s.pktBuff
  if !done then return ({ s with pktBuff := b }, none)
  else return ({ s with pktBuff := putBe16 b 2 s.totalLen }, some (s.totalLen + ipHdrSize))

-- start + len is compared with the unsigned IP_MAXUDP.
def tooFar (size : Nat) (ip : Buf) : Bool := size - ipHdrSize < toU32 (fragStart ip + fragLen ip)

-- __NetDefragment, on a packet of which n bytes were received.
def netDefragment (size fuel : Nat) (s : Defrag) (ip : Buf) (n : Nat) :
    Option (Defrag × Option Nat) := do
  if n < ipHdrSize then none
  else if tooFar size ip then return (s, none)
  else
    let s ← restartIfNew size ip n s
    match ← findHole size s.pktBuff (fragStart ip) fuel s.firstHole with
    | none => return (s, none)
    | some h =>
        if fragOffset8 ip + (fragLen ip + 7).tdiv 8 ≤ h then return (s, none)
        else placeFragment size ip n h s

end NonOsLite
