import NonOsLite.Lib.Words
import NonOsLite.Heap.Morecore

namespace NonOsLite
open ByteBuf

-- A chunk is the address of its prev_size word; addresses are added without wrapping.
structure Arena where
  heap : Heap
  sbrkBase : Nat

def Arena.mem (s : Arena) : Buf := s.heap.mem

def Arena.withMem (s : Arena) (mem : Buf) : Arena := { s with heap := { s.heap with mem := mem } }

def noSbrkBase : Nat := 4294967295

def minsize : Nat := 16

def pagesize : Nat := 4096

def trimThreshold : Nat := 131072

def topPad : Nat := 0

def request2size (req : Nat) : Nat :=
  if toInt32 (u32 (req + 11)) < 23 then minsize else u32 (req + 11) / 8 * 8

def prevSize (mem : Buf) (p : Nat) : Nat := le32 mem p

def size (mem : Buf) (p : Nat) : Nat := le32 mem (p + 4)

def fd (mem : Buf) (p : Nat) : Nat := le32 mem (p + 8)

def bk (mem : Buf) (p : Nat) : Nat := le32 mem (p + 12)

def setFd (mem : Buf) (p v : Nat) : Buf := putLe32 mem (p + 8) v

def setBk (mem : Buf) (p v : Nat) : Buf := putLe32 mem (p + 12) v

def chunk2mem (p : Nat) : Nat := p + 8

def mem2chunk (m : Nat) : Nat := m - 8

def chunksize (mem : Buf) (p : Nat) : Nat := size mem p / 4 * 4

def prevInuse (mem : Buf) (p : Nat) : Prop := size mem p % 2 = 1

instance (mem : Buf) (p : Nat) : Decidable (prevInuse mem p) :=
  inferInstanceAs (Decidable (_ = _))

def inuseBitAtOffset (mem : Buf) (p s : Nat) : Prop := prevInuse mem (p + s)

instance (mem : Buf) (p s : Nat) : Decidable (inuseBitAtOffset mem p s) :=
  inferInstanceAs (Decidable (prevInuse _ _))

def setHead (mem : Buf) (p s : Nat) : Buf := putLe32 mem (p + 4) s

def setHeadSize (mem : Buf) (p s : Nat) : Buf := setHead mem p (size mem p % 2 ||| s)

def setInuseBitAtOffset (mem : Buf) (p s : Nat) : Buf :=
  setHead mem (p + s) (size mem (p + s) ||| 1)

def setFoot (mem : Buf) (p s : Nat) : Buf := putLe32 mem (p + s) s

section bins

-- The address of the array av_.
variable (av : Nat)

def binAt (i : Nat) : Nat := av + 8 * i

def top (mem : Buf) : Nat := le32 mem (av + 8)

def setTop (mem : Buf) (p : Nat) : Buf := putLe32 mem (av + 8) p

def lastRemainder : Nat := binAt av 1

def initialTop : Nat := binAt av 0

def binIndex (sz : Nat) : Nat :=
  if sz / 512 = 0 then sz / 8
  else if sz / 512 ≤ 4 then 56 + sz / 64
  else if sz / 512 ≤ 20 then 91 + sz / 512
  else if sz / 512 ≤ 84 then 110 + sz / 4096
  else if sz / 512 ≤ 340 then 119 + sz / 32768
  else if sz / 512 ≤ 1364 then 124 + sz / 262144
  else 126

def smallbinIndex (sz : Nat) : Nat := sz / 8

def binblocks (mem : Buf) : Nat := le32 mem (av + 4)

def idx2binblock (ix : Nat) : Nat := 2 ^ (ix / 4)

def markBinblock (mem : Buf) (ii : Nat) : Buf :=
  putLe32 mem (av + 4) (binblocks av mem ||| idx2binblock ii)

-- P->bk = BK; P->fd = FD; FD->bk = BK->fd = P
def linkBetween (mem : Buf) (p bck fwd : Nat) : Buf :=
  setBk (setFd (setFd (setBk mem p bck) p fwd) bck p) fwd p

-- while (FD != BK && S < chunksize(FD)) FD = FD->fd
def frontlinkWalk (mem : Buf) (s bck : Nat) : Nat → Nat → Option Nat
  | 0, _ => none
  | fuel + 1, fwd =>
    if fwd ≠ bck ∧ s < chunksize mem fwd then frontlinkWalk mem s bck fuel (fd mem fwd)
    else some fwd

def frontlink (fuel : Nat) (mem : Buf) (p s : Nat) : Option Buf :=
  if s < 512 then
    let idx := smallbinIndex s
    let mem := markBinblock av mem idx
    let bck := binAt av idx
    some (linkBetween mem p bck (fd mem bck))
  else
    let idx := binIndex s
    let bck := binAt av idx
    let fwd := fd mem bck
    if fwd = bck then some (linkBetween (markBinblock av mem idx) p bck fwd)
    else do
      let fwd ← frontlinkWalk mem s bck fuel fwd
      some (linkBetween mem p (bk mem fwd) fwd)

def unlink (mem : Buf) (p : Nat) : Buf :=
  let bck := bk mem p
  let fwd := fd mem p
  setFd (setBk mem fwd bck) bck fwd

def linkLastRemainder (mem : Buf) (p : Nat) : Buf :=
  let mem := setFd (setBk mem (lastRemainder av) p) (lastRemainder av) p
  setFd (setBk mem p (lastRemainder av)) p (lastRemainder av)

def clearLastRemainder (mem : Buf) : Buf :=
  setFd (setBk mem (lastRemainder av) (lastRemainder av)) (lastRemainder av) (lastRemainder av)

def trimExtra (topSize pad : Nat) : Nat :=
  u32 (sub32 (u32 (sub32 (sub32 topSize pad) minsize + (pagesize - 1)) / pagesize) 1 * pagesize)

def mallocTrim (s : Arena) (pad : Nat) : Nat × Arena :=
  let topSize := chunksize s.mem (top av s.mem)
  let extra := toInt32 (trimExtra topSize pad)
  if extra < pagesize then (0, s)
  else
    let current := morecore s.heap 0
    if current.1 ≠ top av s.mem + topSize then (0, { s with heap := current.2 })
    else
      let new := morecore current.2 (Int32.ofInt (-extra))
      if new.1 = morecoreFailure then
        let current := morecore new.2 0
        let topSize := toInt32 (sub32 current.1 (top av current.2.mem))
        if (minsize : Int) ≤ topSize then
          (0, Arena.withMem { s with heap := current.2 }
            (setHead current.2.mem (top av current.2.mem) (topSize.toNat ||| 1)))
        else (0, { s with heap := current.2 })
      else
        (1, Arena.withMem { s with heap := new.2 } (setHead new.2.mem (top av new.2.mem)
          (sub32 topSize extra.toNat ||| 1)))

def freeIntoTop (s : Arena) (p sz : Nat) : Arena :=
  let prevsz := prevSize s.mem p
  let joined : Buf × Nat × Nat :=
    if prevInuse s.mem p then (s.mem, p, sz)
    else (unlink s.mem (p - prevsz), p - prevsz, u32 (sz + prevsz))
  let mem := setTop av (setHead joined.1 joined.2.1 (joined.2.2 ||| 1)) joined.2.1
  let s := s.withMem mem
  if trimThreshold ≤ joined.2.2 then (mallocTrim av s topPad).2 else s

structure Merge where
  mem : Buf
  p : Nat
  sz : Nat
  islr : Bool

def consolidateBackward (m : Merge) : Merge :=
  let prevsz := prevSize m.mem m.p
  let p := m.p - prevsz
  let sz := u32 (m.sz + prevsz)
  if fd m.mem p = lastRemainder av then { m with p := p, sz := sz, islr := true }
  else { m with mem := unlink m.mem p, p := p, sz := sz }

def consolidateForward (m : Merge) (next nextsz : Nat) : Merge :=
  let sz := u32 (m.sz + nextsz)
  if m.islr = false ∧ fd m.mem next = lastRemainder av then
    { m with mem := linkLastRemainder av m.mem m.p, sz := sz, islr := true }
  else { m with mem := unlink m.mem next, sz := sz }

def freeIntoBin (fuel : Nat) (mem : Buf) (p hd : Nat) : Option Buf :=
  let sz := hd / 2 * 2
  let next := p + sz
  let nextsz := chunksize mem next
  let m : Merge := ⟨setHead mem next nextsz, p, sz, false⟩
  let m := if hd % 2 = 1 then m else consolidateBackward av m
  let m := if inuseBitAtOffset m.mem next nextsz then m else consolidateForward av m next nextsz
  let mem := setFoot (setHead m.mem m.p (m.sz ||| 1)) m.p m.sz
  if m.islr then some mem else frontlink av fuel mem m.p m.sz

def free (fuel : Nat) (s : Arena) (m : Nat) : Option Arena :=
  if m = 0 then some s
  else
    let p := mem2chunk m
    let hd := size s.mem p
    let next := p + hd / 2 * 2
    if next = top av s.mem then
      some (freeIntoTop av s p (u32 (hd / 2 * 2 + chunksize s.mem next)))
    else do
      let mem ← freeIntoBin av fuel s.mem p hd
      some (s.withMem mem)

-- The end of malloc_extend_top asserts that the top ends at a page boundary.
def pageEnd (s : Arena) (topSize : Nat) : Option Arena :=
  if u32 (top av s.mem + topSize) % pagesize = 0 then some s else none

-- After a call of sbrk from elsewhere the old top is closed with two marks.
def fencepost (fuel : Nat) (s : Arena) (oldTop oldTopSize : Nat) : Option Arena :=
  let size' := sub32 oldTopSize 12 / 8 * 8
  let mem := setHeadSize s.mem oldTop size'
  let mem := setHead mem (oldTop + size') 5
  let mem := setHead mem (oldTop + size' + 4) 5
  if minsize ≤ size' then free av fuel (s.withMem mem) (chunk2mem oldTop)
  else some (s.withMem mem)

def extendElsewhere (fuel : Nat) (s : Arena) (brk sbrkSize oldTop oldTopSize : Nat) :
    Option Arena :=
  let frontMisalign := chunk2mem brk % 8
  let lead := if 0 < frontMisalign then 8 - frontMisalign else 0
  let newTop := brk + lead
  let stop := u32 (newTop + sbrkSize)
  let correction := u32 (lead + sub32 (u32 (stop + (pagesize - 1)) / pagesize * pagesize) stop)
  let new := morecore s.heap (Int32.ofNat correction)
  let s := { s with heap := new.2 }
  if new.1 = morecoreFailure then some s
  else
    let topSize := u32 (sub32 new.1 newTop + correction)
    let s := s.withMem (setHead (setTop av s.mem newTop) newTop (topSize ||| 1))
    if oldTop = initialTop av then pageEnd av s topSize
    else if oldTopSize < minsize then some (s.withMem (setHead s.mem newTop 1))
    else do
      let s ← fencepost av fuel s oldTop oldTopSize
      pageEnd av s topSize

def mallocExtendTop (fuel : Nat) (s : Arena) (nb : Nat) : Option Arena :=
  let oldTop := top av s.mem
  let oldTopSize := chunksize s.mem oldTop
  let oldEnd := oldTop + oldTopSize
  let wanted := u32 (nb + topPad + minsize)
  let sbrkSize :=
    if s.sbrkBase = noSbrkBase then wanted else u32 (wanted + (pagesize - 1)) / pagesize * pagesize
  let brk := morecore s.heap (Int32.ofNat sbrkSize)
  let s := { s with heap := brk.2 }
  if brk.1 = morecoreFailure ∨ brk.1 < oldEnd ∧ oldTop ≠ initialTop av then some s
  else if brk.1 = oldEnd then
    let topSize := u32 (sbrkSize + oldTopSize)
    pageEnd av (s.withMem (setHead s.mem oldTop (topSize ||| 1))) topSize
  else
    let sbrkBase := if s.sbrkBase = noSbrkBase then brk.1 else s.sbrkBase
    extendElsewhere av fuel { s with sbrkBase := sbrkBase } brk.1 sbrkSize oldTop oldTopSize

def remainderSize (mem : Buf) (victim nb : Nat) : Int :=
  toInt32 (sub32 (chunksize mem victim) nb)

-- From the back of a bin to the first chunk that is not too small.
def firstFit (mem : Buf) (nb bin : Nat) : Nat → Nat → Option (Option Nat)
  | 0, _ => none
  | fuel + 1, victim =>
    if victim = bin then some none
    else if 0 ≤ remainderSize mem victim nb then some (some victim)
    else firstFit mem nb bin fuel (bk mem victim)

-- A chunk that fits without a remainder, or the bin at which the search starts.
def exactFit (fuel : Nat) (mem : Buf) (nb : Nat) : Option (Nat ⊕ Nat) :=
  if nb < 504 then
    let idx := smallbinIndex nb
    let q := binAt av idx
    let q := if bk mem q = q then q + 8 else q
    let victim := bk mem q
    if victim ≠ q then some (.inl victim) else some (.inr (idx + 2))
  else do
    let idx := binIndex nb
    let bin := binAt av idx
    match ← firstFit mem nb bin fuel (bk mem bin) with
    | none => some (.inr (idx + 1))
    | some victim =>
      if minsize ≤ remainderSize mem victim nb then some (.inr idx) else some (.inl victim)

def takeExact (mem : Buf) (victim : Nat) : Buf :=
  setInuseBitAtOffset (unlink mem victim) victim (chunksize mem victim)

def splitRemainder (mem : Buf) (victim nb rest : Nat) : Buf :=
  let remainder := victim + nb
  setFoot (setHead (linkLastRemainder av mem remainder) remainder (rest ||| 1)) remainder rest

def useLastRemainder (fuel : Nat) (mem : Buf) (nb : Nat) : Option (Buf × Option Nat) :=
  let victim := fd mem (lastRemainder av)
  if victim = lastRemainder av then some (mem, none)
  else
    let victimSize := chunksize mem victim
    let rest := remainderSize mem victim nb
    if minsize ≤ rest then
      some (splitRemainder av (setHead mem victim (nb ||| 1)) victim nb rest.toNat, some victim)
    else
      let mem := clearLastRemainder av mem
      if 0 ≤ rest then some (setInuseBitAtOffset mem victim victimSize, some victim)
      else do
        let mem ← frontlink av fuel mem victim victimSize
        some (mem, none)

def scanBlock (fuel : Nat) (mem : Buf) (nb : Nat) : Nat → Nat → Option (Option Nat × Nat)
  | 0, _ => none
  | steps + 1, idx => do
    match ← firstFit mem nb (binAt av idx) fuel (bk mem (binAt av idx)) with
    | some victim => some (some victim, idx)
    | none =>
      if (idx + 1) % 4 ≠ 0 then scanBlock fuel mem nb steps (idx + 1) else some (none, idx + 1)

def clearBinblock (mem : Buf) (block : Nat) : Buf :=
  putLe32 mem (av + 4) (binblocks av mem &&& (4294967295 ^^^ block))

-- The block is cleared if the bins in front of startidx are empty, too.
def clearBlock (mem : Buf) (block : Nat) : Nat → Buf
  | 0 => clearBinblock av mem block
  | startidx + 1 =>
    if (startidx + 1) % 4 = 0 then clearBinblock av mem block
    else if fd mem (binAt av startidx) = binAt av startidx then clearBlock mem block startidx
    else mem

def nextBlock (blocks : Nat) : Nat → Nat → Nat → Option (Nat × Nat)
  | 0, _, _ => none
  | fuel + 1, idx, block =>
    if block &&& blocks = 0 then nextBlock blocks fuel (idx + 4) (u32 (2 * block))
    else some (idx, block)

def searchBlocks (fuel : Nat) (nb : Nat) : Nat → Buf → Nat → Nat → Option (Buf × Option Nat)
  | 0, _, _, _ => none
  | rounds + 1, mem, idx, block => do
    let scanned ← scanBlock av fuel mem nb 4 idx
    match scanned.1 with
    | some victim => some (mem, some victim)
    | none =>
      let mem := clearBlock av mem block idx
      let block := u32 (2 * block)
      if block ≤ binblocks av mem ∧ block ≠ 0 then do
        let at' ← nextBlock (binblocks av mem) 33 scanned.2 block
        searchBlocks fuel nb rounds mem at'.1 at'.2
      else some (mem, none)

def searchBins (fuel : Nat) (mem : Buf) (nb idx : Nat) : Option (Buf × Option Nat) :=
  let block := idx2binblock idx
  let blocks := binblocks av mem
  if block ≤ blocks then
    if block &&& blocks = 0 then do
      let at' ← nextBlock blocks 33 (idx / 4 * 4 + 4) (u32 (2 * block))
      searchBlocks av fuel nb 33 mem at'.1 at'.2
    else searchBlocks av fuel nb 33 mem idx block
  else some (mem, none)

def useFit (mem : Buf) (victim nb : Nat) : Buf :=
  let victimSize := chunksize mem victim
  let rest := remainderSize mem victim nb
  if minsize ≤ rest then
    splitRemainder av (unlink (setHead mem victim (nb ||| 1)) victim) victim nb rest.toNat
  else unlink (setInuseBitAtOffset mem victim victimSize) victim

def cutTop (mem : Buf) (nb : Nat) : Buf :=
  let victim := top av mem
  let rest := remainderSize mem victim nb
  let mem := setTop av (setHead mem victim (nb ||| 1)) (victim + nb)
  setHead mem (victim + nb) (rest.toNat ||| 1)

def useTop (fuel : Nat) (s : Arena) (nb : Nat) : Option (Nat × Arena) :=
  if remainderSize s.mem (top av s.mem) nb < minsize then do
    let s ← mallocExtendTop av fuel s nb
    if remainderSize s.mem (top av s.mem) nb < minsize then some (0, s)
    else some (chunk2mem (top av s.mem), s.withMem (cutTop av s.mem nb))
  else some (chunk2mem (top av s.mem), s.withMem (cutTop av s.mem nb))

-- none when a loop has run out of fuel or an assertion has failed.
def malloc (fuel : Nat) (s : Arena) (bytes : Nat) : Option (Nat × Arena) :=
  if s.heap.memMallocStart = 0 ∧ s.heap.memMallocEnd = 0 then some (0, s)
  else if toInt32 bytes < 0 then some (0, s)
  else do
    let nb := request2size bytes
    match ← exactFit av fuel s.mem nb with
    | .inl victim => some (chunk2mem victim, s.withMem (takeExact s.mem victim))
    | .inr idx =>
      let used ← useLastRemainder av fuel s.mem nb
      match used.2 with
      | some victim => some (chunk2mem victim, s.withMem used.1)
      | none =>
        let found ← searchBins av fuel used.1 nb idx
        match found.2 with
        | some victim => some (chunk2mem victim, s.withMem (useFit av found.1 victim nb))
        | none => useTop av fuel (s.withMem found.1) nb

end bins

end NonOsLite
