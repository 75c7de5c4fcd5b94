import NonOsLite.Dma.Registers

namespace NonOsLite.Dma

namespace Ftdmac030

def dmaEndian : Nat := 0x4c
def dmaCsrUnalign : BitVec 32 := 1#32 <<< 31
def dmaCsrWriteOnly : BitVec 32 := 1#32 <<< 30

def dmaRegister : Controller where
  base := 0xA0200000
  bitRegs := [0x0, 0x4, 0x8, 0xC, 0x10, 0x14, 0x18, 0x1C, 0x20, 0x4c]
  pairRegs := [0xC, 0x10, 0x18]
  wordArrays := []

def dmaSetCHCsr (c : Fin 8) (csr : BitVec 32) : List Store :=
  [⟨dmaRegister.ch c dmaChannelCsrOffset, csr⟩]

def dmaSetCHCfg (c : Fin 8) (cfg : BitVec 32) : List Store :=
  [⟨dmaRegister.ch c dmaChannelCfgOffset, cfg⟩]

-- ch_en is bit 16 of csr.
def enableDMAChannel (r : Regs) (c : Fin 8) : List Store :=
  let csr := dmaRegister.ch c dmaChannelCsrOffset
  [⟨csr, setBit (r csr) 16 true⟩]

def disableDMAChannel (r : Regs) (c : Fin 8) : List Store :=
  let csr := dmaRegister.ch c dmaChannelCsrOffset
  [⟨csr, setBit (r csr) 16 false⟩]

def enableDMAChannelEndianConverter (r : Regs) (c : Fin 8) : List Store :=
  let reg := inw r (dmaRegister.base + dmaEndian)
  [outl (reg ||| 1#32 <<< c.val) (dmaRegister.base + dmaEndian)]

def disableDMAChannelEndianConverter (c : Fin 8) : List Store :=
  [outl (0#32 <<< c.val) (dmaRegister.base + dmaEndian)]

def enableDMAChannelWriteOnly (r : Regs) (c : Fin 8) : List Store :=
  let cfg := dmaRegister.ch c dmaChannelCfgOffset
  [⟨cfg, r cfg ||| dmaCsrWriteOnly⟩]

def enableDMAChannelUnalign (r : Regs) (c : Fin 8) : List Store :=
  let cfg := dmaRegister.ch c dmaChannelCfgOffset
  [⟨cfg, r cfg ||| dmaCsrUnalign⟩]

def clearDMAChannelIntStatus (c : Fin 8) : List Store :=
  [⟨dmaRegister.base + dmaIntTcClr, 1#32 <<< c.val⟩,
    ⟨dmaRegister.base + dmaIntErrabtClr, 1#32 <<< c.val⟩]

def setDMAChannelCfg (c : Fin 8) (csr : BitVec 32) : List Store :=
  [⟨dmaRegister.ch c dmaChannelCsrOffset, csr⟩]

def dmaCHIntMask (c : Fin 8) (mask : BitVec 32) : List Store :=
  [⟨dmaRegister.ch c dmaChannelCfgOffset, mask⟩]

def dmaCHLinkList (c : Fin 8) (llp : BitVec 32) : List Store :=
  [⟨dmaRegister.ch c dmaChannelLlpOffset, llp⟩]

def dmaCHDataCtrl (c : Fin 8) (srcAddr dstAddr size : BitVec 32) : List Store :=
  [⟨dmaRegister.ch c dmaChannelSrcaddrOffset, srcAddr⟩,
    ⟨dmaRegister.ch c dmaChannelDstaddrOffset, dstAddr⟩,
    ⟨dmaRegister.ch c dmaChannelSizeOffset, size⟩]

def dmaCHDataCtrl2D (c : Fin 8) (srcAddr dstAddr xTcnt yTcnt dstStride srcStride : BitVec 32) :
    List Store :=
  [⟨dmaRegister.ch c dmaChannelSrcaddrOffset, srcAddr⟩,
    ⟨dmaRegister.ch c dmaChannelDstaddrOffset, dstAddr⟩,
    ⟨dmaRegister.ch c dmaChannelSizeOffset, yTcnt <<< 16 ||| xTcnt⟩,
    ⟨dmaRegister.ch c dmaChannelStrideOffset, dstStride <<< 16 ||| srcStride⟩]

-- cfg starts as what the stack holds: junk.
def dmaSetInterrupt (junk : BitVec 32) (c : Fin 8) (tcintr errintr abtintr : BitVec 32) :
    List Store :=
  let cfg := setBit junk 0 (tcintr == 0)
  let cfg := setBit cfg 1 (errintr == 0)
  let cfg := setBit cfg 2 (abtintr == 0)
  dmaCHIntMask c cfg

def dmaResetChannel (c : Fin 8) : List Store :=
  [outl 0 (dmaRegister.ch c dmaChannelCsrOffset), outl 7 (dmaRegister.ch c dmaChannelCfgOffset),
    outl 0 (dmaRegister.ch c dmaChannelSrcaddrOffset),
    outl 0 (dmaRegister.ch c dmaChannelDstaddrOffset),
    outl 0 (dmaRegister.ch c dmaChannelLlpOffset), outl 0 (dmaRegister.ch c dmaChannelSizeOffset)]

def dmaClearAllInterrupt : List Store :=
  [outl 0xFF (dmaRegister.base + dmaIntTcClr), outl 0xFF00FF (dmaRegister.base + dmaIntErrabtClr)]

inductive Op where
  | setCHCsr (csr : BitVec 32)
  | setCHCfg (cfg : BitVec 32)
  | enable
  | disable
  | enableEndianConverter
  | disableEndianConverter
  | enableWriteOnly
  | enableUnalign
  | clearIntStatus
  | setChannelCfg (csr : BitVec 32)
  | intMask (mask : BitVec 32)
  | linkList (llp : BitVec 32)
  | dataCtrl (srcAddr dstAddr size : BitVec 32)
  | dataCtrl2D (srcAddr dstAddr xTcnt yTcnt dstStride srcStride : BitVec 32)
  | setInterrupt (junk tcintr errintr abtintr : BitVec 32)
  | resetChannel

def Op.stores (r : Regs) (c : Fin 8) : Op → List Store
  | .setCHCsr csr => dmaSetCHCsr c csr
  | .setCHCfg cfg => dmaSetCHCfg c cfg
  | .enable => enableDMAChannel r c
  | .disable => disableDMAChannel r c
  | .enableEndianConverter => enableDMAChannelEndianConverter r c
  | .disableEndianConverter => disableDMAChannelEndianConverter c
  | .enableWriteOnly => enableDMAChannelWriteOnly r c
  | .enableUnalign => enableDMAChannelUnalign r c
  | .clearIntStatus => clearDMAChannelIntStatus c
  | .setChannelCfg csr => setDMAChannelCfg c csr
  | .intMask mask => dmaCHIntMask c mask
  | .linkList llp => dmaCHLinkList c llp
  | .dataCtrl srcAddr dstAddr size => dmaCHDataCtrl c srcAddr dstAddr size
  | .dataCtrl2D srcAddr dstAddr xTcnt yTcnt dstStride srcStride =>
      dmaCHDataCtrl2D c srcAddr dstAddr xTcnt yTcnt dstStride srcStride
  | .setInterrupt junk tcintr errintr abtintr => dmaSetInterrupt junk c tcintr errintr abtintr
  | .resetChannel => dmaResetChannel c

def wholeWord (c : Fin 8) (off : Nat) : Field := ⟨dmaRegister.ch c off, 0, 32⟩

def Op.named (c : Fin 8) : Op → List Field
  | .setCHCsr _ | .setChannelCfg _ => [wholeWord c dmaChannelCsrOffset]
  | .setCHCfg _ | .intMask _ => [wholeWord c dmaChannelCfgOffset]
  | .enable | .disable => [⟨dmaRegister.ch c dmaChannelCsrOffset, 16, 1⟩]
  | .enableEndianConverter | .disableEndianConverter => [⟨dmaRegister.base + dmaEndian, c, 1⟩]
  | .enableWriteOnly => [⟨dmaRegister.ch c dmaChannelCfgOffset, 30, 1⟩]
  | .enableUnalign => [⟨dmaRegister.ch c dmaChannelCfgOffset, 31, 1⟩]
  | .clearIntStatus =>
      [⟨dmaRegister.base + dmaIntTcClr, c, 1⟩, ⟨dmaRegister.base + dmaIntErrabtClr, c, 1⟩]
  | .linkList _ => [wholeWord c dmaChannelLlpOffset]
  | .dataCtrl _ _ _ => [wholeWord c dmaChannelSrcaddrOffset, wholeWord c dmaChannelDstaddrOffset,
      wholeWord c dmaChannelSizeOffset]
  | .dataCtrl2D _ _ _ _ _ _ => [wholeWord c dmaChannelSrcaddrOffset,
      wholeWord c dmaChannelDstaddrOffset, wholeWord c dmaChannelSizeOffset,
      wholeWord c dmaChannelStrideOffset]
  | .setInterrupt _ _ _ _ => [⟨dmaRegister.ch c dmaChannelCfgOffset, 0, 3⟩]
  | .resetChannel => [wholeWord c dmaChannelCsrOffset, wholeWord c dmaChannelCfgOffset,
      wholeWord c dmaChannelSrcaddrOffset, wholeWord c dmaChannelDstaddrOffset,
      wholeWord c dmaChannelLlpOffset, wholeWord c dmaChannelSizeOffset]

end Ftdmac030

namespace Ftdmac020

def dmaCsrChEnable : BitVec 32 := 1#32 <<< 0

def dmaReg : Controller where
  base := 0x90400000
  bitRegs := [0x0, 0x4, 0x8, 0xC, 0x10, 0x14, 0x18, 0x1C, 0x20, 0x28]
  pairRegs := [0xC, 0x10, 0x18]
  wordArrays := [0x40, 0x80]

def fLibEnableDMAChannel (r : Regs) (c : Fin 8) : List Store :=
  let csr := dmaReg.ch c dmaChannelCsrOffset
  [⟨csr, r csr ||| dmaCsrChEnable⟩]

def fLibDisableDMAChannel (r : Regs) (c : Fin 8) : List Store :=
  let csr := dmaReg.ch c dmaChannelCsrOffset
  [⟨csr, r csr &&& ~~~dmaCsrChEnable⟩]

def fLibClearDMAChannelIntStatus (c : Fin 8) : List Store :=
  [⟨dmaReg.base + dmaIntTcClr, 1#32 <<< c.val⟩, ⟨dmaReg.base + dmaIntErrabtClr, 1#32 <<< c.val⟩]

def fLibSetDMAChannelCfg (c : Fin 8) (csr : BitVec 32) : List Store :=
  [⟨dmaReg.ch c dmaChannelCsrOffset, csr⟩]

def fLibSetDMAChannelCnCfg (c : Fin 8) (cnCfg : BitVec 32) : List Store :=
  [⟨dmaReg.ch c dmaChannelCfgOffset, cnCfg⟩]

def fLibGetDMAChannelCnCfg (r : Regs) (c : Fin 8) : BitVec 32 := r (dmaReg.ch c dmaChannelCfgOffset)

def fLibDMACHIntMask (c : Fin 8) (mask : BitVec 32) : List Store :=
  [⟨dmaReg.ch c dmaChannelCfgOffset, mask⟩]

def fLibDMACHLinkList (c : Fin 8) (linkListAddr : BitVec 32) : List Store :=
  [⟨dmaReg.ch c dmaChannelLlpOffset, linkListAddr⟩]

def fLibDMACHDataCtrl (c : Fin 8) (srcAddr dstAddr size : BitVec 32) : List Store :=
  [⟨dmaReg.ch c dmaChannelSrcaddrOffset, srcAddr⟩, ⟨dmaReg.ch c dmaChannelDstaddrOffset, dstAddr⟩,
    ⟨dmaReg.ch c dmaChannelSizeOffset, size⟩]

def fLibDMASetInterrupt (r : Regs) (c : Fin 8) (tcintr errintr abtintr : BitVec 32) : List Store :=
  let cfg := fLibGetDMAChannelCnCfg r c
  let cfg := setBit cfg 0 (tcintr == 0)
  let cfg := setBit cfg 1 (errintr == 0)
  let cfg := setBit cfg 2 (abtintr == 0)
  fLibDMACHIntMask c cfg

-- memset over the eight words of the channel.
def fLibDMAResetChannel (c : Fin 8) : List Store :=
  [0x0, 0x4, 0x8, 0xc, 0x10, 0x14, 0x18, 0x1c].map fun off => ⟨dmaReg.ch c off, 0⟩

-- The first argument of outl is the value. The store to 0xFF is kept at that address.
def fLibDMAClearAllInterrupt : List Store :=
  [outl (BitVec.ofNat 32 (dmaReg.base + dmaIntTcClr)) 0xFF,
    outl (BitVec.ofNat 32 (dmaReg.base + dmaIntErrabtClr)) 0xFF00FF]

inductive Op where
  | enable
  | disable
  | clearIntStatus
  | setChannelCfg (csr : BitVec 32)
  | setChannelCnCfg (cnCfg : BitVec 32)
  | intMask (mask : BitVec 32)
  | linkList (linkListAddr : BitVec 32)
  | dataCtrl (srcAddr dstAddr size : BitVec 32)
  | setInterrupt (tcintr errintr abtintr : BitVec 32)
  | resetChannel

def Op.stores (r : Regs) (c : Fin 8) : Op → List Store
  | .enable => fLibEnableDMAChannel r c
  | .disable => fLibDisableDMAChannel r c
  | .clearIntStatus => fLibClearDMAChannelIntStatus c
  | .setChannelCfg csr => fLibSetDMAChannelCfg c csr
  | .setChannelCnCfg cnCfg => fLibSetDMAChannelCnCfg c cnCfg
  | .intMask mask => fLibDMACHIntMask c mask
  | .linkList linkListAddr => fLibDMACHLinkList c linkListAddr
  | .dataCtrl srcAddr dstAddr size => fLibDMACHDataCtrl c srcAddr dstAddr size
  | .setInterrupt tcintr errintr abtintr => fLibDMASetInterrupt r c tcintr errintr abtintr
  | .resetChannel => fLibDMAResetChannel c

def wholeWord (c : Fin 8) (off : Nat) : Field := ⟨dmaReg.ch c off, 0, 32⟩

def Op.named (c : Fin 8) : Op → List Field
  | .enable | .disable => [⟨dmaReg.ch c dmaChannelCsrOffset, 0, 1⟩]
  | .clearIntStatus => [⟨dmaReg.base + dmaIntTcClr, c, 1⟩, ⟨dmaReg.base + dmaIntErrabtClr, c, 1⟩]
  | .setChannelCfg _ => [wholeWord c dmaChannelCsrOffset]
  | .setChannelCnCfg _ | .intMask _ => [wholeWord c dmaChannelCfgOffset]
  | .linkList _ => [wholeWord c dmaChannelLlpOffset]
  | .dataCtrl _ _ _ => [wholeWord c dmaChannelSrcaddrOffset, wholeWord c dmaChannelDstaddrOffset,
      wholeWord c dmaChannelSizeOffset]
  | .setInterrupt _ _ _ => [⟨dmaReg.ch c dmaChannelCfgOffset, 0, 3⟩]
  | .resetChannel => [0x0, 0x4, 0x8, 0xc, 0x10, 0x14, 0x18, 0x1c].map (wholeWord c)

end Ftdmac020

end NonOsLite.Dma
