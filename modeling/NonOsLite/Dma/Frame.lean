import NonOsLite.Dma.Drivers

namespace NonOsLite.Dma
open RegisterBits

variable {r : Regs} {c k : Fin 8} {i : Nat}

namespace Ftdmac030

theorem dmaRegister_wellFormed : dmaRegister.WellFormed := ⟨by decide, by decide⟩

def Op.Fits (r : Regs) (c : Fin 8) : Op → Prop
  | .disableEndianConverter => ∀ k : Fin 8, k ≠ c →
      (r (dmaRegister.base + dmaEndian)).getLsbD k = false
  | .setInterrupt junk _ _ _ => ∀ i, 3 ≤ i →
      junk.getLsbD i = (r (dmaRegister.ch c dmaChannelCfgOffset)).getLsbD i
  | _ => True

theorem owns_endian (h : dmaRegister.Owns k (dmaRegister.base + dmaEndian) i) : i = k := by
  cases h with
  | block hlo hhi =>
    simp only [Controller.ch, dmaChannel0Base, dmaChannelOffset, dmaEndian] at hlo
    omega
  | bit _ _ _ hi => exact hi
  | pair off hoff hpair ha hi =>
    have hoff : off = dmaEndian := by omega
    subst hoff
    exact absurd hpair (by decide)
  | word off hoff ha => cases hoff

theorem endian_notMem_clearRegs : dmaRegister.base + dmaEndian ∉ dmaRegister.clearRegs := by
  decide

theorem endian_window : dmaRegister.base ≤ dmaRegister.base + dmaEndian ∧
    dmaRegister.base + dmaEndian < dmaRegister.base + 0x200 := by
  decide

theorem endianStore {v : BitVec 32}
    (hv : ∀ k : Fin 8, k ≠ c → v.getLsbD k = (r (dmaRegister.base + dmaEndian)).getLsbD k) :
    dmaRegister.StoreFrames r c [⟨dmaRegister.base + dmaEndian, c, 1⟩]
      ⟨dmaRegister.base + dmaEndian, v⟩ := by
  refine ⟨endian_window, ?_, fun hclear => absurd hclear endian_notMem_clearRegs⟩
  intro _ i k howns hunnamed
  obtain rfl := owns_endian howns
  refine hv k ?_
  rintro rfl
  exact hunnamed rfl _ (List.mem_singleton_self _) ⟨rfl, le_rfl, Nat.lt_succ_self _⟩

theorem lowHalf_bit (k : Fin 8) : (0xFFFF#32).getLsbD k = true := by
  revert k
  decide

theorem enableEndian_frames :
    dmaRegister.Frames r c (Op.named c .enableEndianConverter)
      (Op.stores r c .enableEndianConverter) := by
  refine Controller.frames_single (endianStore ?_)
  intro k hk
  have hbit : (1#32 <<< c.val).getLsbD k = false := by
    rw [getLsbD_bit (by omega)]
    exact beq_eq_false_iff_ne.mpr fun h => hk (Fin.ext h.symm)
  rw [BitVec.getLsbD_or, hbit, Bool.or_false, inw, BitVec.getLsbD_and, lowHalf_bit,
    Bool.and_true]

theorem disableEndian_frames_iff :
    dmaRegister.Frames r c (Op.named c .disableEndianConverter)
        (Op.stores r c .disableEndianConverter) ↔
      Op.Fits r c .disableEndianConverter := by
  have hzero (k : Fin 8) : (0#32 <<< c.val).getLsbD k = false := by
    rw [BitVec.zero_shiftLeft, BitVec.getLsbD_zero]
  constructor
  · intro h k hk
    have howns : dmaRegister.Owns k (dmaRegister.base + dmaEndian) k :=
      .bit dmaEndian (by decide) rfl rfl
    have hkeeps := h.others _ _ _ howns hk endian_notMem_clearRegs
    rw [← hkeeps]
    exact (congrArg (BitVec.getLsbD · k) (storeAll_single r _)).trans (hzero k)
  · intro h
    refine Controller.frames_single (endianStore fun k hk => ?_)
    rw [hzero k, h k hk]

theorem setInterrupt_frames_iff (junk tcintr errintr abtintr : BitVec 32) :
    dmaRegister.Frames r c (Op.named c (.setInterrupt junk tcintr errintr abtintr))
        (Op.stores r c (.setInterrupt junk tcintr errintr abtintr)) ↔
      Op.Fits r c (.setInterrupt junk tcintr errintr abtintr) := by
  constructor
  · intro h i hi
    have howns : dmaRegister.Owns c (dmaRegister.ch c dmaChannelCfgOffset) i :=
      .block (Nat.le_add_right _ _) (Nat.add_lt_add_left (by decide) _)
    have hunnamed : ∀ f ∈ Op.named c (.setInterrupt junk tcintr errintr abtintr),
        ¬f.Has (dmaRegister.ch c dmaChannelCfgOffset) i := by
      intro f hf hhas
      rw [List.mem_singleton.mp hf] at hhas
      have hlt : i < 0 + 3 := hhas.2.2
      omega
    have hkeeps := h.unnamed _ _ howns (Controller.ch_notMem_clearRegs _ _ _) hunnamed
    have hafter := storeAll_single r ⟨dmaRegister.ch c dmaChannelCfgOffset,
      setBit (setBit (setBit junk 0 (tcintr == 0)) 1 (errintr == 0)) 2 (abtintr == 0)⟩
    rw [← hkeeps]
    exact (setBits_of_ge hi).symm.trans (congrArg (BitVec.getLsbD · i) hafter).symm
  · intro h
    exact Controller.frames_single
      (dmaRegister_wellFormed.threeBits (by decide) (List.mem_singleton_self _) h)

theorem frames_iff (op : Op) :
    dmaRegister.Frames r c (op.named c) (op.stores r c) ↔ op.Fits r c := by
  have hd := dmaRegister_wellFormed
  cases op with
  | disableEndianConverter => exact disableEndian_frames_iff
  | setInterrupt junk tcintr errintr abtintr =>
    exact setInterrupt_frames_iff junk tcintr errintr abtintr
  | enableEndianConverter => exact iff_of_true enableEndian_frames trivial
  | clearIntStatus => exact iff_of_true hd.clearStores trivial
  | setCHCsr csr | setChannelCfg csr =>
    exact iff_of_true (hd.wholeWords [(dmaChannelCsrOffset, csr)] (by simp; decide)) trivial
  | setCHCfg cfg | intMask cfg =>
    exact iff_of_true (hd.wholeWords [(dmaChannelCfgOffset, cfg)] (by simp; decide)) trivial
  | linkList llp =>
    exact iff_of_true (hd.wholeWords [(dmaChannelLlpOffset, llp)] (by simp; decide)) trivial
  | dataCtrl srcAddr dstAddr size =>
    exact iff_of_true (hd.wholeWords [(dmaChannelSrcaddrOffset, srcAddr),
      (dmaChannelDstaddrOffset, dstAddr), (dmaChannelSizeOffset, size)] (by simp; decide)) trivial
  | dataCtrl2D srcAddr dstAddr xTcnt yTcnt dstStride srcStride =>
    exact iff_of_true (hd.wholeWords [(dmaChannelSrcaddrOffset, srcAddr),
      (dmaChannelDstaddrOffset, dstAddr), (dmaChannelSizeOffset, yTcnt <<< 16 ||| xTcnt),
      (dmaChannelStrideOffset, dstStride <<< 16 ||| srcStride)] (by simp; decide)) trivial
  | resetChannel =>
    exact iff_of_true (hd.wholeWords [(dmaChannelCsrOffset, 0), (dmaChannelCfgOffset, 7),
      (dmaChannelSrcaddrOffset, 0), (dmaChannelDstaddrOffset, 0), (dmaChannelLlpOffset, 0),
      (dmaChannelSizeOffset, 0)] (by simp; decide)) trivial
  | enable | disable =>
    have hoff : dmaChannelCsrOffset < dmaChannelOffset := by decide
    exact iff_of_true
      (Controller.frames_single (hd.oneBit hoff (List.mem_singleton_self _) _)) trivial
  | enableWriteOnly | enableUnalign =>
    have hoff : dmaChannelCfgOffset < dmaChannelOffset := by decide
    exact iff_of_true
      (Controller.frames_single (hd.oneBit hoff (List.mem_singleton_self _) true)) trivial

end Ftdmac030

namespace Ftdmac020

theorem dmaReg_wellFormed : dmaReg.WellFormed := ⟨by decide, by decide⟩

theorem frames (op : Op) : dmaReg.Frames r c (op.named c) (op.stores r c) := by
  have hd := dmaReg_wellFormed
  cases op with
  | clearIntStatus => exact hd.clearStores
  | setChannelCfg csr => exact hd.wholeWords [(dmaChannelCsrOffset, csr)] (by simp; decide)
  | setChannelCnCfg cfg | intMask cfg =>
    exact hd.wholeWords [(dmaChannelCfgOffset, cfg)] (by simp; decide)
  | linkList addr => exact hd.wholeWords [(dmaChannelLlpOffset, addr)] (by simp; decide)
  | dataCtrl srcAddr dstAddr size =>
    exact hd.wholeWords [(dmaChannelSrcaddrOffset, srcAddr), (dmaChannelDstaddrOffset, dstAddr),
      (dmaChannelSizeOffset, size)] (by simp; decide)
  | setInterrupt tcintr errintr abtintr =>
    have hoff : dmaChannelCfgOffset < dmaChannelOffset := by decide
    exact Controller.frames_single
      (hd.threeBits hoff (List.mem_singleton_self _) fun i _ => rfl)
  | resetChannel =>
    exact hd.wholeWords [(0x0, 0), (0x4, 0), (0x8, 0), (0xc, 0), (0x10, 0), (0x14, 0), (0x18, 0),
      (0x1c, 0)] (by simp; decide)
  | enable =>
    have hoff : dmaChannelCsrOffset < dmaChannelOffset := by decide
    exact Controller.frames_single (hd.oneBit hoff (List.mem_singleton_self _) true)
  | disable =>
    have hoff : dmaChannelCsrOffset < dmaChannelOffset := by decide
    exact Controller.frames_single (hd.oneBit hoff (List.mem_singleton_self _) false)

end Ftdmac020

inductive Operation where
  | ftdmac030 (c : Fin 8) (op : Ftdmac030.Op)
  | clearAll030
  | ftdmac020 (c : Fin 8) (op : Ftdmac020.Op)
  | clearAll020

def Controller.ClearsOnly (d : Controller) (ss : List Store) : Prop :=
  ∀ s ∈ ss, s.addr ∈ d.clearRegs

instance (d : Controller) (ss : List Store) : Decidable (d.ClearsOnly ss) :=
  inferInstanceAs (Decidable (∀ s ∈ ss, s.addr ∈ d.clearRegs))

def Operation.Right (r : Regs) : Operation → Prop
  | .ftdmac030 c op => Ftdmac030.dmaRegister.Frames r c (op.named c) (op.stores r c)
  | .clearAll030 => Ftdmac030.dmaRegister.ClearsOnly Ftdmac030.dmaClearAllInterrupt
  | .ftdmac020 c op => Ftdmac020.dmaReg.Frames r c (op.named c) (op.stores r c)
  | .clearAll020 => Ftdmac020.dmaReg.ClearsOnly Ftdmac020.fLibDMAClearAllInterrupt

def Operation.Fits (r : Regs) : Operation → Prop
  | .ftdmac030 c op => op.Fits r c
  | .clearAll020 => False
  | _ => True

theorem clearAll030_clears :
    Ftdmac030.dmaRegister.ClearsOnly Ftdmac030.dmaClearAllInterrupt := by
  decide

-- Its addresses are 0xFF and 0xFF00FF.
theorem clearAll020_strays :
    ¬Ftdmac020.dmaReg.ClearsOnly Ftdmac020.fLibDMAClearAllInterrupt := by
  decide

theorem dma_frames_iff (r : Regs) (op : Operation) : op.Right r ↔ op.Fits r := by
  cases op with
  | ftdmac030 c op => exact Ftdmac030.frames_iff op
  | clearAll030 => exact iff_of_true clearAll030_clears trivial
  | ftdmac020 c op => exact iff_of_true (Ftdmac020.frames op) trivial
  | clearAll020 => exact iff_of_false clearAll020_strays id

-- Channel 3 loses its converter when channel 0 is told to do without.
theorem dma_disableEndian_others : ¬∀ (r : Regs) (op : Operation), op.Right r := by
  intro hall
  have hframes := hall (fun _ => 8#32) (.ftdmac030 0 .disableEndianConverter)
  have hkeeps := hframes.others (Ftdmac030.dmaRegister.base + Ftdmac030.dmaEndian) 3 3
    (.bit Ftdmac030.dmaEndian (by decide) rfl rfl) (by decide) (by decide)
  exact absurd hkeeps (by decide)

end NonOsLite.Dma
