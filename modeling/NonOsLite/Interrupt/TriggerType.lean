import NonOsLite.Lib.LastWrite
import NonOsLite.Lib.RegisterBits

namespace NonOsLite.Interrupt
open InputMachine LastWrite RegisterBits

def nrIrqs : Nat := 32

def irqTypeEdgeRising : Nat := 0x00000001
def irqTypeEdgeFalling : Nat := 0x00000002
def irqTypeLevelHigh : Nat := 0x00000004
def irqTypeLevelLow : Nat := 0x00000008

-- The two registers irq_set_type reads and writes: trigger mode at 0xC, trigger level at 0x10.
structure TriggerRegs where
  mode : BitVec 32
  level : BitVec 32
deriving DecidableEq

def irqSetType (r : TriggerRegs) (irq type : Nat) : TriggerRegs × Int :=
  if nrIrqs ≤ irq then (r, -1)
  else if type = irqTypeLevelLow then ({ r with level := r.level ||| 1#32 <<< irq }, 0)
  else if type = irqTypeLevelHigh then (r, 0)
  else if type = irqTypeEdgeFalling then
    ({ mode := r.mode ||| 1#32 <<< irq, level := r.level ||| 1#32 <<< irq }, 0)
  else if type = irqTypeEdgeRising then ({ r with mode := r.mode ||| 1#32 <<< irq }, 0)
  else (r, -1)

structure Call where
  irq : Nat
  type : Nat

def configure (r : TriggerRegs) (c : Call) : TriggerRegs := (irqSetType r c.irq c.type).1

def isEdge (type : Nat) : Bool := type == irqTypeEdgeRising || type == irqTypeEdgeFalling

def isLow (type : Nat) : Bool := type == irqTypeLevelLow || type == irqTypeEdgeFalling

def isType (type : Nat) : Bool :=
  isEdge type || isLow type || type == irqTypeLevelHigh

def asks (bit : Nat → Bool) (irq : Nat) (c : Call) : Option Bool :=
  if c.irq = irq ∧ isType c.type = true then some (bit c.type) else none

def LastWins (r : TriggerRegs) (cs : List Call) : Prop :=
  ∀ irq < nrIrqs,
    (run configure r cs).mode.getLsbD irq = (last (asks isEdge irq) cs).getD (r.mode.getLsbD irq) ∧
    (run configure r cs).level.getLsbD irq = (last (asks isLow irq) cs).getD (r.level.getLsbD irq)

def NeverSet (reg : BitVec 32) (bit : Nat → Bool) (cs : List Call) (irq : Nat) : Prop :=
  last (asks bit irq) cs = some false →
    reg.getLsbD irq = false ∧ ∀ c ∈ cs, asks bit irq c ≠ some true

variable {r : TriggerRegs} {c : Call} {cs : List Call} {irq : Nat}

theorem irqSetType_rejected (h : (irqSetType r irq c.type).2 = -1) :
    (irqSetType r irq c.type).1 = r := by
  unfold irqSetType at h ⊢
  split_ifs at h ⊢ <;> rfl

theorem configure_bits (r : TriggerRegs) (c : Call) (h : irq < nrIrqs) :
    (configure r c).mode.getLsbD irq = (r.mode.getLsbD irq || asks isEdge irq c == some true) ∧
      (configure r c).level.getLsbD irq = (r.level.getLsbD irq || asks isLow irq c == some true) := by
  have h32 : irq < 32 := h
  unfold configure irqSetType
  split_ifs with hirq hlow hhigh hfalling hrising
  · have hne : c.irq ≠ irq := by omega
    simp [asks, hne]
  · rw [getLsbD_set h32]
    by_cases hi : c.irq = irq <;> simp [asks, hi, hlow, isType, isLow, isEdge, irqTypeLevelLow,
      irqTypeLevelHigh, irqTypeEdgeFalling, irqTypeEdgeRising]
  · by_cases hi : c.irq = irq <;> simp [asks, hi, hhigh, isType, isLow, isEdge, irqTypeLevelLow,
      irqTypeLevelHigh, irqTypeEdgeFalling, irqTypeEdgeRising]
  · rw [getLsbD_set h32, getLsbD_set h32]
    by_cases hi : c.irq = irq <;> simp [asks, hi, hfalling, isType, isLow, isEdge, irqTypeLevelLow,
      irqTypeLevelHigh, irqTypeEdgeFalling, irqTypeEdgeRising]
  · rw [getLsbD_set h32]
    by_cases hi : c.irq = irq <;> simp [asks, hi, hrising, isType, isLow, isEdge, irqTypeLevelLow,
      irqTypeLevelHigh, irqTypeEdgeFalling, irqTypeEdgeRising]
  · simp [asks, isType, isLow, isEdge, hlow, hhigh, hfalling, hrising]

theorem irq_set_type_last (r : TriggerRegs) (cs : List Call) :
    (∀ r c, (irqSetType r c.irq c.type).2 = -1 → configure r c = r) ∧
    (LastWins r cs ↔
      ∀ irq < nrIrqs, NeverSet r.mode isEdge cs irq ∧ NeverSet r.level isLow cs irq) := by
  refine ⟨fun r c => irqSetType_rejected, ?_⟩
  refine forall₂_congr fun irq hirq => ?_
  have hmode := run_or (fun r : TriggerRegs => r.mode.getLsbD irq)
    (fun s c => (configure_bits s c hirq).1) cs (s := r)
  have hlevel := run_or (fun r : TriggerRegs => r.level.getLsbD irq)
    (fun s c => (configure_bits s c hirq).2) cs (s := r)
  rw [hmode, hlevel, sticky_iff, sticky_iff]
  rfl

theorem irq_set_type_sticky : ¬∀ (r : TriggerRegs) (cs : List Call), (∀ c ∈ cs, c.irq < nrIrqs) →
    LastWins r cs := by
  intro h
  have hirq : ∀ c ∈ [Call.mk 5 irqTypeEdgeRising, Call.mk 5 irqTypeLevelHigh], c.irq < nrIrqs := by
    decide
  exact absurd (h ⟨0, 0⟩ [⟨5, irqTypeEdgeRising⟩, ⟨5, irqTypeLevelHigh⟩] hirq 5 (by decide)).1
    (by decide)

end NonOsLite.Interrupt
