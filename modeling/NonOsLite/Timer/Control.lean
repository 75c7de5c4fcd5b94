import NonOsLite.Lib.LastWrite

namespace NonOsLite.Timer
open InputMachine LastWrite

variable {α : Type}

structure Fttmr010Config where
  timerCounter : BitVec 32 := 0
  timerLoad : BitVec 32 := 0
  timerMatch1 : BitVec 32 := 0
  timerMatch2 : BitVec 32 := 0
deriving DecidableEq

-- The registers of the three timers, with timer_load_val and the handlers that are not null.
structure Timers where
  cfg : Nat → Fttmr010Config
  cr : BitVec 32
  interruptState : BitVec 32
  interruptMask : BitVec 32
  timerLoadVal : Nat → BitVec 32
  timerHandler : Nat → Bool

def fttmr010Tm1Enable : BitVec 32 := 1#32 <<< 0
def fttmr010Tm1Clock : BitVec 32 := 1#32 <<< 1
def fttmr010Tm1Match1 : BitVec 32 := 1#32 <<< 0
def fttmr010Tm1Match2 : BitVec 32 := 1#32 <<< 1
def fttmr010Tm1Overflow : BitVec 32 := 1#32 <<< 2
def fttmr010Tm2Enable : BitVec 32 := 1#32 <<< 3
def fttmr010Tm3Enable : BitVec 32 := 1#32 <<< 6

def timerIrqs (idx : Nat) : BitVec 32 :=
  (fttmr010Tm1Match1 ||| fttmr010Tm1Match2 ||| fttmr010Tm1Overflow) <<< (3 * idx)

def disableTimer (s : Timers) (timerIndex : Int) : Timers :=
  if timerIndex < 1 ∨ 3 < timerIndex then s
  else
    let idx := (timerIndex - 1).toNat
    { s with
      cr := s.cr &&& ~~~(fttmr010Tm1Enable <<< (idx * 3))
      cfg := Function.update s.cfg idx {} }

def initTimer (s : Timers) (timerIndex : Int) (loadVal : BitVec 32) (useExtclk timerCallback : Bool) :
    Timers × Int :=
  if timerIndex < 1 ∨ 3 < timerIndex then (s, 1)
  else
    let idx := (timerIndex - 1).toNat
    let s := { s with
      timerLoadVal := Function.update s.timerLoadVal idx loadVal
      cfg := Function.update s.cfg idx { timerLoad := loadVal, timerCounter := loadVal } }
    let s :=
      if timerCallback then
        { s with
          timerHandler := Function.update s.timerHandler idx true
          interruptMask := s.interruptMask &&& ~~~timerIrqs idx }
      else { s with interruptMask := s.interruptMask ||| timerIrqs idx }
    let cr := fttmr010Tm1Enable
    let cr := if useExtclk then cr ||| fttmr010Tm1Clock else cr
    ({ s with cr := s.cr ||| cr <<< (3 * idx) }, 0)

def initGlobalTimer (s : Timers) (loadVal : BitVec 32) (useExtclk : Bool) : Timers :=
  (initTimer { s with cr := 0, interruptMask := 0 } 1 loadVal useExtclk false).1

-- What the two interrupt routines do to the registers before and after the callback m_func.
def fttmr010T2Isr (mFunc : Timers → Timers × List α) (s : Timers) : Timers × List α :=
  let cr := s.cr
  let s := { s with cr := s.cr &&& ~~~fttmr010Tm2Enable }
  let s := { s with interruptState := s.interruptState &&& 0x1C7 }
  let (s, calls) := if s.timerHandler 1 then mFunc s else (s, [])
  ({ s with cr := cr }, calls)

def fttmr010T3Isr (mFunc : Timers → Timers × List α) (s : Timers) : Timers × List α :=
  let cr := s.cr
  let s := { s with cr := s.cr &&& ~~~fttmr010Tm3Enable }
  let s := { s with interruptState := s.interruptState &&& 0x3F }
  let (s, calls) := if s.timerHandler 2 then mFunc s else (s, [])
  ({ s with cr := cr }, calls)

-- A call with a valid index, or an interrupt with what happens while its callback runs.
inductive Event where
  | initTimer (idx : Fin 3) (loadVal : BitVec 32) (useExtclk timerCallback : Bool)
  | disableTimer (idx : Fin 3)
  | t2Irq (callback : List Event)
  | t3Irq (callback : List Event)

inductive Call where
  | init (idx : Fin 3) (useExtclk : Bool)
  | disable (idx : Fin 3)

def timerIndex (idx : Fin 3) : Int := idx.val + 1

mutual

def exec : Event → Timers → Timers × List Call
  | .initTimer idx loadVal useExtclk timerCallback, s =>
      ((initTimer s (timerIndex idx) loadVal useExtclk timerCallback).1, [.init idx useExtclk])
  | .disableTimer idx, s => (disableTimer s (timerIndex idx), [.disable idx])
  | .t2Irq callback, s => fttmr010T2Isr (execAll callback) s
  | .t3Irq callback, s => fttmr010T3Isr (execAll callback) s

def execAll : List Event → Timers → Timers × List Call
  | [], s => (s, [])
  | e :: es, s =>
      let (s, calls) := exec e s
      let (s, calls') := execAll es s
      (s, calls ++ calls')

end

structure Trace where
  timers : Timers
  calls : List Call

def step (t : Trace) (e : Event) : Trace :=
  let (s, calls) := exec e t.timers
  ⟨s, t.calls ++ calls⟩

def start (s : Timers) (loadVal : BitVec 32) (useExtclk : Bool) : Trace :=
  ⟨initGlobalTimer s loadVal useExtclk, [.init 0 useExtclk]⟩

def enableAsked (idx : Fin 3) : Call → Option Bool
  | .init i _ => if i = idx then some true else none
  | .disable i => if i = idx then some false else none

def clockAsked (idx : Fin 3) : Call → Option Bool
  | .init i useExtclk => if i = idx then some useExtclk else none
  | .disable _ => none

def wanted (idx : Fin 3) (calls : List Call) : Bool × Bool :=
  ((last (enableAsked idx) calls).getD false, (last (clockAsked idx) calls).getD false)

def controlBits (s : Timers) (idx : Fin 3) : Bool × Bool :=
  (s.cr.getLsbD (3 * idx.val), s.cr.getLsbD (3 * idx.val + 1))

def Consistent (t : Trace) : Prop := ∀ idx, controlBits t.timers idx = wanted idx t.calls

-- The main program asks for no clock it must clear first; a callback leaves what is wanted as it was.
def Keeps (t : Trace) : Event → Prop
  | .initTimer idx _ useExtclk _ => useExtclk = false → (wanted idx t.calls).2 = false
  | .disableTimer _ => True
  | .t2Irq callback => ∀ idx, wanted idx (step t (.t2Irq callback)).calls = wanted idx t.calls
  | .t3Irq callback => ∀ idx, wanted idx (step t (.t3Irq callback)).calls = wanted idx t.calls

variable {s : Timers} {t : Trace} {idx i : Fin 3} {c : Call} {calls : List Call}

theorem timerIndex_valid (idx : Fin 3) : ¬(timerIndex idx < 1 ∨ 3 < timerIndex idx) := by
  have hlt := idx.isLt
  simp only [timerIndex]
  omega

theorem timerIndex_toNat (idx : Fin 3) : (timerIndex idx - 1).toNat = idx.val := by
  simp [timerIndex]

theorem initTimer_cr (s : Timers) (idx : Fin 3) (loadVal : BitVec 32)
    (useExtclk timerCallback : Bool) :
    (initTimer s (timerIndex idx) loadVal useExtclk timerCallback).1.cr =
      s.cr ||| (if useExtclk then fttmr010Tm1Enable ||| fttmr010Tm1Clock else fttmr010Tm1Enable) <<<
        (3 * idx.val) := by
  rw [initTimer, if_neg (timerIndex_valid idx), timerIndex_toNat]
  cases timerCallback <;> rfl

theorem disableTimer_cr (s : Timers) (idx : Fin 3) :
    (disableTimer s (timerIndex idx)).cr = s.cr &&& ~~~(fttmr010Tm1Enable <<< (idx.val * 3)) := by
  rw [disableTimer, if_neg (timerIndex_valid idx), timerIndex_toNat]

theorem controlBits_init (s : Timers) (idx i : Fin 3) (loadVal : BitVec 32)
    (useExtclk timerCallback : Bool) :
    controlBits (initTimer s (timerIndex idx) loadVal useExtclk timerCallback).1 i =
      ((controlBits s i).1 || idx == i, (controlBits s i).2 || (idx == i && useExtclk)) := by
  have hbits : ∀ (idx i : Fin 3) (ext : Bool),
      ((if ext then fttmr010Tm1Enable ||| fttmr010Tm1Clock else fttmr010Tm1Enable) <<<
        (3 * idx.val)).getLsbD (3 * i.val) = (idx == i) ∧
      ((if ext then fttmr010Tm1Enable ||| fttmr010Tm1Clock else fttmr010Tm1Enable) <<<
        (3 * idx.val)).getLsbD (3 * i.val + 1) = (idx == i && ext) := by decide +kernel
  rw [controlBits, initTimer_cr, BitVec.getLsbD_or, BitVec.getLsbD_or,
    (hbits idx i useExtclk).1, (hbits idx i useExtclk).2]
  rfl

theorem controlBits_disable (s : Timers) (idx i : Fin 3) :
    controlBits (disableTimer s (timerIndex idx)) i =
      ((controlBits s i).1 && !(idx == i), (controlBits s i).2) := by
  have hbits : ∀ idx i : Fin 3,
      (~~~(fttmr010Tm1Enable <<< (idx.val * 3))).getLsbD (3 * i.val) = !(idx == i) ∧
      (~~~(fttmr010Tm1Enable <<< (idx.val * 3))).getLsbD (3 * i.val + 1) = true := by
    decide +kernel
  rw [controlBits, disableTimer_cr, BitVec.getLsbD_and, BitVec.getLsbD_and, (hbits idx i).1,
    (hbits idx i).2, Bool.and_true]
  rfl

theorem wanted_init (idx i : Fin 3) (useExtclk : Bool) (calls : List Call) :
    wanted i (calls ++ [.init idx useExtclk]) =
      if idx = i then (true, useExtclk) else wanted i calls := by
  simp only [wanted, last_concat, enableAsked, clockAsked]
  split_ifs <;> rfl

theorem wanted_disable (idx i : Fin 3) (calls : List Call) :
    wanted i (calls ++ [.disable idx]) =
      (if idx = i then false else (wanted i calls).1, (wanted i calls).2) := by
  simp only [wanted, last_concat, enableAsked, clockAsked]
  split_ifs <;> rfl

theorem controlBits_t2Isr (mFunc : Timers → Timers × List α) (s : Timers) (i : Fin 3) :
    controlBits (fttmr010T2Isr mFunc s).1 i = controlBits s i := rfl

theorem controlBits_t3Isr (mFunc : Timers → Timers × List α) (s : Timers) (i : Fin 3) :
    controlBits (fttmr010T3Isr mFunc s).1 i = controlBits s i := rfl

theorem consistent_init (h : Consistent t) (idx : Fin 3) (loadVal : BitVec 32)
    (useExtclk timerCallback : Bool) :
    Consistent (step t (.initTimer idx loadVal useExtclk timerCallback)) ↔
      (useExtclk = false → (wanted idx t.calls).2 = false) := by
  have hbits (i : Fin 3) :
      controlBits (step t (.initTimer idx loadVal useExtclk timerCallback)).timers i =
        ((wanted i t.calls).1 || idx == i, (wanted i t.calls).2 || (idx == i && useExtclk)) := by
    rw [← h i]
    exact controlBits_init _ _ _ _ _ _
  have hwanted (i : Fin 3) := wanted_init idx i useExtclk t.calls
  constructor
  · intro hc hext
    have hidx := (hbits idx).symm.trans ((hc idx).trans (hwanted idx))
    rw [if_pos rfl, Prod.mk.injEq, hext] at hidx
    simpa using hidx.2
  · intro hk i
    rw [hbits i]
    refine Eq.trans ?_ (hwanted i).symm
    by_cases hi : idx = i
    · subst hi
      cases hext : useExtclk with
      | true => simp
      | false => simp [hk hext]
    · simp [hi, beq_false_of_ne hi]

theorem consistent_disable (h : Consistent t) (idx : Fin 3) :
    Consistent (step t (.disableTimer idx)) := by
  intro i
  have hbits : controlBits (step t (.disableTimer idx)).timers i =
      ((wanted i t.calls).1 && !(idx == i), (wanted i t.calls).2) := by
    rw [← h i]
    exact controlBits_disable _ _ _
  rw [hbits]
  refine Eq.trans ?_ (wanted_disable idx i t.calls).symm
  by_cases hi : idx = i
  · simp [hi]
  · simp [hi, beq_false_of_ne hi]

theorem consistent_restored {t' : Trace} (h : Consistent t)
    (hbits : ∀ i, controlBits t'.timers i = controlBits t.timers i) :
    Consistent t' ↔ ∀ i, wanted i t'.calls = wanted i t.calls := by
  refine forall_congr' fun i => ?_
  rw [hbits i, h i]
  exact eq_comm

theorem consistent_step (t : Trace) (e : Event) (h : Consistent t) :
    Consistent (step t e) ↔ Keeps t e := by
  cases e with
  | initTimer idx loadVal useExtclk timerCallback =>
    exact consistent_init h idx loadVal useExtclk timerCallback
  | disableTimer idx => exact iff_of_true (consistent_disable h idx) trivial
  | t2Irq callback =>
    exact consistent_restored h (controlBits_t2Isr (execAll callback) t.timers)
  | t3Irq callback =>
    exact consistent_restored h (controlBits_t3Isr (execAll callback) t.timers)

theorem consistent_start (s : Timers) (loadVal : BitVec 32) (useExtclk : Bool) :
    Consistent (start s loadVal useExtclk) := by
  intro i
  have hbits := controlBits_init { s with cr := 0, interruptMask := 0 } 0 i loadVal useExtclk false
  have hzero : controlBits { s with cr := 0, interruptMask := 0 } i = (false, false) := by
    simp [controlBits]
  rw [hzero] at hbits
  refine hbits.trans ?_
  have hwanted := wanted_init 0 i useExtclk []
  refine Eq.trans ?_ hwanted.symm
  by_cases hi : 0 = i
  · simp [hi]
  · simp [hi, wanted]

theorem timer_control_runs (s : Timers) (loadVal : BitVec 32) (useExtclk : Bool) (es : List Event) :
    (∀ pre, pre <+: es → Consistent (run step (start s loadVal useExtclk) pre)) ↔
      Meets step Keeps (start s loadVal useExtclk) es :=
  prefixes_iff_meets Consistent consistent_step (consistent_start s loadVal useExtclk) es

def resetTimers : Timers := ⟨fun _ => {}, 0, 0, 0, fun _ => 0, fun _ => false⟩

theorem timer_control_undone : ¬∀ (s : Timers) (loadVal : BitVec 32) (useExtclk : Bool)
    (es : List Event), Consistent (run step (start s loadVal useExtclk) es) := by
  intro h
  have hbits := h resetTimers 1000 false [.initTimer 1 100 false true, .t2Irq [.disableTimer 1]] 1
  exact absurd hbits (by decide +kernel)

end NonOsLite.Timer
