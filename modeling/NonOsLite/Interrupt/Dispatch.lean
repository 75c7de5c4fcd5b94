import NonOsLite.Interrupt.TriggerType

namespace NonOsLite.Interrupt
open InputMachine LastWrite RegisterBits

variable {F : Type*}

structure IrqHandler (F : Type*) where
  mData : Nat
  mFunc : Option F

abbrev HandlerTable (F : Type*) := Vector (IrqHandler F) nrIrqs

structure Install (F : Type*) where
  irq : Nat
  handleIrq : Option F
  data : Nat

def irqInstallHandler (table : HandlerTable F) (c : Install F) : HandlerTable F :=
  if h : nrIrqs ≤ c.irq ∨ c.handleIrq.isNone then table
  else table.set c.irq ⟨c.data, c.handleIrq⟩ (by omega)

def interruptInit (defaultIsr : F) (table : HandlerTable F) : HandlerTable F :=
  run irqInstallHandler table ((List.range nrIrqs).map fun i => ⟨i, some defaultIsr, i⟩)

structure Called (F : Type*) where
  irq : Nat
  func : F
  data : Nat

-- The loop of do_irq; none when the fuel runs out, outside the table or at a null handler. What
-- the handlers called so far make the last of them install is up to react.
def irqLoop (react : List (Called F) → List (Install F)) :
    Nat → BitVec 32 → Nat → HandlerTable F → List (Called F) →
      Option (HandlerTable F × List (Called F))
  | 0, _, _, _, _ => none
  | fuel + 1, vintcIs, irq, table, calls =>
      if vintcIs = 0 then some (table, calls)
      else
        let tmp := 1#32 <<< irq
        if vintcIs &&& tmp ≠ 0 then
          match table[irq]? with
          | some ⟨data, some func⟩ =>
              let calls := calls ++ [⟨irq, func, data⟩]
              irqLoop react fuel (vintcIs &&& ~~~tmp) (irq + 1)
                (run irqInstallHandler table (react calls)) calls
          | _ => none
        else irqLoop react fuel (vintcIs &&& ~~~tmp) (irq + 1) table calls

def doIrq (react : List (Called F) → List (Install F)) (fuel : Nat) (table : HandlerTable F)
    (pending : BitVec 32) : Option (HandlerTable F × List (Called F)) :=
  irqLoop react fuel pending 0 table []

def accepted (irq : Nat) (c : Install F) : Option (F × Nat) :=
  if c.irq = irq then c.handleIrq.map (·, c.data) else none

def installed (defaultIsr : F) (history : List (Install F)) (irq : Nat) : F × Nat :=
  (last (accepted irq) history).getD (defaultIsr, irq)

def CallsInstalled (defaultIsr : F) (react : List (Called F) → List (Install F)) :
    List (Install F) → List (Called F) → List (Called F) → Prop
  | _, _, [] => True
  | history, before, c :: calls =>
      (c.func, c.data) = installed defaultIsr history c.irq ∧
        CallsInstalled defaultIsr react (history ++ react (before ++ [c])) (before ++ [c]) calls

def Holds (defaultIsr : F) (history : List (Install F)) (table : HandlerTable F) : Prop :=
  ∀ irq, ∀ h : irq < nrIrqs,
    table[irq] = ⟨(installed defaultIsr history irq).2, some (installed defaultIsr history irq).1⟩

variable {defaultIsr : F} {history : List (Install F)} {table : HandlerTable F}
  {pending : BitVec 32} {irq : Nat}

theorem irqInstallHandler_get (table : HandlerTable F) (c : Install F) (h : irq < nrIrqs) :
    (irqInstallHandler table c)[irq] =
      ((accepted irq c).map fun fd => ⟨fd.2, some fd.1⟩).getD table[irq] := by
  obtain ⟨i, handleIrq, data⟩ := c
  cases handleIrq with
  | none =>
    have hreject : irqInstallHandler table ⟨i, none, data⟩ = table := dif_pos (.inr rfl)
    have hnone : accepted irq (⟨i, none, data⟩ : Install F) = none := ite_self none
    rw [hreject, hnone]
    rfl
  | some f =>
    by_cases hi : i < nrIrqs
    · have hset : irqInstallHandler table ⟨i, some f, data⟩ = table.set i ⟨data, some f⟩ hi :=
        dif_neg (by simpa using hi)
      rw [hset, Vector.getElem_set, accepted]
      by_cases hirq : i = irq
      · rw [if_pos hirq, if_pos hirq]
        rfl
      · rw [if_neg hirq, if_neg hirq]
        rfl
    · have hreject : irqInstallHandler table ⟨i, some f, data⟩ = table :=
        dif_pos (.inl (Nat.le_of_not_lt hi))
      rw [hreject, accepted, if_neg (show ¬i = irq by omega)]
      rfl

theorem Holds.install (h : Holds defaultIsr history table) (c : Install F) :
    Holds defaultIsr (history ++ [c]) (irqInstallHandler table c) := by
  intro irq hirq
  rw [irqInstallHandler_get table c hirq, h irq hirq, installed, installed, last_concat]
  cases accepted irq c with
  | none => rfl
  | some fd => rfl

theorem Holds.installs (h : Holds defaultIsr history table) (cs : List (Install F)) :
    Holds defaultIsr (history ++ cs) (run irqInstallHandler table cs) := by
  induction cs generalizing history table with
  | nil => rwa [List.append_nil]
  | cons c cs ih =>
    have hrest := ih (h.install c)
    rwa [List.append_assoc] at hrest

theorem defaults_get (table : HandlerTable F) (n : Nat) (h : irq < nrIrqs) (hn : irq < n) :
    (run irqInstallHandler table ((List.range n).map fun i => ⟨i, some defaultIsr, i⟩))[irq] =
      ⟨irq, some defaultIsr⟩ := by
  induction n with
  | zero => omega
  | succ n ih =>
    rw [List.range_succ, List.map_append, run_append, List.map_singleton, run_cons, run_nil,
      irqInstallHandler_get _ _ h, accepted]
    by_cases hlast : n = irq
    · rw [if_pos hlast, hlast]
      rfl
    · rw [if_neg hlast]
      exact ih (by omega)

theorem interruptInit_holds (defaultIsr : F) (table : HandlerTable F) :
    Holds defaultIsr [] (interruptInit defaultIsr table) :=
  fun _ h => defaults_get table nrIrqs h h

theorem irqLoop_done (react : List (Called F) → List (Install F)) {fuel : Nat} (hfuel : 0 < fuel)
    (hzero : pending = 0) (irq : Nat) (table : HandlerTable F) (before : List (Called F)) :
    irqLoop react fuel pending irq table before = some (table, before) := by
  obtain ⟨fuel, rfl⟩ := Nat.exists_eq_succ_of_ne_zero hfuel.ne'
  rw [irqLoop, if_pos hzero]

theorem irqLoop_call (react : List (Called F) → List (Install F)) (fuel : Nat)
    (hirq : irq < nrIrqs) (hset : pending.getLsbD irq = true)
    (hholds : Holds defaultIsr history table) (before : List (Called F)) {c : Called F}
    (hc : c = ⟨irq, (installed defaultIsr history irq).1, (installed defaultIsr history irq).2⟩) :
    irqLoop react (fuel + 1) pending irq table before =
      irqLoop react fuel (pending &&& ~~~(1#32 <<< irq)) (irq + 1)
        (run irqInstallHandler table (react (before ++ [c]))) (before ++ [c]) := by
  have hzero : ¬pending = 0 := by
    rintro rfl
    rw [show (0 : BitVec 32) = 0#32 from rfl, BitVec.getLsbD_zero] at hset
    cases hset
  have hentry : table[irq]? = some ⟨c.data, some c.func⟩ := by
    rw [Vector.getElem?_eq_getElem hirq, hholds irq hirq, hc]
  rw [irqLoop, if_neg hzero]
  dsimp only
  have h32 : irq < 32 := hirq
  rw [if_pos ((and_bit_ne_zero h32).mpr hset), hentry, hc]

theorem irqLoop_skip (react : List (Called F) → List (Install F)) (fuel : Nat)
    (hirq : irq < nrIrqs) (hzero : ¬pending = 0) (hclear : ¬pending.getLsbD irq = true)
    (table : HandlerTable F) (before : List (Called F)) :
    irqLoop react (fuel + 1) pending irq table before =
      irqLoop react fuel (pending &&& ~~~(1#32 <<< irq)) (irq + 1) table before := by
  rw [irqLoop, if_neg hzero]
  dsimp only
  have h32 : irq < 32 := hirq
  rw [if_neg (by rwa [and_bit_ne_zero h32])]

theorem pending_eq_zero (hbelow : ∀ i < nrIrqs, pending.getLsbD i = false) : pending = 0 := by
  refine BitVec.eq_of_getLsbD_eq fun i hi => ?_
  rw [hbelow i hi]
  simp

theorem clear_below (hirq : irq < nrIrqs) (hbelow : ∀ i < irq, pending.getLsbD i = false) :
    ∀ i < irq + 1, (pending &&& ~~~(1#32 <<< irq)).getLsbD i = false := by
  intro i hi
  have h32 : i < 32 := show i < nrIrqs by omega
  rw [getLsbD_clear h32]
  rcases Nat.lt_succ_iff_lt_or_eq.mp hi with hlt | rfl
  · rw [hbelow i hlt, Bool.false_and]
  · rw [beq_self_eq_true, Bool.not_true, Bool.and_false]

theorem clear_filter {n : Nat} (hn : irq + (n + 1) = nrIrqs) :
    (List.range' (irq + 1) n).filter (pending &&& ~~~(1#32 <<< irq)).getLsbD =
      (List.range' (irq + 1) n).filter pending.getLsbD := by
  refine List.filter_congr fun i hi => ?_
  have hrange := List.mem_range'_1.mp hi
  have hne : (irq == i) = false := beq_eq_false_iff_ne.mpr (by omega)
  have h32 : i < 32 := show i < nrIrqs by omega
  rw [getLsbD_clear h32, hne, Bool.not_false, Bool.and_true]

theorem irqLoop_dispatches (react : List (Called F) → List (Install F)) (n : Nat)
    (hn : irq + n = nrIrqs) (hbelow : ∀ i < irq, pending.getLsbD i = false)
    (hholds : Holds defaultIsr history table) (before : List (Called F)) :
    ∃ table' calls,
      (∀ fuel, n < fuel →
        irqLoop react fuel pending irq table before = some (table', before ++ calls)) ∧
      calls.map (·.irq) = (List.range' irq n).filter pending.getLsbD ∧
      CallsInstalled defaultIsr react history before calls := by
  induction n generalizing irq pending history table before with
  | zero =>
    have hzero : pending = 0 := pending_eq_zero fun i hi => hbelow i (by omega)
    refine ⟨table, [], ?_, rfl, trivial⟩
    intro fuel hfuel
    rw [irqLoop_done react hfuel hzero, List.append_nil]
  | succ n ih =>
    have hirq : irq < nrIrqs := by omega
    have hbelow' := clear_below hirq hbelow
    rw [List.range'_succ]
    by_cases hset : pending.getLsbD irq = true
    · -- The handler is called, and may install others before the next bit is looked at.
      obtain ⟨c, hc⟩ : ∃ c : Called F, c = ⟨irq, (installed defaultIsr history irq).1,
        (installed defaultIsr history irq).2⟩ := ⟨_, rfl⟩
      obtain ⟨table', calls, hrun, hirqs, hcalls⟩ := ih (by omega) hbelow'
        (hholds.installs (react (before ++ [c]))) (before ++ [c])
      refine ⟨table', c :: calls, ?_, ?_, ⟨by rw [hc], hcalls⟩⟩
      · intro fuel hfuel
        obtain ⟨fuel, rfl⟩ := Nat.exists_eq_succ_of_ne_zero (Nat.ne_zero_of_lt hfuel)
        have hrest := hrun fuel (Nat.lt_of_succ_lt_succ hfuel)
        rw [irqLoop_call react fuel hirq hset hholds before hc, hrest, List.append_assoc]
        rfl
      · rw [List.map_cons, hirqs, clear_filter hn, List.filter_cons_of_pos hset, hc]
    · by_cases hzero : pending = 0
      · refine ⟨table, [], ?_, ?_, trivial⟩
        · intro fuel hfuel
          rw [irqLoop_done react (Nat.zero_lt_of_lt hfuel) hzero, List.append_nil]
        · rw [hzero]
          exact (List.filter_eq_nil_iff.mpr fun i _ => by simp).symm
      · obtain ⟨table', calls, hrun, hirqs, hcalls⟩ := ih (by omega) hbelow' hholds before
        refine ⟨table', calls, ?_, ?_, hcalls⟩
        · intro fuel hfuel
          obtain ⟨fuel, rfl⟩ := Nat.exists_eq_succ_of_ne_zero (Nat.ne_zero_of_lt hfuel)
          rw [irqLoop_skip react fuel hirq hzero hset, hrun fuel (Nat.lt_of_succ_lt_succ hfuel)]
        · rw [hirqs, clear_filter hn, List.filter_cons_of_neg hset]

theorem do_irq_dispatches (defaultIsr : F) (table : HandlerTable F) (installs : List (Install F))
    (react : List (Called F) → List (Install F)) (pending : BitVec 32) :
    ∃ table' calls,
      (∀ fuel, 32 < fuel →
        doIrq react fuel (run irqInstallHandler (interruptInit defaultIsr table) installs) pending =
          some (table', calls)) ∧
      calls.map (·.irq) = (List.range 32).filter pending.getLsbD ∧
      CallsInstalled defaultIsr react installs [] calls := by
  have hholds := (interruptInit_holds defaultIsr table).installs installs
  rw [List.range_eq_range']
  exact irqLoop_dispatches react 32 (Nat.zero_add 32) (fun i hi => absurd hi (Nat.not_lt_zero i))
    hholds []

end NonOsLite.Interrupt
