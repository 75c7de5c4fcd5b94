import NonOsLite.Libc.Div64
import NonOsLite.Lib.WideCounter

namespace NonOsLite.Timer
open WideCounter

inductive Platform where
  | a320
  | ahb
  | axi
deriving DecidableEq, Repr

def Platform.timerClock : Platform → Nat
  | a320 => 32768
  | ahb => 37748736
  | axi => 50000000

def Platform.configSysHz : Platform → Nat
  | a320 => 1000
  | ahb => 1000
  | axi => 1000000

structure Fttmr010 where
  tbu : Nat
  tbl : Nat

def timerLoadVal : Nat := 0xffffffff

-- The down counter t ticks after it was loaded.
def timerCounter (t : Nat) : Nat := timerLoadVal - t % 4294967296

def getTicks (s : Fttmr010) (counter : Nat) : Nat × Fttmr010 :=
  let now := sub32 timerLoadVal counter
  let s := { tbu := if now < s.tbl then u64 (s.tbu + 1) else s.tbu, tbl := now : Fttmr010 }
  (u64 (s.tbu <<< 32) ||| s.tbl, s)

def tickToTime (p : Platform) (tick : Nat) : Nat :=
  (doDiv (u64 (tick * p.configSysHz)) p.timerClock).1

def usecToTick (p : Platform) (usec : Nat) : Nat :=
  (doDiv (u64 (usec * p.timerClock)) 1000000).1

def getTimer (p : Platform) (s : Fttmr010) (counter base : Nat) : Nat × Fttmr010 :=
  let r := getTicks s counter
  (toU32 ((tickToTime p r.1 : Int) - base), r.2)

-- The poll of udelay at which the loop ends; ticks k is the result of the call k of get_ticks.
def udelayLoop (ticks : Nat → Nat) (tmo : Nat) : Nat → Nat → Option Nat
  | 0, _ => none
  | fuel + 1, k =>
      if u64 (ticks k + 18446744073709551616 - ticks 0) < tmo then udelayLoop ticks tmo fuel (k + 1)
      else some k

def udelay (p : Platform) (ticks : Nat → Nat) (usec fuel : Nat) : Option Nat :=
  udelayLoop ticks (u32 (usecToTick p usec)) fuel 1

variable {p : Platform} {s : Fttmr010} {t u : Nat}

def wide (s : Fttmr010) : State := ⟨s.tbu, s.tbl⟩

theorem sub32_timerCounter (t : Nat) : sub32 timerLoadVal (timerCounter t) = t % 4294967296 := by
  have hlt := Nat.mod_lt t (show 0 < 4294967296 by decide)
  rw [timerCounter, sub32_of_le (Nat.sub_le _ _), timerLoadVal]
  omega

theorem getTicks_spec (hlow : s.tbl < 4294967296) (hv : value 4294967296 (wide s) = t) (hle : t ≤ u)
    (hgap : u - t < 4294967296) (hu : u < 18446744073709551616) :
    (getTicks s (timerCounter u)).1 = u ∧
      wide (getTicks s (timerCounter u)).2 = sample (wide s) (u % 4294967296) := by
  have hvalue : (if u % 4294967296 < s.tbl then s.tbu + 1 else s.tbu) * 4294967296 +
      u % 4294967296 = u := value_sample (by decide) hlow hv hle hgap
  have hnow : u % 4294967296 < 2 ^ 32 := Nat.mod_lt u (by norm_num)
  have hhigh : (if u % 4294967296 < s.tbl then u64 (s.tbu + 1) else s.tbu) =
      if u % 4294967296 < s.tbl then s.tbu + 1 else s.tbu := by
    simp only [value, wide] at hv
    split
    · exact u64_of_lt (by omega)
    · rfl
  simp only [getTicks, sub32_timerCounter, hhigh]
  refine ⟨?_, rfl⟩
  generalize (if u % 4294967296 < s.tbl then s.tbu + 1 else s.tbu) = high at hvalue ⊢
  have hshift : high <<< 32 = high * 4294967296 := by rw [Nat.shiftLeft_eq]
  rw [hshift, u64_of_lt (by omega), ← hshift, ← Nat.shiftLeft_add_eq_or_of_lt hnow, hshift]
  exact hvalue

theorem tickToTime_eq (p : Platform) (tick : Nat) :
    tickToTime p tick = u64 (tick * p.configSysHz) / p.timerClock := by
  have hpositive : 0 < p.timerClock := by cases p <;> decide
  have hfits : p.timerClock < 4294967296 := by cases p <;> decide
  rw [tickToTime, doDiv_eq (u64_lt _) hpositive hfits]

theorem usecToTick_eq (p : Platform) {usec : Nat} (h : usec < 4294967296) :
    usecToTick p usec = usec * p.timerClock / 1000000 := by
  have hlt : usec * p.timerClock < 18446744073709551616 := by
    cases p <;> simp only [Platform.timerClock] <;> omega
  rw [usecToTick, u64_of_lt hlt, doDiv_eq hlt (by decide) (by decide)]

end NonOsLite.Timer
