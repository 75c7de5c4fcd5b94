import NonOsLite.Lib.Machine
import NonOsLite.Lib.Words
import NonOsLite.Libc.CInt

namespace NonOsLite
open ByteBuf InputMachine

def morecoreFailure : Nat := 4294967295

-- Where the linker puts the three variables.
structure HeapVars where
  memMallocStart : Nat
  memMallocEnd : Nat
  memMallocBrk : Nat

def HeapVars.words (v : HeapVars) : List Nat := [v.memMallocStart, v.memMallocEnd, v.memMallocBrk]

-- The addresses run on from 0 behind the last one.
def memset (s : Buf) (dst : Nat) (c : UInt8) (n : Nat) : Buf :=
  fun a => if a < 4294967296 ∧ sub32 a dst < n then c else s a

-- The range check reads the variables behind memset.
def sbrk (v : HeapVars) (mem : Buf) (increment : Int32) : Nat × Buf :=
  let old := le32 mem v.memMallocBrk
  let new := toU32 (old + increment.toInt)
  let mem := if increment.toInt < 0 then memset mem new 0 (toU32 (-increment.toInt)) else mem
  if new < le32 mem v.memMallocStart ∨ le32 mem v.memMallocEnd < new then (morecoreFailure, mem)
  else (old, putLe32 mem v.memMallocBrk new)

def memMallocInit (v : HeapVars) (heap stackEnd : Nat) (mem : Buf) : Buf :=
  let mem := putLe32 mem v.memMallocStart heap
  let mem := putLe32 mem v.memMallocEnd stackEnd
  putLe32 mem v.memMallocBrk (le32 mem v.memMallocStart)

structure HeapVars.Placed (v : HeapVars) (heap stackEnd : Nat) : Prop where
  separate : v.words.Pairwise fun a b => a + 4 ≤ b ∨ b + 4 ≤ a
  outside : ∀ a ∈ v.words, a + 4 ≤ heap ∨ stackEnd ≤ a

-- Between the calls the program writes what it likes, but not to the variables.
inductive HeapEvent (v : HeapVars) where
  | sbrk (increment : Int32)
  | write (addr : Nat) (bs : List UInt8) (apart : ∀ a ∈ v.words, addr + bs.length ≤ a ∨ a + 4 ≤ addr)

variable {v : HeapVars}

def heapStep (mem : Buf) : HeapEvent v → Buf
  | .sbrk increment => (sbrk v mem increment).2
  | .write addr bs _ => store mem addr bs

structure InRange (v : HeapVars) (heap stackEnd : Nat) (mem : Buf) : Prop where
  start : le32 mem v.memMallocStart = heap
  stop : le32 mem v.memMallocEnd = stackEnd
  lower : heap ≤ le32 mem v.memMallocBrk
  upper : le32 mem v.memMallocBrk ≤ stackEnd

structure Moves (v : HeapVars) (mem mem' : Buf) (increment : Int) (ret : Nat) : Prop where
  ret : ret = le32 mem v.memMallocBrk
  brk : (le32 mem' v.memMallocBrk : Int) = le32 mem v.memMallocBrk + increment
  cleared : ∀ a, a < v.memMallocBrk ∨ v.memMallocBrk + 4 ≤ a → mem' a =
    if le32 mem' v.memMallocBrk ≤ a ∧ a < le32 mem v.memMallocBrk then 0 else mem a

structure Refuses (mem mem' : Buf) (ret : Nat) : Prop where
  ret : ret = morecoreFailure
  mem : mem' = mem

def SbrkRight (mem : Buf) : HeapEvent v → Prop
  | .sbrk increment =>
      Moves v mem (sbrk v mem increment).2 increment.toInt (sbrk v mem increment).1 ∨
        Refuses mem (sbrk v mem increment).2 (sbrk v mem increment).1
  | .write _ _ _ => True

structure SbrkRuns (heap stackEnd : Nat) (mem : Buf) (events : List (HeapEvent v)) : Prop where
  inRange : ∀ done, done <+: events → InRange v heap stackEnd (run heapStep mem done)
  right : Meets heapStep SbrkRight mem events

def newBrk (v : HeapVars) (mem : Buf) (increment : Int32) : Nat :=
  toU32 (le32 mem v.memMallocBrk + increment.toInt)

def Accepts (v : HeapVars) (mem : Buf) (increment : Int32) : Prop :=
  le32 mem v.memMallocStart ≤ newBrk v mem increment ∧
    newBrk v mem increment ≤ le32 mem v.memMallocEnd

instance (mem : Buf) (increment : Int32) : Decidable (Accepts v mem increment) :=
  inferInstanceAs (Decidable (_ ∧ _))

-- A call that is accepted does not wrap; one that is refused finds zero what it clears.
def SbrkFits (mem : Buf) : HeapEvent v → Prop
  | .sbrk increment =>
      if Accepts v mem increment then
        0 ≤ le32 mem v.memMallocBrk + increment.toInt ∧
          le32 mem v.memMallocBrk + increment.toInt < 4294967296
      else
        increment.toInt < 0 → ∀ a < 4294967296,
          sub32 a (newBrk v mem increment) < toU32 (-increment.toInt) → mem a = 0
  | .write _ _ _ => True

variable {heap stackEnd : Nat} {mem : Buf} {increment : Int32}

def clearedMem (v : HeapVars) (mem : Buf) (increment : Int32) : Buf :=
  if increment.toInt < 0 then memset mem (newBrk v mem increment) 0 (toU32 (-increment.toInt))
  else mem

theorem sbrk_eq (v : HeapVars) (mem : Buf) (increment : Int32) : sbrk v mem increment =
    if le32 (clearedMem v mem increment) v.memMallocStart ≤ newBrk v mem increment ∧
        newBrk v mem increment ≤ le32 (clearedMem v mem increment) v.memMallocEnd then
      (le32 mem v.memMallocBrk,
        putLe32 (clearedMem v mem increment) v.memMallocBrk (newBrk v mem increment))
    else (morecoreFailure, clearedMem v mem increment) := by
  rw [sbrk, clearedMem, newBrk]
  split_ifs <;> first | rfl | omega

structure BoundsKept (v : HeapVars) (mem mem' : Buf) : Prop where
  start : le32 mem' v.memMallocStart = le32 mem v.memMallocStart
  stop : le32 mem' v.memMallocEnd = le32 mem v.memMallocEnd

theorem sbrk_accepts (hkept : BoundsKept v mem (clearedMem v mem increment))
    (h : Accepts v mem increment) : sbrk v mem increment = (le32 mem v.memMallocBrk,
      putLe32 (clearedMem v mem increment) v.memMallocBrk (newBrk v mem increment)) := by
  rw [sbrk_eq, hkept.start, hkept.stop]
  exact if_pos h

theorem sbrk_refuses (hkept : BoundsKept v mem (clearedMem v mem increment))
    (h : ¬Accepts v mem increment) :
    sbrk v mem increment = (morecoreFailure, clearedMem v mem increment) := by
  rw [sbrk_eq, hkept.start, hkept.stop]
  exact if_neg h

theorem memset_zero_iff {b : Buf} {dst n : Nat} :
    memset b dst 0 n = b ↔ ∀ a < 4294967296, sub32 a dst < n → b a = 0 := by
  rw [funext_iff]
  refine forall_congr' ?_
  intro a
  rw [memset]
  split_ifs with h
  · constructor
    · intro heq _ _
      exact heq.symm
    · intro hzero
      exact (hzero h.1 h.2).symm
  · exact iff_of_true rfl fun ha hn => absurd ⟨ha, hn⟩ h

theorem clearedMem_eq_iff : clearedMem v mem increment = mem ↔
    (increment.toInt < 0 → ∀ a < 4294967296,
      sub32 a (newBrk v mem increment) < toU32 (-increment.toInt) → mem a = 0) := by
  rw [clearedMem]
  split_ifs with hneg
  · rw [memset_zero_iff]
    exact (imp_iff_right hneg).symm
  · exact iff_of_true rfl fun h => absurd h hneg

theorem newBrk_lt (v : HeapVars) (mem : Buf) (increment : Int32) :
    newBrk v mem increment < 4294967296 := by
  rw [newBrk, toU32]
  omega

theorem newBrk_exact_iff :
    (newBrk v mem increment : Int) = le32 mem v.memMallocBrk + increment.toInt ↔
      0 ≤ le32 mem v.memMallocBrk + increment.toInt ∧
        le32 mem v.memMallocBrk + increment.toInt < 4294967296 := by
  simp only [newBrk, toU32]
  omega

theorem clearedMem_apply
    (hnew : (newBrk v mem increment : Int) = le32 mem v.memMallocBrk + increment.toInt) (a : Nat) :
    clearedMem v mem increment a =
      if newBrk v mem increment ≤ a ∧ a < le32 mem v.memMallocBrk then 0 else mem a := by
  have hlo := increment.le_toInt
  have hs := le32_lt mem v.memMallocBrk
  rw [clearedMem]
  by_cases hneg : increment.toInt < 0
  · have hlen : toU32 (-increment.toInt) = le32 mem v.memMallocBrk - newBrk v mem increment := by
      simp only [toU32]
      omega
    have hiff : a < 4294967296 ∧ sub32 a (newBrk v mem increment) < toU32 (-increment.toInt) ↔
        newBrk v mem increment ≤ a ∧ a < le32 mem v.memMallocBrk := by
      rw [hlen, sub32]
      split_ifs with hle
      · omega
      · omega
    rw [if_pos hneg, memset]
    simp only [hiff]
  · rw [if_neg hneg, if_neg (by omega)]

theorem HeapVars.Placed.apart (h : v.Placed heap stackEnd) :
    (v.memMallocStart + 4 ≤ v.memMallocEnd ∨ v.memMallocEnd + 4 ≤ v.memMallocStart) ∧
      (v.memMallocBrk + 4 ≤ v.memMallocStart ∨ v.memMallocStart + 4 ≤ v.memMallocBrk) ∧
      (v.memMallocBrk + 4 ≤ v.memMallocEnd ∨ v.memMallocEnd + 4 ≤ v.memMallocBrk) := by
  have hpairs := h.separate
  simp only [HeapVars.words, List.pairwise_cons, List.mem_cons, List.not_mem_nil, or_false,
    forall_eq_or_imp, forall_eq] at hpairs
  exact ⟨hpairs.1.1, hpairs.1.2.symm, hpairs.2.1.symm⟩

theorem HeapVars.Placed.putBrk (h : v.Placed heap stackEnd) (mem : Buf) (x : Nat) :
    BoundsKept v mem (putLe32 mem v.memMallocBrk x) :=
  ⟨le32_putLe32_apart h.apart.2.1, le32_putLe32_apart h.apart.2.2⟩

theorem memMallocInit_brk (hplaced : v.Placed heap stackEnd) (hheap : heap < 4294967296)
    (mem : Buf) : le32 (memMallocInit v heap stackEnd mem) v.memMallocBrk = heap := by
  rw [memMallocInit, le32_putLe32 (le32_lt _ _), le32_putLe32_apart hplaced.apart.1.symm,
    le32_putLe32 hheap]

theorem InRange.init (hplaced : v.Placed heap stackEnd) (horder : heap ≤ stackEnd)
    (htop : stackEnd < 4294967296) (mem : Buf) :
    InRange v heap stackEnd (memMallocInit v heap stackEnd mem) := by
  have hheap : heap < 4294967296 := by omega
  have hbrk := memMallocInit_brk hplaced hheap mem
  have hkept := hplaced.putBrk (putLe32 (putLe32 mem v.memMallocStart heap) v.memMallocEnd stackEnd)
    (le32 (putLe32 (putLe32 mem v.memMallocStart heap) v.memMallocEnd stackEnd) v.memMallocStart)
  refine ⟨hkept.start.trans ?_, hkept.stop.trans (le32_putLe32 htop), hbrk.ge, hbrk.le.trans horder⟩
  rw [le32_putLe32_apart hplaced.apart.1.symm, le32_putLe32 hheap]

theorem InRange.clears (h : InRange v heap stackEnd mem) (hplaced : v.Placed heap stackEnd)
    (haccepts : Accepts v mem increment)
    (hnew : (newBrk v mem increment : Int) = le32 mem v.memMallocBrk + increment.toInt) :
    BoundsKept v mem (clearedMem v mem increment) := by
  have hlower := haccepts.1
  have hupper := h.upper
  rw [h.start] at hlower
  have hword (a : Nat) (ha : a ∈ v.words) : le32 (clearedMem v mem increment) a = le32 mem a := by
    refine le32_congr fun i hi => ?_
    have hout := hplaced.outside a ha
    rw [clearedMem_apply hnew, if_neg (by omega)]
  exact ⟨hword _ (by simp [HeapVars.words]), hword _ (by simp [HeapVars.words])⟩

theorem InRange.boundsKept (h : InRange v heap stackEnd mem) (hplaced : v.Placed heap stackEnd)
    (hin : InRange v heap stackEnd (sbrk v mem increment).2) :
    BoundsKept v mem (clearedMem v mem increment) := by
  rw [sbrk_eq] at hin
  split_ifs at hin
  · have hput := hplaced.putBrk (clearedMem v mem increment) (newBrk v mem increment)
    exact ⟨hput.start.symm.trans (hin.start.trans h.start.symm),
      hput.stop.symm.trans (hin.stop.trans h.stop.symm)⟩
  · exact ⟨hin.start.trans h.start.symm, hin.stop.trans h.stop.symm⟩

theorem fits_of_right (h : InRange v heap stackEnd mem) (hplaced : v.Placed heap stackEnd)
    (hright : SbrkRight mem (.sbrk increment : HeapEvent v))
    (hin : InRange v heap stackEnd (sbrk v mem increment).2) :
    SbrkFits mem (.sbrk increment : HeapEvent v) := by
  have hkept := h.boundsKept hplaced hin
  have hlo := increment.le_toInt
  have hhi := increment.toInt_lt
  have hbrk := le32_lt mem v.memMallocBrk
  have hput : le32 (putLe32 (clearedMem v mem increment) v.memMallocBrk (newBrk v mem increment))
      v.memMallocBrk = newBrk v mem increment := le32_putLe32 (newBrk_lt v mem increment)
  rw [SbrkRight] at hright
  rw [SbrkFits]
  split_ifs with haccepts
  · rw [sbrk_accepts hkept haccepts] at hright
    rw [← newBrk_exact_iff]
    rcases hright with hmoves | hrefuses
    · exact hput ▸ hmoves.brk
    · have hstay : newBrk v mem increment = le32 mem v.memMallocBrk :=
        hput.symm.trans (congrArg (fun m => le32 m v.memMallocBrk) hrefuses.mem)
      have hzero : increment.toInt = 0 := by
        rw [newBrk, toU32] at hstay
        omega
      rw [hstay, hzero, add_zero]
  · rcases hright with hmoves | hrefuses
    · have hlower := hin.lower
      have hupper := hin.upper
      have hmoved := hmoves.brk
      have hlt := le32_lt (sbrk v mem increment).2 v.memMallocBrk
      have hnew : newBrk v mem increment = le32 (sbrk v mem increment).2 v.memMallocBrk := by
        rw [newBrk, ← hmoved, toU32]
        omega
      rw [Accepts, hnew, h.start, h.stop] at haccepts
      exact absurd ⟨hlower, hupper⟩ haccepts
    · rw [sbrk_refuses hkept haccepts] at hrefuses
      exact clearedMem_eq_iff.mp hrefuses.mem

theorem right_of_accepts (h : InRange v heap stackEnd mem) (hplaced : v.Placed heap stackEnd)
    (haccepts : Accepts v mem increment)
    (hnew : (newBrk v mem increment : Int) = le32 mem v.memMallocBrk + increment.toInt) :
    SbrkRight mem (.sbrk increment : HeapEvent v) ∧
      InRange v heap stackEnd (sbrk v mem increment).2 := by
  have hkept := h.clears hplaced haccepts hnew
  have hbounds := hplaced.putBrk (clearedMem v mem increment) (newBrk v mem increment)
  have hput : le32 (putLe32 (clearedMem v mem increment) v.memMallocBrk (newBrk v mem increment))
      v.memMallocBrk = newBrk v mem increment := le32_putLe32 (newBrk_lt v mem increment)
  rw [SbrkRight, sbrk_accepts hkept haccepts]
  constructor
  · refine Or.inl ⟨rfl, (congrArg (Nat.cast : Nat → Int) hput).trans hnew, fun a ha => ?_⟩
    rw [hput, ← clearedMem_apply hnew]
    exact putLe32_of_apart ha
  · refine ⟨hbounds.start.trans (hkept.start.trans h.start),
      hbounds.stop.trans (hkept.stop.trans h.stop), ?_, ?_⟩
    · rw [hput, ← h.start]
      exact haccepts.1
    · rw [hput, ← h.stop]
      exact haccepts.2

theorem right_of_refuses (h : InRange v heap stackEnd mem) (haccepts : ¬Accepts v mem increment)
    (hzero : clearedMem v mem increment = mem) :
    SbrkRight mem (.sbrk increment : HeapEvent v) ∧
      InRange v heap stackEnd (sbrk v mem increment).2 := by
  have hkept : BoundsKept v mem (clearedMem v mem increment) := by
    rw [hzero]
    exact ⟨rfl, rfl⟩
  rw [SbrkRight, sbrk_refuses hkept haccepts, hzero]
  exact ⟨Or.inr ⟨rfl, rfl⟩, h⟩

theorem InRange.store (h : InRange v heap stackEnd mem) {addr : Nat} {bs : List UInt8}
    (apart : ∀ a ∈ v.words, addr + bs.length ≤ a ∨ a + 4 ≤ addr) :
    InRange v heap stackEnd (store mem addr bs) := by
  have hword (a : Nat) (ha : a ∈ v.words) : le32 (ByteBuf.store mem addr bs) a = le32 mem a :=
    le32_store_apart (apart a ha)
  have hbrk := hword v.memMallocBrk (by simp [HeapVars.words])
  exact ⟨(hword _ (by simp [HeapVars.words])).trans h.start,
    (hword _ (by simp [HeapVars.words])).trans h.stop, hbrk ▸ h.lower, hbrk ▸ h.upper⟩

theorem sbrkRight_iff (hplaced : v.Placed heap stackEnd) (e : HeapEvent v)
    (h : InRange v heap stackEnd mem) :
    SbrkRight mem e ∧ InRange v heap stackEnd (heapStep mem e) ↔ SbrkFits mem e := by
  cases e with
  | write addr bs apart => exact iff_of_true ⟨trivial, h.store apart⟩ trivial
  | sbrk increment =>
    constructor
    · rintro ⟨hright, hin⟩
      exact fits_of_right h hplaced hright hin
    · intro hfits
      rw [SbrkFits] at hfits
      split_ifs at hfits with haccepts
      · exact right_of_accepts h hplaced haccepts (newBrk_exact_iff.mpr hfits)
      · exact right_of_refuses h haccepts (clearedMem_eq_iff.mpr hfits)

theorem sbrk_runs_right_iff (hplaced : v.Placed heap stackEnd) (horder : heap ≤ stackEnd)
    (htop : stackEnd < 4294967296) (mem : Buf) (events : List (HeapEvent v)) :
    SbrkRuns heap stackEnd (memMallocInit v heap stackEnd mem) events ↔
      Meets heapStep SbrkFits (memMallocInit v heap stackEnd mem) events := by
  have hruns := prefixes_and_meets_iff (InRange v heap stackEnd)
    (fun _ e h => sbrkRight_iff hplaced e h) (InRange.init hplaced horder htop mem) events
  exact ⟨fun h => hruns.mp ⟨h.inRange, h.right⟩, fun h => ⟨(hruns.mpr h).1, (hruns.mpr h).2⟩⟩

def sampleVars : HeapVars := ⟨4000, 4004, 4008⟩

theorem sampleVars_placed : sampleVars.Placed 4096 8192 := ⟨by decide, by decide⟩

def sampleCalls : List (HeapEvent sampleVars) :=
  [.sbrk 16, .write 4096 [1, 2] (by decide), .sbrk (-8), .sbrk 8192]

theorem sbrk_runs_right_iff_small :
    SbrkRuns 4096 8192 (memMallocInit sampleVars 4096 8192 fun _ => 7) sampleCalls ∧
      ¬SbrkRuns 4096 8192 (memMallocInit sampleVars 4096 8192 fun _ => 7)
        ([.sbrk (-8)] : List (HeapEvent sampleVars)) := by
  have hiff := sbrk_runs_right_iff sampleVars_placed (by decide) (by decide) (fun _ => 7)
  refine ⟨(hiff _).mpr ⟨?_, trivial, ?_, ?_, trivial⟩, fun h => ?_⟩
  · rw [SbrkFits, if_pos (by decide +kernel)]
    decide +kernel
  · rw [SbrkFits, if_pos (by decide +kernel)]
    decide +kernel
  · rw [SbrkFits, if_neg (by decide +kernel)]
    exact fun hneg => absurd hneg (by decide)
  · have hfits := ((hiff _).mp h).1
    rw [SbrkFits, if_neg (by decide +kernel)] at hfits
    have hzero := hfits (by decide) 4090 (by norm_num) (by decide +kernel)
    exact absurd hzero (by decide +kernel)

-- The refused request has cleared eight bytes below the heap.
theorem sbrk_refused_clears :
    ¬∀ (v : HeapVars) (heap stackEnd : Nat) (mem : Buf) (events : List (HeapEvent v)),
      v.Placed heap stackEnd → heap ≤ stackEnd → stackEnd < 4294967296 →
        SbrkRuns heap stackEnd (memMallocInit v heap stackEnd mem) events := by
  intro hall
  have hright := (hall sampleVars 4096 8192 (fun _ => 1) [.sbrk (-8)] sampleVars_placed (by decide)
    (by decide)).right.1
  have hret : (sbrk sampleVars (memMallocInit sampleVars 4096 8192 fun _ => 1) (-8)).1 =
      4294967295 := by decide +kernel
  have hmem : (sbrk sampleVars (memMallocInit sampleVars 4096 8192 fun _ => 1) (-8)).2 4090 = 0 := by
    decide +kernel
  have hold : memMallocInit sampleVars 4096 8192 (fun _ => 1) 4090 = 1 := by decide +kernel
  have hbrk : le32 (memMallocInit sampleVars 4096 8192 fun _ => 1) sampleVars.memMallocBrk =
      4096 := by decide +kernel
  rcases hright with hmoves | hrefuses
  · rw [hmoves.ret, hbrk] at hret
    exact absurd hret (by decide)
  · rw [hrefuses.mem, hold] at hmem
    exact absurd hmem (by decide)

end NonOsLite
