import NonOsLite.Libc.Sbrk

namespace NonOsLite
open ByteBuf

-- The heap as the allocator sees it: the three variables apart from the memory they lie in.
structure Heap where
  memMallocStart : Nat
  memMallocEnd : Nat
  memMallocBrk : Nat
  mem : Buf

structure Heap.InRange (s : Heap) : Prop where
  lower : s.memMallocStart ≤ s.memMallocBrk
  upper : s.memMallocBrk ≤ s.memMallocEnd

-- MORECORE is sbrk.
def morecore (s : Heap) (increment : Int32) : Nat × Heap :=
  let old := s.memMallocBrk
  let new := toU32 (old + increment.toInt)
  let mem := if increment.toInt < 0 then memset s.mem new 0 (toU32 (-increment.toInt)) else s.mem
  if new < s.memMallocStart ∨ s.memMallocEnd < new then (morecoreFailure, { s with mem := mem })
  else (old, { s with memMallocBrk := new, mem := mem })

namespace Heap

-- Behind mem_malloc_init.
def init (heap stackEnd : Nat) (mem : Buf) : Heap := ⟨heap, stackEnd, heap, mem⟩

def newBrk (s : Heap) (increment : Int32) : Nat := toU32 (s.memMallocBrk + increment.toInt)

def Accepts (s : Heap) (increment : Int32) : Prop :=
  s.memMallocStart ≤ s.newBrk increment ∧ s.newBrk increment ≤ s.memMallocEnd

def clearedMem (s : Heap) (increment : Int32) : Buf :=
  if increment.toInt < 0 then memset s.mem (s.newBrk increment) 0 (toU32 (-increment.toInt))
  else s.mem

structure Shown (v : HeapVars) (s : Heap) (mem : Buf) : Prop where
  start : le32 mem v.memMallocStart = s.memMallocStart
  stop : le32 mem v.memMallocEnd = s.memMallocEnd
  brk : le32 mem v.memMallocBrk = s.memMallocBrk
  rest : ∀ a, (∀ w ∈ v.words, a < w ∨ w + 4 ≤ a) → mem a = s.mem a

inductive Calls (s : Heap) : Int32 → Prop where
  | more {n : Nat} (hn : n < 2147483648) : Calls s (Int32.ofNat n)
  | giveBack {n : Nat} (hn : n < 2147483648) (hlo : s.memMallocStart + n ≤ s.memMallocBrk) :
      Calls s (Int32.ofInt (-(n : Int)))

end Heap

variable {s : Heap} {v : HeapVars} {mem : Buf} {increment : Int32} {n : Nat}

theorem morecore_accepts (h : s.Accepts increment) :
    morecore s increment = (s.memMallocBrk,
      { s with memMallocBrk := s.newBrk increment, mem := s.clearedMem increment }) := by
  rw [morecore, Heap.clearedMem, Heap.newBrk]
  obtain ⟨hlo, hhi⟩ := h
  rw [Heap.newBrk] at hlo hhi
  rw [if_neg (by omega)]

theorem morecore_refuses (h : ¬s.Accepts increment) :
    morecore s increment = (morecoreFailure, { s with mem := s.clearedMem increment }) := by
  rw [morecore, Heap.clearedMem, Heap.newBrk]
  rw [Heap.Accepts, Heap.newBrk] at h
  rw [if_pos (by omega)]

theorem toInt_more (hn : n < 2147483648) : (Int32.ofNat n).toInt = n := Int32.toInt_ofNat_of_lt hn

theorem toInt_giveBack (hn : n < 2147483648) : (Int32.ofInt (-(n : Int))).toInt = -n := by
  rw [Int32.toInt_ofInt]
  unfold Int32.size
  exact Int.bmod_eq_of_le (by omega) (by omega)

theorem Heap.Calls.within (h : s.Calls increment) :
    0 ≤ increment.toInt ∨ (s.memMallocStart : Int) ≤ s.memMallocBrk + increment.toInt := by
  cases h with
  | more hn =>
    rw [toInt_more hn]
    omega
  | giveBack hn hlo =>
    rw [toInt_giveBack hn]
    omega

theorem Heap.Shown.init {heap stackEnd : Nat} (hplaced : v.Placed heap stackEnd)
    (horder : heap ≤ stackEnd) (htop : stackEnd < 4294967296) (mem : Buf) :
    (Heap.init heap stackEnd mem).Shown v (memMallocInit v heap stackEnd mem) := by
  have hin := InRange.init hplaced horder htop mem
  refine ⟨hin.start, hin.stop, memMallocInit_brk hplaced (by omega) mem, fun a ha => ?_⟩
  have hword {b : Buf} {w x : Nat} (hw : w ∈ v.words) : putLe32 b w x a = b a :=
    putLe32_of_apart (ha w hw)
  rw [memMallocInit, hword (by simp [HeapVars.words]), hword (by simp [HeapVars.words]),
    hword (by simp [HeapVars.words])]
  rfl

theorem Heap.Shown.newBrk_eq (h : s.Shown v mem) (increment : Int32) :
    NonOsLite.newBrk v mem increment = s.newBrk increment := by
  rw [NonOsLite.newBrk, h.brk, Heap.newBrk]

theorem Heap.Shown.clearedMem_rest (h : s.Shown v mem) {a : Nat}
    (ha : ∀ w ∈ v.words, a < w ∨ w + 4 ≤ a) :
    NonOsLite.clearedMem v mem increment a = s.clearedMem increment a := by
  rw [NonOsLite.clearedMem, Heap.clearedMem, h.newBrk_eq]
  split_ifs
  · rw [memset, memset, h.rest a ha]
  · exact h.rest a ha

theorem Heap.Shown.clearedMem_word (h : s.Shown v mem) (hrange : s.InRange)
    (hplaced : v.Placed s.memMallocStart s.memMallocEnd) (hcalls : s.Calls increment) {w : Nat}
    (hw : w ∈ v.words) : le32 (NonOsLite.clearedMem v mem increment) w = le32 mem w := by
  by_cases hneg : increment.toInt < 0
  · have hback := hcalls.within.resolve_left (not_le.mpr hneg)
    have hlt := le32_lt mem v.memMallocBrk
    have hbrk := h.brk
    have hupper := hrange.upper
    have hout := hplaced.outside w hw
    have hnew := newBrk_exact_iff.mpr (show
      0 ≤ le32 mem v.memMallocBrk + increment.toInt ∧
        le32 mem v.memMallocBrk + increment.toInt < 4294967296 by omega)
    refine le32_congr fun i hi => ?_
    rw [clearedMem_apply hnew, if_neg (by omega)]
  · rw [NonOsLite.clearedMem, if_neg hneg]

theorem Heap.Shown.morecore (h : s.Shown v mem) (hrange : s.InRange)
    (hplaced : v.Placed s.memMallocStart s.memMallocEnd) (hcalls : s.Calls increment) :
    (sbrk v mem increment).1 = (NonOsLite.morecore s increment).1 ∧
      (NonOsLite.morecore s increment).2.Shown v (sbrk v mem increment).2 := by
  have hword {w : Nat} (hw : w ∈ v.words) := h.clearedMem_word hrange hplaced hcalls hw
  have hstart := (hword (w := v.memMallocStart) (by simp [HeapVars.words])).trans h.start
  have hstop := (hword (w := v.memMallocEnd) (by simp [HeapVars.words])).trans h.stop
  have hbrk := (hword (w := v.memMallocBrk) (by simp [HeapVars.words])).trans h.brk
  have hkept : BoundsKept v mem (NonOsLite.clearedMem v mem increment) :=
    ⟨hstart.trans h.start.symm, hstop.trans h.stop.symm⟩
  have hiff : NonOsLite.Accepts v mem increment ↔ s.Accepts increment := by
    rw [NonOsLite.Accepts, h.start, h.stop, h.newBrk_eq, Heap.Accepts]
  by_cases haccepts : s.Accepts increment
  · have hput := hplaced.putBrk (NonOsLite.clearedMem v mem increment) (s.newBrk increment)
    rw [sbrk_accepts hkept (hiff.mpr haccepts), morecore_accepts haccepts, h.newBrk_eq]
    refine ⟨h.brk, hput.start.trans hstart, hput.stop.trans hstop, ?_, fun a ha => ?_⟩
    · exact le32_putLe32 (h.newBrk_eq increment ▸ newBrk_lt v mem increment)
    · refine Eq.trans ?_ (h.clearedMem_rest ha)
      exact putLe32_of_apart (ha v.memMallocBrk (by simp [HeapVars.words]))
  · rw [sbrk_refuses hkept (mt hiff.mp haccepts), morecore_refuses haccepts]
    exact ⟨rfl, hstart, hstop, hbrk, fun a ha => h.clearedMem_rest ha⟩

end NonOsLite
