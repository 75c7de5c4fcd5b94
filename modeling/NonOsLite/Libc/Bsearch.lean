import NonOsLite.Libc.Qsort

namespace NonOsLite
open ByteBuf InsertionSort

variable (compar : Comp) (key : List UInt8) (mem : Buf) (base size : Nat)

-- The inner none is the null pointer.
def bsearchLoop : Nat → Nat → Nat → Option (Option Nat)
  | 0, _, _ => none
  | fuel + 1, low, high =>
    if low < high then
      let mid := u32 (low + sub32 high low / 2)
      let p := u32 (base + u32 (mid * size))
      let r := compar key (element mem size p)
      if 0 < r then bsearchLoop fuel (u32 (mid + 1)) high
      else if r < 0 then bsearchLoop fuel low mid
      else some (some p)
    else some none

def bsearch (fuel high : Nat) : Option (Option Nat) :=
  if 0 < size then bsearchLoop compar key mem base size fuel 0 high else some none

def Splits (n : Nat) (f : Nat → List UInt8) : Prop :=
  ∀ a b, a < b → b < n → (compar key (f a) < 0 → compar key (f b) < 0) ∧
    (0 < compar key (f b) → 0 < compar key (f a))

variable {compar key mem base size} {low high nel : Nat}

structure Narrows (compar : Comp) (key : List UInt8) (n low high : Nat) (f : Nat → List UInt8) :
    Prop where
  upper : high ≤ n
  below : ∀ i < low, 0 < compar key (f i)
  above : ∀ i < n, high ≤ i → compar key (f i) < 0

variable {f : Nat → List UInt8} {mid : Nat}

theorem Narrows.right (h : Narrows compar key nel low high f) (hsplits : Splits compar key nel f)
    (hmid : mid < high) (hkey : 0 < compar key (f mid)) :
    Narrows compar key nel (mid + 1) high f := by
  refine ⟨h.upper, ?_, h.above⟩
  intro i hi
  have hupper := h.upper
  rcases Nat.lt_succ_iff_lt_or_eq.mp hi with hlt | rfl
  · exact (hsplits i mid hlt (by omega)).2 hkey
  · exact hkey

theorem Narrows.left (h : Narrows compar key nel low high f) (hsplits : Splits compar key nel f)
    (hmid : mid < high) (hkey : compar key (f mid) < 0) :
    Narrows compar key nel low mid f := by
  refine ⟨hmid.le.trans h.upper, h.below, ?_⟩
  intro i hi hle
  rcases Nat.eq_or_lt_of_le hle with rfl | hlt
  · exact hkey
  · exact (hsplits mid i hlt hi).1 hkey

theorem bsearchLoop_spec (hfits : Fits base size nel) (hnel : nel < 4294967296)
    (hsplits : Splits compar key nel (elements base size mem)) (fuel low high : Nat)
    (h : Narrows compar key nel low high (elements base size mem)) (hfuel : high - low < fuel) :
    (bsearchLoop compar key mem base size fuel low high = some none ∧
        ∀ i < nel, compar key (elements base size mem i) ≠ 0) ∨
      ∃ i < nel, bsearchLoop compar key mem base size fuel low high = some (some (base + i * size)) ∧
        compar key (elements base size mem i) = 0 := by
  induction fuel generalizing low high with
  | zero => omega
  | succ fuel ih =>
    have hupper := h.upper
    rw [bsearchLoop]
    rcases Nat.lt_or_ge low high with hlt | hge
    · obtain ⟨mid, hmid, hlo, hhi⟩ : ∃ mid, u32 (low + sub32 high low / 2) = mid ∧ low ≤ mid ∧
          mid < high := by
        refine ⟨low + (high - low) / 2, ?_, by omega, by omega⟩
        rw [sub32_of_le hlt.le, u32_of_lt (by omega)]
      have hrow : mid * size + size ≤ nel * size := row_end_le (by omega)
      have hp : u32 (base + u32 (mid * size)) = base + mid * size := by
        obtain ⟨hsize, hend⟩ := hfits
        rw [u32_of_lt (x := mid * size) (by omega), u32_of_lt (by omega)]
      have hsucc : u32 (mid + 1) = mid + 1 := u32_of_lt (by omega)
      simp only [if_pos hlt, hmid, hp, hsucc]
      rcases lt_trichotomy (compar key (elements base size mem mid)) 0 with hneg | hzero | hpos
      · have hout : ¬0 < compar key (element mem size (base + mid * size)) := not_lt.mpr hneg.le
        have hin : compar key (element mem size (base + mid * size)) < 0 := hneg
        rw [if_neg hout, if_pos hin]
        exact ih low mid (h.left hsplits hhi hneg) (by omega)
      · have hout : ¬0 < compar key (element mem size (base + mid * size)) := hzero.not_gt
        have hout' : ¬compar key (element mem size (base + mid * size)) < 0 := hzero.not_lt
        rw [if_neg hout, if_neg hout']
        exact .inr ⟨mid, by omega, rfl, hzero⟩
      · have hin : 0 < compar key (element mem size (base + mid * size)) := hpos
        rw [if_pos hin]
        exact ih (mid + 1) high (h.right hsplits hhi hpos) (by omega)
    · rw [if_neg (by omega)]
      refine .inl ⟨rfl, ?_⟩
      intro i hi
      rcases Nat.lt_or_ge i low with hbelow | habove
      · exact (h.below i hbelow).ne'
      · exact (h.above i hi (by omega)).ne

theorem bsearch_spec (hfits : Fits base size nel) (hnel : nel < 4294967296)
    (hsplits : Splits compar key nel (elements base size mem)) {fuel : Nat} (hfuel : nel < fuel) :
    (bsearch compar key mem base size fuel nel = some none ∧
        ∀ i < nel, compar key (elements base size mem i) ≠ 0) ∨
      ∃ i < nel, bsearch compar key mem base size fuel nel = some (some (base + i * size)) ∧
        compar key (elements base size mem i) = 0 := by
  rw [bsearch, if_pos hfits.1]
  exact bsearchLoop_spec hfits hnel hsplits fuel 0 nel ⟨le_rfl, by omega, by omega⟩ hfuel

structure Comp.Order (comp : Comp) : Prop where
  turn : ∀ x y, comp x y < 0 ↔ 0 < comp y x
  trans : ∀ x y z, comp x y ≤ 0 → comp y z ≤ 0 → comp x z ≤ 0

variable {comp : Comp}

theorem Comp.Order.consistent (h : comp.Order) : comp.Consistent :=
  ⟨fun x y hpos => ((h.turn y x).mpr hpos).le, h.trans⟩

theorem Comp.Order.splits (h : comp.Order) (hsorted : Sorted comp.le nel f) (key : List UInt8) :
    Splits comp key nel f := by
  intro a b hab hb
  have hle : comp (f a) (f b) ≤ 0 := hsorted a b hab hb
  constructor
  · intro hneg
    by_contra hkey
    have hback : comp (f b) key ≤ 0 := not_lt.mp fun hpos => hkey ((h.turn key (f b)).mpr hpos)
    have hfirst : comp (f a) key ≤ 0 := h.trans _ _ _ hle hback
    exact absurd ((h.turn key (f a)).mp hneg) (not_lt.mpr hfirst)
  · intro hpos
    by_contra hkey
    exact absurd hpos (not_lt.mpr (h.trans _ _ _ (not_lt.mp hkey) hle))

theorem bsearch_after_qsort (comp : Comp) (key : List UInt8) (base width nel : Nat) (mem : Buf)
    (fuel : Nat) (hcomp : comp.Order) (hwidth : 0 < width)
    (hend : base + nel * width < 4294967296) (hfuel : nel < fuel) : ∃ mem',
      qsort comp base width fuel mem nel = some mem' ∧
      ((bsearch comp key mem' base width fuel nel = some none ∧
          ∀ i < nel, comp key (elements base width mem i) ≠ 0) ∨
        ∃ i < nel, bsearch comp key mem' base width fuel nel = some (some (base + i * width)) ∧
          comp key (elements base width mem' i) = 0 ∧
          ∃ j < nel, elements base width mem' i = elements base width mem j) := by
  have hnel : nel < 4294967296 := by
    have := Nat.le_mul_of_pos_right nel hwidth
    omega
  obtain ⟨mem', hrun, hshuffles, hsorted⟩ :=
    qsort_spec hcomp.consistent hend hnel hfuel.le mem
  have hmem (x : List UInt8) : (∃ i < nel, elements base width mem' i = x) ↔
      ∃ i < nel, elements base width mem i = x := by
    have hiff := hshuffles.rearranges.perm.mem_iff (a := x)
    simpa only [List.mem_map, List.mem_range] using hiff
  refine ⟨mem', hrun, ?_⟩
  rcases bsearch_spec ⟨hwidth, hend⟩ hnel (hcomp.splits hsorted key) hfuel with
    ⟨hnone, hno⟩ | ⟨i, hi, hfound, hkey⟩
  · refine .inl ⟨hnone, ?_⟩
    intro i hi hzero
    obtain ⟨j, hj, heq⟩ := (hmem _).mpr ⟨i, hi, rfl⟩
    exact hno j hj (by rw [heq, hzero])
  · obtain ⟨j, hj, heq⟩ := (hmem _).mp ⟨i, hi, rfl⟩
    exact .inr ⟨i, hi, hfound, hkey, j, hj, heq.symm⟩

def firstByte : Comp := fun x y => (x.getD 0 0).toNat - (y.getD 0 0).toNat

theorem bsearch_after_qsort_pairs : ∃ mem',
    qsort firstByte 4096 2 6 (store (fun _ => 0) 4096 [9, 1, 4, 2, 7, 3, 1, 4, 8, 5]) 5 =
        some mem' ∧
      ((bsearch firstByte [7] mem' 4096 2 6 5 = some none ∧ ∀ i < 5, firstByte [7]
          (elements 4096 2 (store (fun _ => 0) 4096 [9, 1, 4, 2, 7, 3, 1, 4, 8, 5]) i) ≠ 0) ∨
        ∃ i < 5, bsearch firstByte [7] mem' 4096 2 6 5 = some (some (4096 + i * 2)) ∧
          firstByte [7] (elements 4096 2 mem' i) = 0 ∧ ∃ j < 5, elements 4096 2 mem' i =
            elements 4096 2 (store (fun _ => 0) 4096 [9, 1, 4, 2, 7, 3, 1, 4, 8, 5]) j) :=
  bsearch_after_qsort firstByte [7] 4096 2 5 _ 6
    ⟨fun x y => by rw [firstByte, firstByte]; omega, fun x y z => by
      rw [firstByte, firstByte, firstByte]
      omega⟩ (by decide) (by decide) (by decide)

end NonOsLite
