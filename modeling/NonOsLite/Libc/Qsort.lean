import NonOsLite.Lib.ByteBuf
import NonOsLite.Lib.InsertionSort
import NonOsLite.Libc.CInt

namespace NonOsLite
open ByteBuf InsertionSort

abbrev Comp := List UInt8 → List UInt8 → Int

def element (mem : Buf) (width p : Nat) : List UInt8 := bytes (shift mem p) width

def swapBytes (mem : Buf) (a b : Nat) : Nat → Buf
  | 0 => mem
  | k + 1 =>
    let tmp := mem a
    let mem := Function.update mem a (mem b)
    let mem := Function.update mem b tmp
    swapBytes mem (a + 1) (b + 1) k

variable (comp : Comp) (base width : Nat)

def siftDown (wgap : Nat) : Nat → Buf → Nat → Option Buf
  | 0, _, _ => none
  | fuel + 1, mem, j =>
    let j := sub32 j wgap
    let a := u32 (j + base)
    let b := u32 (a + wgap)
    if comp (element mem width a) (element mem width b) ≤ 0 then some mem
    else
      let mem := swapBytes mem a b width
      if wgap ≤ j then siftDown wgap fuel mem j else some mem

def gapPass (steps wgap nel : Nat) : Nat → Buf → Nat → Option Buf
  | 0, _, _ => none
  | fuel + 1, mem, i => do
    let mem ← siftDown comp base width wgap steps mem i
    let i := u32 (i + width)
    if i < nel then gapPass steps wgap nel fuel mem i else some mem

def gapPasses (steps nel : Nat) : Nat → Buf → Nat → Option Buf
  | 0, _, _ => none
  | fuel + 1, mem, wgap => do
    let mem ← gapPass comp base width steps wgap nel steps mem wgap
    let wgap := sub32 wgap width / 3
    if wgap ≠ 0 then gapPasses steps nel fuel mem wgap else some mem

def firstGap (nel : Nat) : Nat → Nat → Option Nat
  | 0, _ => none
  | fuel + 1, wgap =>
    let wgap := u32 (3 * wgap + 1)
    if wgap < (nel - 1) / 3 then firstGap nel fuel wgap else some wgap

-- fuel bounds the rounds of each loop.
def qsort (fuel : Nat) (mem : Buf) (nel : Nat) : Option Buf :=
  if nel > 1 ∧ width > 0 then do
    let wgap ← firstGap nel fuel 0
    gapPasses comp base width fuel (u32 (nel * width)) fuel mem (u32 (wgap * width))
  else some mem

structure Comp.Consistent (comp : Comp) : Prop where
  turn : ∀ x y, 0 < comp x y → comp y x ≤ 0
  trans : ∀ x y z, comp x y ≤ 0 → comp y z ≤ 0 → comp x z ≤ 0

theorem Comp.Consistent.same {comp : Comp} (h : comp.Consistent) (x : List UInt8) :
    comp x x ≤ 0 := by
  rcases le_or_gt (comp x x) 0 with hle | hgt
  · exact hle
  · exact h.turn x x hgt

def Comp.le (comp : Comp) (x y : List UInt8) : Prop := comp x y ≤ 0

def elements (mem : Buf) (i : Nat) : List UInt8 := element mem width (base + i * width)

structure Shuffles (nel : Nat) (mem mem' : Buf) : Prop where
  rearranges : Rearranges nel (elements base width mem) (elements base width mem')
  frame : ∀ x, x < base ∨ base + nel * width ≤ x → mem' x = mem x

variable {comp base width} {mem mem' mem'' : Buf} {a b i j k n nel : Nat}

theorem Shuffles.refl (mem : Buf) : Shuffles base width nel mem mem :=
  ⟨Rearranges.refl nel _, fun _ _ => rfl⟩

theorem Shuffles.trans (h : Shuffles base width nel mem mem')
    (h' : Shuffles base width nel mem' mem'') : Shuffles base width nel mem mem'' :=
  ⟨h.rearranges.trans h'.rearranges, fun x hx => (h'.frame x hx).trans (h.frame x hx)⟩

theorem swapBytes_apply (h : a + k ≤ b) (x : Nat) : swapBytes mem a b k x =
    if a ≤ x ∧ x < a + k then mem (b + (x - a))
    else if b ≤ x ∧ x < b + k then mem (a + (x - b)) else mem x := by
  induction k generalizing mem a b with
  | zero =>
    rw [swapBytes, if_neg (by omega), if_neg (by omega)]
  | succ k ih =>
    rw [swapBytes, ih (by omega)]
    simp only [Function.update_apply]
    rcases eq_or_ne x a with rfl | ha
    · rw [if_neg (by omega), if_neg (by omega), if_neg (by omega), if_pos rfl, if_pos (by omega)]
      simp
    · rcases eq_or_ne x b with rfl | hb
      · rw [if_neg (by omega), if_neg (by omega), if_pos rfl, if_neg (by omega),
          if_pos (by omega)]
        simp
      · split_ifs <;> first | omega | rfl | (congr 1; omega)

theorem element_congr {p q : Nat} (h : ∀ i < width, mem (p + i) = mem' (q + i)) :
    element mem width p = element mem' width q :=
  bytes_congr h

theorem row_end_le (h : i < j) : i * width + width ≤ j * width := by
  rw [← Nat.succ_mul]
  exact Nat.mul_le_mul_right width h

theorem elements_swapBytes (h : i < j) :
    elements base width (swapBytes mem (base + i * width) (base + j * width) width) =
      exchange (elements base width mem) i j := by
  have hij : i * width + width ≤ j * width := row_end_le h
  have happly (x : Nat) : swapBytes mem (base + i * width) (base + j * width) width x = _ :=
    swapBytes_apply (by omega) x
  funext k
  rcases eq_or_ne k i with rfl | hki
  · rw [exchange_left]
    refine element_congr ?_
    intro x hx
    rw [happly, if_pos (by omega)]
    congr 1
    omega
  · rcases eq_or_ne k j with rfl | hkj
    · rw [exchange_right]
      refine element_congr ?_
      intro x hx
      rw [happly, if_neg (by omega), if_pos (by omega)]
      congr 1
      omega
    · rw [exchange_other hki hkj]
      refine element_congr ?_
      intro x hx
      have hi : k * width + width ≤ i * width ∨ i * width + width ≤ k * width :=
        (lt_or_gt_of_ne hki).imp row_end_le row_end_le
      have hj : k * width + width ≤ j * width ∨ j * width + width ≤ k * width :=
        (lt_or_gt_of_ne hkj).imp row_end_le row_end_le
      rw [happly, if_neg (by omega), if_neg (by omega)]

theorem swapBytes_shuffles (h : i < j) (hj : j < nel) : Shuffles base width nel mem
    (swapBytes mem (base + i * width) (base + j * width) width) := by
  have hij : i * width + width ≤ j * width := row_end_le h
  have hend : j * width + width ≤ nel * width := row_end_le hj
  constructor
  · rw [elements_swapBytes h]
    exact rearranges_exchange (h.trans hj) hj
  · intro x hx
    rw [swapBytes_apply (by omega), if_neg (by omega), if_neg (by omega)]

def Fits (base width nel : Nat) : Prop := 0 < width ∧ base + nel * width < 4294967296

theorem siftDown_eq {fuel g p : Nat} (hfits : Fits base width nel) (hg : g ≤ p) (hp : p < nel) :
    siftDown comp base width (g * width) (fuel + 1) mem (p * width) =
      if comp (elements base width mem (p - g)) (elements base width mem p) ≤ 0 then some mem
      else if g ≤ p - g then
        siftDown comp base width (g * width) fuel
          (swapBytes mem (base + (p - g) * width) (base + p * width) width) ((p - g) * width)
      else some (swapBytes mem (base + (p - g) * width) (base + p * width) width) := by
  obtain ⟨hwidth, hend⟩ := hfits
  have hrow : p * width + width ≤ nel * width := row_end_le hp
  have hgap : g * width ≤ p * width := Nat.mul_le_mul_right width hg
  have hsub : (p - g) * width = p * width - g * width := Nat.sub_mul p g width
  have hj : sub32 (p * width) (g * width) = (p - g) * width := by
    rw [sub32_of_le hgap, hsub]
  have ha : u32 ((p - g) * width + base) = base + (p - g) * width := by
    rw [u32_of_lt (by omega), Nat.add_comm]
  have hb : u32 (base + (p - g) * width + g * width) = base + p * width := by
    rw [u32_of_lt (by omega)]
    omega
  have hle : g * width ≤ (p - g) * width ↔ g ≤ p - g := Nat.mul_le_mul_right_iff hwidth
  simp only [siftDown, hj, ha, hb, hle, elements]
  rfl

theorem siftDown_spec (hcomp : comp.Consistent) (hfits : Fits base width nel) {g : Nat}
    (hpos : 0 < g) (fuel : Nat) (mem : Buf) (p : Nat) (hg : g ≤ p) (hp : p < nel)
    (hfuel : p ≤ fuel) : ∃ mem',
      siftDown comp base width (g * width) fuel mem (p * width) = some mem' ∧
      Shuffles base width nel mem mem' ∧
      (g = 1 → ∀ m, p < m → SortedBut comp.le p m (elements base width mem) →
        Sorted comp.le m (elements base width mem')) := by
  induction fuel generalizing mem p with
  | zero => omega
  | succ fuel ih =>
    rw [siftDown_eq hfits hg hp]
    by_cases hle : comp (elements base width mem (p - g)) (elements base width mem p) ≤ 0
    · refine ⟨mem, if_pos hle, Shuffles.refl mem, ?_⟩
      rintro rfl m hm hbut
      rw [← Nat.sub_add_cancel hg] at hbut hle
      exact hbut.stays hcomp.trans hle
    · rw [if_neg hle]
      have hswap : Shuffles base width nel mem
          (swapBytes mem (base + (p - g) * width) (base + p * width) width) :=
        swapBytes_shuffles (by omega) hp
      have hmoved (hone : g = 1) (m : Nat) (hm : p < m)
          (hbut : SortedBut comp.le p m (elements base width mem)) :
          SortedBut comp.le (p - g) m (elements base width
            (swapBytes mem (base + (p - g) * width) (base + p * width) width)) := by
        subst hone
        rw [elements_swapBytes (by omega)]
        obtain ⟨q, rfl⟩ : ∃ q, p = q + 1 := ⟨p - 1, by omega⟩
        exact hbut.moves (hcomp.turn _ _ (not_le.mp hle)) hm
      rcases Nat.lt_or_ge (p - g) g with hlast | hmore
      · rw [if_neg (by omega)]
        refine ⟨_, rfl, hswap, ?_⟩
        intro hone m hm hbut
        have hfront := hmoved hone m hm hbut
        rw [show p - g = 0 by omega] at hfront
        have hzero := hfront.front
        rwa [show p - g = 0 by omega]
      · rw [if_pos hmore]
        obtain ⟨mem', hrun, hshuffles, hsorted⟩ := ih _ (p - g) hmore (by omega) (by omega)
        refine ⟨mem', hrun, hswap.trans hshuffles, ?_⟩
        intro hone m hm hbut
        exact hsorted hone m (by omega) (hmoved hone m hm hbut)

theorem gapPass_spec (hcomp : comp.Consistent) (hfits : Fits base width nel) {g steps : Nat}
    (hpos : 0 < g) (hsteps : nel ≤ steps) (fuel : Nat) (mem : Buf) (p : Nat) (hg : g ≤ p)
    (hp : p < nel) (hfuel : nel - p ≤ fuel) : ∃ mem',
      gapPass comp base width steps (g * width) (nel * width) fuel mem (p * width) = some mem' ∧
      Shuffles base width nel mem mem' ∧
      (g = 1 → Sorted comp.le p (elements base width mem) →
        Sorted comp.le nel (elements base width mem')) := by
  induction fuel generalizing mem p with
  | zero => omega
  | succ fuel ih =>
    obtain ⟨mem₁, hsift, hshuffles₁, hsorted₁⟩ :=
      siftDown_spec hcomp hfits hpos steps mem p hg hp (by omega)
    have hgrows (hone : g = 1) (hsorted : Sorted comp.le p (elements base width mem)) :
        Sorted comp.le (p + 1) (elements base width mem₁) :=
      hsorted₁ hone (p + 1) (by omega) hsorted.next
    have hrow : p * width + width ≤ nel * width := row_end_le hp
    have hnext : u32 (p * width + width) = (p + 1) * width := by
      rw [u32_of_lt (by have := hfits.2; omega), Nat.succ_mul]
    have hmore : (p + 1) * width < nel * width ↔ p + 1 < nel := Nat.mul_lt_mul_right hfits.1
    rw [gapPass, hsift]
    simp only [Option.bind_eq_bind, Option.bind_some, hnext, hmore]
    split_ifs with hlast
    · obtain ⟨mem₂, hrun, hshuffles₂, hsorted₂⟩ :=
        ih mem₁ (p + 1) (by omega) hlast (by omega)
      refine ⟨mem₂, hrun, hshuffles₁.trans hshuffles₂, ?_⟩
      intro hone hsorted
      exact hsorted₂ hone (hgrows hone hsorted)
    · refine ⟨mem₁, rfl, hshuffles₁, ?_⟩
      intro hone hsorted
      rw [show nel = p + 1 by omega]
      exact hgrows hone hsorted

def gap : Nat → Nat
  | 0 => 0
  | k + 1 => 3 * gap k + 1

theorem gapPasses_spec (hcomp : comp.Consistent) (hfits : Fits base width nel) {steps : Nat}
    (hsteps : nel ≤ steps) (fuel : Nat) (mem : Buf) (k : Nat) (hgap : gap (k + 1) < nel)
    (hfuel : k < fuel) : ∃ mem',
      gapPasses comp base width steps (nel * width) fuel mem (gap (k + 1) * width) = some mem' ∧
      Shuffles base width nel mem mem' ∧ Sorted comp.le nel (elements base width mem') := by
  induction fuel generalizing mem k with
  | zero => omega
  | succ fuel ih =>
    obtain ⟨mem₁, hpass, hshuffles₁, hsorted₁⟩ := gapPass_spec hcomp hfits
      (Nat.succ_pos (3 * gap k)) hsteps steps mem (gap (k + 1)) le_rfl hgap (by omega)
    have hnext : sub32 (gap (k + 1) * width) width / 3 = gap k * width := by
      have hmul : gap (k + 1) * width = 3 * (gap k * width) + width := by
        rw [gap, Nat.succ_mul, Nat.mul_assoc]
      rw [sub32_of_le (by omega), hmul]
      omega
    rw [gapPasses]
    have hpass' : gapPass comp base width steps (gap (k + 1) * width) (nel * width) steps mem
      (gap (k + 1) * width) = some mem₁ := hpass
    rw [hpass']
    simp only [Option.bind_eq_bind, Option.bind_some, hnext]
    cases k with
    | zero =>
      rw [gap, Nat.zero_mul, if_neg (by simp)]
      exact ⟨mem₁, rfl, hshuffles₁, hsorted₁ rfl sorted_one⟩
    | succ k =>
      have hpos : 0 < gap (k + 1) * width := Nat.mul_pos (Nat.succ_pos _) hfits.1
      rw [if_pos (by omega)]
      rw [gap] at hgap
      obtain ⟨mem₂, hrun, hshuffles₂, hsorted₂⟩ := ih mem₁ k (by omega) (by omega)
      exact ⟨mem₂, hrun, hshuffles₁.trans hshuffles₂, hsorted₂⟩

theorem le_gap (k : Nat) : k ≤ gap k := by
  induction k with
  | zero => exact le_rfl
  | succ k ih =>
    rw [gap]
    omega

theorem firstGap_spec (hnel : 1 < nel) (hlt : nel < 4294967296) (fuel k : Nat)
    (hgap : k = 0 ∨ gap k < (nel - 1) / 3) (hfuel : nel ≤ k + fuel) :
    ∃ m, firstGap nel fuel (gap k) = some (gap (m + 1)) ∧ gap (m + 1) < nel := by
  induction fuel generalizing k with
  | zero =>
    have hle := le_gap k
    omega
  | succ fuel ih =>
    have hsmall : gap (k + 1) < nel := by
      rw [gap]
      rcases hgap with rfl | hgap
      · rw [gap]
        omega
      · omega
    have hnext : u32 (3 * gap k + 1) = gap (k + 1) := u32_of_lt (hsmall.trans hlt)
    simp only [firstGap, hnext]
    split_ifs with hmore
    · exact ih (k + 1) (.inr hmore) (by omega)
    · exact ⟨k, rfl, hsmall⟩

theorem qsort_spec (hcomp : comp.Consistent) (hend : base + nel * width < 4294967296)
    (hnel : nel < 4294967296) {fuel : Nat} (hfuel : nel ≤ fuel) (mem : Buf) : ∃ mem',
      qsort comp base width fuel mem nel = some mem' ∧ Shuffles base width nel mem mem' ∧
      Sorted comp.le nel (elements base width mem') := by
  rw [qsort]
  split_ifs with hwork
  · obtain ⟨hmany, hwidth⟩ := hwork
    obtain ⟨k, hfirst, hgap⟩ := firstGap_spec hmany hnel fuel 0 (.inl rfl) (by omega)
    have hsmall : gap (k + 1) * width ≤ nel * width := Nat.mul_le_mul_right width hgap.le
    have hk := le_gap (k + 1)
    rw [gap] at hfirst
    rw [hfirst]
    simp only [Option.bind_eq_bind, Option.bind_some]
    rw [u32_of_lt (by omega), u32_of_lt (by omega)]
    exact gapPasses_spec hcomp ⟨hwidth, hend⟩ hfuel fuel mem k hgap (by omega)
  · refine ⟨mem, rfl, Shuffles.refl mem, ?_⟩
    intro a b hab hb
    have hempty (p : Nat) : element mem 0 p = [] := rfl
    have hwidth : width = 0 := by omega
    subst hwidth
    rw [Comp.le, elements, elements, hempty, hempty]
    exact hcomp.same []

theorem qsort_sorts (comp : Comp) (base width nel : Nat) (mem : Buf) (fuel : Nat)
    (hcomp : comp.Consistent) (hend : base + nel * width < 4294967296)
    (hnel : nel < 4294967296) (hfuel : nel ≤ fuel) : ∃ mem',
      qsort comp base width fuel mem nel = some mem' ∧
      ((List.range nel).map (elements base width mem')).Perm
        ((List.range nel).map (elements base width mem)) ∧
      ((List.range nel).map (elements base width mem')).Pairwise (fun x y => comp x y ≤ 0) ∧
      ∀ x, x < base ∨ base + nel * width ≤ x → mem' x = mem x := by
  obtain ⟨mem', hrun, hshuffles, hsorted⟩ := qsort_spec hcomp hend hnel hfuel mem
  exact ⟨mem', hrun, hshuffles.rearranges.perm, hsorted.pairwise, hshuffles.frame⟩

theorem qsort_sorts_pairs : ∃ mem',
    qsort (fun x y => (x.getD 0 0).toNat - (y.getD 0 0).toNat) 4096 2 5
        (store (fun _ => 0) 4096 [9, 1, 4, 2, 7, 3, 1, 4, 8, 5]) 5 = some mem' ∧
      ((List.range 5).map (elements 4096 2 mem')).Perm ((List.range 5).map
        (elements 4096 2 (store (fun _ => 0) 4096 [9, 1, 4, 2, 7, 3, 1, 4, 8, 5]))) ∧
      ((List.range 5).map (elements 4096 2 mem')).Pairwise
        (fun x y => (x.getD 0 0).toNat - ((y.getD 0 0).toNat : Int) ≤ 0) ∧
      ∀ x, x < 4096 ∨ 4096 + 5 * 2 ≤ x →
        mem' x = store (fun _ => 0) 4096 [9, 1, 4, 2, 7, 3, 1, 4, 8, 5] x :=
  qsort_sorts _ 4096 2 5 _ 5 ⟨fun x y h => by omega, fun x y z h h' => by omega⟩ (by decide)
    (by decide) (by decide)

end NonOsLite
