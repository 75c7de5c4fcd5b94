import NonOsLite.Heap.Search

namespace NonOsLite
open ByteBuf Ring BoundaryTags

variable {av lo hi P a b n z v w nb stop fuel idx blocks : Nat} {mem mem' mem'' mem₁ : Buf}
  {ts : List Tile} {bins bins' bins₁ : Bins} {i j p s k : Nat} {xs ys : List Nat}
  {U F : Set (Nat × Nat)}

def FitAt (F : Set (Nat × Nat)) (bins : Bins) (nb v : Nat) : Prop :=
  ∃ z i xs ys, i ≠ 1 ∧ bins i = xs ++ v :: ys ∧ (v, z) ∈ F ∧ nb ≤ z

def NoFit (F : Set (Nat × Nat)) (bins : Bins) (nb : Nat) : Prop :=
  ∀ i a z, 2 ≤ i → a ∈ bins i → (a, z) ∈ F → z < nb

theorem SearchFrom.onward (h : SearchFrom F bins nb idx) (hle : idx ≤ n) (hn : n < 128)
    (hsmall : ∀ i a z, idx ≤ i → i < n → a ∈ bins i → (a, z) ∈ F → z < nb) :
    SearchFrom F bins nb n := by
  have hlower := h.lower
  refine ⟨by omega, hn, fun i hi => h.fits i (by omega), ?_⟩
  intro i a z hi hlt ha hz
  rcases Nat.lt_or_ge i idx with hfront | hback
  · exact h.small i a z hi hfront ha hz
  · exact hsmall i a z hback hlt ha hz

theorem SearchFrom.noFit (h : SearchFrom F bins nb idx)
    (hsmall : ∀ i a z, idx ≤ i → a ∈ bins i → (a, z) ∈ F → z < nb) : NoFit F bins nb := by
  intro i a z hi ha hz
  rcases Nat.lt_or_ge i idx with hfront | hback
  · exact h.small i a z hi hfront ha hz
  · exact hsmall i a z hback ha hz

theorem Layout.scanBlock (h : Layout av lo hi mem P ts bins) (hreq : Padded nb)
    (hfuel : 536870912 < fuel) (steps idx : Nat) (hsteps : 4 ≤ steps + idx % 4) (hlo : 2 ≤ idx)
    (hhi : idx < 128) :
    (∃ v i, scanBlock av fuel mem nb steps idx = some (some v, i) ∧
        FitAt (ofKind .free P ts) bins nb v) ∨
      scanBlock av fuel mem nb steps idx = some (none, idx / 4 * 4 + 4) ∧
        ∀ i a z, idx ≤ i → i < idx / 4 * 4 + 4 → a ∈ bins i → (a, z) ∈ ofKind .free P ts →
          z < nb := by
  have hnb := hreq.below
  induction steps generalizing idx with
  | zero => omega
  | succ steps ih =>
    have hback := (h.rings.ring idx (by omega) hhi).prev_head
    have hlen := (h.rings.length_le idx).trans_lt hfuel
    rw [NonOsLite.scanBlock, hback]
    rcases h.rings.firstFit (i := idx) (by omega) hhi nb (List.append_nil _).symm hlen with
      ⟨hnone, hsmaller⟩ | ⟨zs, v, zs', hsplit, hfound, hfit, -⟩
    · have hsmall {a z : Nat} (ha : a ∈ bins idx) (hz : (a, z) ∈ ofKind .free P ts) : z < nb := by
        have hneg := hsmaller a ha
        rw [h.remainderSize_eq hz (by omega)] at hneg
        omega
      rw [hnone]
      simp only [Option.bind_eq_bind, Option.bind_some]
      split_ifs with hmore
      · have hsame : (idx + 1) / 4 = idx / 4 := by omega
        rcases ih (idx + 1) (by omega) (by omega) (by omega) with hfound | ⟨hrun, hall⟩
        · exact .inl hfound
        · rw [hsame] at hrun hall
          refine .inr ⟨hrun, ?_⟩
          intro i a z hi hi' ha hz
          rcases Nat.eq_or_lt_of_le hi with rfl | hlt
          · exact hsmall ha hz
          · exact hall i a z hlt hi' ha hz
      · refine .inr ⟨by rw [show idx / 4 * 4 + 4 = idx + 1 by omega], ?_⟩
        intro i a z hi hi' ha hz
        obtain rfl : i = idx := by omega
        exact hsmall ha hz
    · have hv : v ∈ bins idx := by simp [hsplit]
      obtain ⟨z, hz⟩ := h.free_of_listed hv
      rw [h.remainderSize_eq hz (by omega)] at hfit
      rw [hfound]
      exact .inl ⟨v, idx, rfl, z, idx, zs, zs', by omega, hsplit, hz, by omega⟩

theorem binblocks_clearBinblock (j : Nat) :
    (binblocks av (clearBinblock av mem (2 ^ k))).testBit j =
      ((binblocks av mem).testBit j && decide (j ≠ k)) := by
  have hlt : binblocks av mem < 2 ^ 32 := le32_lt mem (av + 4)
  have hput : binblocks av (clearBinblock av mem (2 ^ k)) =
      binblocks av mem &&& (4294967295 ^^^ 2 ^ k) :=
    le32_putLe32 (Nat.and_le_left.trans_lt (le32_lt mem (av + 4)))
  have hones : (4294967295 : Nat) = 2 ^ 32 - 1 := by norm_num
  rw [hput, Nat.testBit_and, Nat.testBit_xor, hones, Nat.testBit_two_pow_sub_one,
    Nat.testBit_two_pow]
  rcases Nat.lt_or_ge j 32 with hj | hj
  · rcases eq_or_ne k j with rfl | hne
    · simp [hj]
    · simp [hj, hne, hne.symm]
  · rw [Nat.testBit_lt_two_pow (hlt.trans_le (Nat.pow_le_pow_right (by decide) hj))]
    simp

theorem Rings.clearBlock (h : Rings av mem bins) (hmarked : Marked av mem bins) (hk : k < 32)
    (startidx : Nat) (hstart : startidx / 4 = k) (hlo : 4 ≤ startidx) (hav : AvFits av)
    (hempty : ∀ i, startidx ≤ i → i / 4 = k → bins i = []) :
    Changes {av + 4} mem (clearBlock av mem (2 ^ k) startidx) ∧
      Marked av (clearBlock av mem (2 ^ k) startidx) bins := by
  have halign := hav.aligned
  have hclear (hall : ∀ i, i / 4 = k → bins i = []) :
      Changes {av + 4} mem (clearBinblock av mem (2 ^ k)) ∧
        Marked av (clearBinblock av mem (2 ^ k)) bins := by
    refine ⟨changes_putLe32 (by omega), ?_⟩
    intro i hi hne
    rw [binblocks_clearBinblock, hmarked i hi hne, Bool.true_and, decide_eq_true_eq]
    exact fun heq => hne (hall i heq)
  induction startidx with
  | zero => omega
  | succ startidx ih =>
    rw [NonOsLite.clearBlock]
    split_ifs with hfirst hsame
    · exact hclear fun i hi => hempty i (by omega) hi
    · refine ih (by omega) (by omega) ?_
      intro i hi hik
      rcases Nat.eq_or_lt_of_le hi with rfl | hlt
      · rw [(h.ring startidx (by omega) (by omega)).next_head] at hsame
        cases hbin : bins startidx with
        | nil => rfl
        | cons y ys =>
          rw [hbin, after_cons] at hsame
          have hy : y ∈ bins startidx := by simp [hbin]
          exact absurd hsame ((h.node startidx y hy).ne_binAt (by omega))
      · exact hempty i hlt hik
    · exact ⟨Changes.refl _ mem, hmarked⟩

theorem and_two_pow_eq_zero : 2 ^ k &&& blocks = 0 ↔ blocks.testBit k = false := by
  constructor
  · intro hzero
    have hbit := congrArg (fun x => x.testBit k) hzero
    simpa [Nat.testBit_and, Nat.testBit_two_pow_self] using hbit
  · intro hclear
    refine Nat.eq_of_testBit_eq ?_
    intro j
    rw [Nat.testBit_and, Nat.testBit_two_pow, Nat.zero_testBit]
    rcases eq_or_ne k j with rfl | hne
    · simp [hclear]
    · simp [hne]

theorem u32_double (hk : k < 31) : u32 (2 * 2 ^ k) = 2 ^ (k + 1) := by
  have hlt : 2 ^ (k + 1) < 2 ^ 32 := Nat.pow_lt_pow_right (by decide) (by omega)
  rw [← pow_succ']
  exact u32_of_lt hlt

theorem nextBlock_spec (hblocks : blocks < 4294967296) (hk : k < 32) (fuel idx : Nat)
    (hfuel : 32 < fuel + k) (hmarked : ∃ j, k ≤ j ∧ blocks.testBit j) :
    ∃ j, k ≤ j ∧ j < 32 ∧ nextBlock blocks fuel idx (2 ^ k) = some (idx + 4 * (j - k), 2 ^ j) ∧
      ∀ m, k ≤ m → m < j → blocks.testBit m = false := by
  induction fuel generalizing k idx with
  | zero => omega
  | succ fuel ih =>
    rw [nextBlock]
    split_ifs with hclear
    · rw [and_two_pow_eq_zero] at hclear
      obtain ⟨j, hj, hbit⟩ := hmarked
      have hj32 : j < 32 := by
        by_contra hge
        have hpow : 2 ^ 32 ≤ 2 ^ j := Nat.pow_le_pow_right (by decide) (not_lt.mp hge)
        rw [Nat.testBit_lt_two_pow (show blocks < 2 ^ j by omega)] at hbit
        exact absurd hbit (by decide)
      have hne : j ≠ k := by
        rintro rfl
        rw [hclear] at hbit
        exact absurd hbit (by decide)
      rw [u32_double (by omega)]
      obtain ⟨m, hm, hm32, hrun, hskip⟩ :=
        ih (k := k + 1) (by omega) (idx + 4) (by omega) ⟨j, by omega, hbit⟩
      refine ⟨m, by omega, hm32, ?_, ?_⟩
      · rw [hrun, show idx + 4 + 4 * (m - (k + 1)) = idx + 4 * (m - k) by omega]
      · intro l hl hlm
        rcases Nat.eq_or_lt_of_le hl with rfl | hlt
        · exact hclear
        · exact hskip l hlt hlm
    · exact ⟨k, le_rfl, hk, by simp, fun m hm hm' => by omega⟩

theorem marked_block (h : Marked av mem bins) (hi : 2 ≤ i)
    (hbit : (binblocks av mem).testBit (i / 4) = false) : bins i = [] := by
  by_contra hne
  rw [h i hi hne] at hbit
  exact absurd hbit (by decide)

theorem unmarked_of_lt (hlt : blocks < 2 ^ k) {j : Nat} (hj : k ≤ j) : blocks.testBit j = false :=
  Nat.testBit_lt_two_pow (hlt.trans_le (Nat.pow_le_pow_right (by decide) hj))

structure Searched (av lo hi stop P nb : Nat) (mem mem' : Buf) (ts : List Tile) (bins : Bins)
    (r : Option Nat) : Prop where
  layout : Layout av lo hi mem' P ts bins
  frames : Frames av lo stop (ofKind .used P ts) mem mem'
  found : ∀ v, r = some v → FitAt (ofKind .free P ts) bins nb v
  none : r = none → NoFit (ofKind .free P ts) bins nb

theorem Searched.after (hf : Frames av lo stop (ofKind .used P ts) mem mem₁) {r : Option Nat}
    (h : Searched av lo hi stop P nb mem₁ mem' ts bins r) :
    Searched av lo hi stop P nb mem mem' ts bins r :=
  ⟨h.layout, hf.trans h.frames, h.found, h.none⟩

theorem Layout.clearBlock (h : Layout av lo hi mem P ts bins) (hts : ts ≠ []) (hstop : 4 ∣ stop)
    (hend : P + total ts ≤ stop) (hlower : 4 ≤ idx) (hupper : idx < 128)
    (hempty : ∀ i, idx ≤ i → i / 4 = idx / 4 → bins i = []) :
    Layout av lo hi (clearBlock av mem (2 ^ (idx / 4)) idx) P ts bins ∧
      Frames av lo stop (ofKind .used P ts) mem (NonOsLite.clearBlock av mem (2 ^ (idx / 4)) idx) := by
  have hlo : lo ≤ P := h.inside.elim (fun hnil => absurd hnil hts) And.left
  obtain ⟨hch, hmarked⟩ := h.rings.clearBlock h.marked (by omega) idx rfl hlower h.region.array
    hempty
  have hinner : Changes (inner av bins 0 0) mem (NonOsLite.clearBlock av mem (2 ^ (idx / 4)) idx) :=
    hch.mono (Set.singleton_subset_iff.mpr (.inl rfl))
  have hrings : Rings av (NonOsLite.clearBlock av mem (2 ^ (idx / 4)) idx) bins := by
    refine h.rings.frame h.region.array hch ?_
    intro i x hi hi' hx
    have hfront := (h.rings.ref hi hi' hx).not_front
    exact ⟨fun heq => hfront.1 (.inl heq), fun heq => hfront.2 (.inl heq)⟩
  exact ⟨h.relist hinner hts hrings hmarked h.stocked,
    h.frames_lists hinner hstop hend (by omega)⟩

theorem Marked.nextBlock (h : Marked av mem bins) (hlower : 4 ≤ idx) (hk : idx / 4 < 31)
    (hmore : 2 ^ (idx / 4 + 1) ≤ binblocks av mem) : ∃ m, idx < 4 * m ∧ m < 32 ∧
      nextBlock (binblocks av mem) 33 (idx / 4 * 4 + 4) (2 ^ (idx / 4 + 1)) =
        some (4 * m, 2 ^ (4 * m / 4)) ∧
      ∀ i, idx / 4 < i / 4 → i < 4 * m → bins i = [] := by
  have hbelow : binblocks av mem < 4294967296 := le32_lt _ _
  obtain ⟨j, hj, hbit⟩ := Nat.exists_ge_and_testBit_of_ge_two_pow hmore
  obtain ⟨m, hm, hm32, hnext, hskip⟩ := nextBlock_spec hbelow (by omega) 33
    (idx / 4 * 4 + 4) (by omega) ⟨j, hj, hbit⟩
  have hidx : idx / 4 * 4 + 4 + 4 * (m - (idx / 4 + 1)) = 4 * m := by omega
  have hdiv : 4 * m / 4 = m := by omega
  rw [hidx] at hnext
  refine ⟨m, by omega, hm32, by rw [hdiv, hnext], fun i hi hlt => ?_⟩
  exact marked_block h (by omega) (hskip (i / 4) (by omega) (by omega))

theorem Layout.searchBlocks (hreq : Padded nb) (hfuel : 536870912 < fuel) (hts : ts ≠ [])
    (hstop : 4 ∣ stop) (hend : P + total ts ≤ stop) (rounds : Nat) (mem : Buf) (idx : Nat)
    (h : Layout av lo hi mem P ts bins) (hfrom : SearchFrom (ofKind .free P ts) bins nb idx)
    (hrounds : 32 ≤ rounds + idx / 4) : ∃ mem' r,
      searchBlocks av fuel nb rounds mem idx (2 ^ (idx / 4)) = some (mem', r) ∧
        Searched av lo hi stop P nb mem mem' ts bins r := by
  induction rounds generalizing mem idx with
  | zero =>
    have := hfrom.upper
    omega
  | succ rounds ih =>
    have hlower := hfrom.lower
    have hupper := hfrom.upper
    rw [NonOsLite.searchBlocks]
    rcases h.scanBlock hreq hfuel 4 idx (by omega) (by omega) hupper with
      ⟨v, i, hrun, hfit⟩ | ⟨hrun, hsmall⟩
    · rw [hrun]
      refine ⟨mem, some v, rfl, h, Frames.refl mem, ?_, by simp⟩
      rintro v' hv'
      rwa [← Option.some.inj hv']
    · rw [hrun]
      simp only [Option.bind_eq_bind, Option.bind_some]
      have hempty (i : Nat) (hi : idx ≤ i) (hik : i / 4 = idx / 4) : bins i = [] := by
        by_contra hne
        obtain ⟨a, ha, z, hz, hfit⟩ := hfrom.fits i hi hne
        have := hsmall i a z hi (by omega) ha hz
        omega
      obtain ⟨hnew, hframes⟩ := h.clearBlock hts hstop hend hlower hupper hempty
      split_ifs with hmore
      · have hk : idx / 4 < 31 := by
          by_contra hge
          have hlast : idx / 4 = 31 := by omega
          rw [hlast] at hmore
          exact hmore.2 (by decide)
        rw [u32_double hk] at hmore ⊢
        obtain ⟨m, hm, hm32, hnext, hskip⟩ := hnew.marked.nextBlock hlower hk hmore.1
        rw [hnext]
        simp only [Option.bind_some]
        have hfrom' := hfrom.onward (n := 4 * m) (by omega) (by omega) fun i a z hi hlt ha hz => by
          rcases Nat.lt_or_ge (idx / 4) (i / 4) with hout | hin
          · rw [hskip i hout hlt] at ha
            exact absurd ha List.not_mem_nil
          · exact hsmall i a z hi (by omega) ha hz
        obtain ⟨mem', r, hsearch, hresult⟩ := ih _ (4 * m) hnew hfrom' (by omega)
        exact ⟨mem', r, hsearch, hresult.after hframes⟩
      · refine ⟨_, none, rfl, hnew, hframes, by simp, fun _ => hfrom.noFit ?_⟩
        intro i a z hi ha hz
        rcases Nat.lt_or_ge i (idx / 4 * 4 + 4) with hin | hout
        · exact hsmall i a z hi hin ha hz
        · have hi' := (h.rings.range i a ha).2
          rw [u32_double (by omega)] at hmore
          have hpos : 2 ^ (idx / 4 + 1) ≠ 0 := by positivity
          have hlt := not_le.mp fun hle => hmore ⟨hle, hpos⟩
          rw [marked_block hnew.marked (by omega) (unmarked_of_lt hlt (by omega))] at ha
          exact absurd ha List.not_mem_nil

theorem Layout.searchBins (h : Layout av lo hi mem P ts bins) (hreq : Padded nb)
    (hfuel : 536870912 < fuel) (hts : ts ≠ []) (hstop : 4 ∣ stop) (hend : P + total ts ≤ stop)
    (hfrom : SearchFrom (ofKind .free P ts) bins nb idx) : ∃ mem' r,
      searchBins av fuel mem nb idx = some (mem', r) ∧
        Searched av lo hi stop P nb mem mem' ts bins r := by
  have hlower := hfrom.lower
  have hupper := hfrom.upper
  have hbelow : binblocks av mem < 4294967296 := le32_lt _ _
  rw [NonOsLite.searchBins, idx2binblock]
  split_ifs with hsome hclear
  · rw [and_two_pow_eq_zero] at hclear
    obtain ⟨j, hj, hbit⟩ := Nat.exists_ge_and_testBit_of_ge_two_pow hsome
    have hne : j ≠ idx / 4 := by
      rintro rfl
      rw [hclear] at hbit
      exact absurd hbit (by decide)
    have hj32 : j < 32 := by
      by_contra hge
      rw [unmarked_of_lt (k := 32) (by omega) (not_lt.mp hge)] at hbit
      exact absurd hbit (by decide)
    have hmore : 2 ^ (idx / 4 + 1) ≤ binblocks av mem :=
      (Nat.pow_le_pow_right (by decide) (by omega)).trans (Nat.ge_two_pow_of_testBit hbit)
    rw [u32_double (by omega)]
    obtain ⟨m, hm, hm32, hnext, hskip⟩ := h.marked.nextBlock hlower (by omega) hmore
    rw [hnext]
    simp only [Option.bind_eq_bind, Option.bind_some]
    have hnew := hfrom.onward (n := 4 * m) (by omega) (by omega) fun i a z hi hlt ha hz => by
      rcases Nat.lt_or_ge (idx / 4) (i / 4) with hout | hin
      · rw [hskip i hout hlt] at ha
        exact absurd ha List.not_mem_nil
      · rw [show idx / 4 = i / 4 by omega] at hclear
        rw [marked_block h.marked (by omega) hclear] at ha
        exact absurd ha List.not_mem_nil
    exact Layout.searchBlocks hreq hfuel hts hstop hend 33 mem (4 * m) h hnew (by omega)
  · exact Layout.searchBlocks hreq hfuel hts hstop hend 33 mem idx h hfrom (by omega)
  · refine ⟨mem, none, rfl, h, Frames.refl mem, by simp, fun _ => hfrom.noFit ?_⟩
    intro i a z hi ha hz
    rw [marked_block h.marked (by omega) (unmarked_of_lt (not_le.mp hsome) (by omega))] at ha
    exact absurd ha List.not_mem_nil

end NonOsLite
