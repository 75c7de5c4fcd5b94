import NonOsLite.Heap.Edits

namespace NonOsLite
open ByteBuf Ring BoundaryTags

structure Frames (av lo stop : Nat) (U : Set (Nat × Nat)) (mem mem' : Buf) : Prop where
  used : ∀ x ∈ U, ∀ c, x.1 + 8 ≤ c → c < x.1 + x.2 + 4 → mem' c = mem c
  outside : ∀ c, c < lo ∧ (c < av ∨ av + 1032 ≤ c) ∨ stop ≤ c → mem' c = mem c

structure SearchFrom (F : Set (Nat × Nat)) (bins : Bins) (nb idx : Nat) : Prop where
  lower : 4 ≤ idx
  upper : idx < 128
  fits : ∀ i, idx ≤ i → bins i ≠ [] → ∃ a ∈ bins i, ∃ z, (a, z) ∈ F ∧ nb ≤ z
  small : ∀ i a z, 2 ≤ i → i < idx → a ∈ bins i → (a, z) ∈ F → z < nb

def ExactAt (F : Set (Nat × Nat)) (bins : Bins) (nb v : Nat) : Prop :=
  ∃ z i xs ys, bins i = xs ++ v :: ys ∧ (v, z) ∈ F ∧ nb ≤ z ∧ z < nb + 16

structure Padded (nb : Nat) : Prop where
  least : 16 ≤ nb
  aligned : 8 ∣ nb
  below : nb < 2147479536

variable {av lo hi P a b n z v w nb stop fuel idx : Nat} {mem mem' mem'' mem₁ : Buf}
  {ts pre mid mid' post : List Tile} {bins bins' bins₁ : Bins} {i j p s : Nat} {k : Kind}
  {xs ys : List Nat} {t : Tile} {U F : Set (Nat × Nat)}

theorem Frames.trans (h : Frames av lo stop U mem mem') (h' : Frames av lo stop U mem' mem'') :
    Frames av lo stop U mem mem'' :=
  ⟨fun x hx c hlo hhi => (h'.used x hx c hlo hhi).trans (h.used x hx c hlo hhi),
    fun c hc => (h'.outside c hc).trans (h.outside c hc)⟩

theorem Frames.refl (mem : Buf) : Frames av lo stop U mem mem := ⟨by simp, by simp⟩

section

variable (h : Layout av lo hi mem P ts bins)

include h

theorem Layout.room (hm : (v, z) ∈ ofKind k P ts) (hk : k ≠ .top) :
    v + z + 16 ≤ P + total ts := by
  obtain ⟨pre, rest, hsplit, rfl⟩ := mem_ofKind_split hm
  obtain ⟨t, post, rfl⟩ := h.next_of hsplit hk
  have htiled := h.tiled
  rw [hsplit, tiled_append, tiled_cons, tiled_cons] at htiled
  have hsize := htiled.2.2.1.size
  rw [hsplit, total_append, total_cons, total_cons]
  dsimp only
  omega

theorem Layout.frames_apart (hU : U ⊆ ofKind .used P ts)
    (hside : ∀ c y, (c, y) ∈ U → c + y + 4 ≤ a ∨ b ≤ c + 8)
    (hch : Changes (touched av bins a b) mem mem') (hstop : 4 ∣ stop) (hlo : lo ≤ stop)
    (hend : P + total ts ≤ stop) (ha : lo ≤ a) (hb : b ≤ stop) : Frames av lo stop U mem mem' := by
  constructor
  · rintro ⟨c, y⟩ hc x hlo hhi
    exact h.used_kept hch (hU hc) (hside c y hc) hlo hhi
  · intro c hc
    exact h.outside_kept hch hc hstop hlo hend ha hb

theorem Layout.frames (hm : (v, z) ∈ ofKind k P ts) (hk : k ≠ .used)
    (hch : Changes (touched av bins a b) mem mem') (ha : v + 4 ≤ a) (hb : b ≤ v + z + 8)
    (hstop : 4 ∣ stop) (hend : P + total ts ≤ stop) (hbs : b ≤ stop) :
    Frames av lo stop (ofKind .used P ts) mem mem' := by
  have hbounds := h.bounds hm
  refine h.frames_apart subset_rfl ?_ hch hstop (by omega) hend (by omega) hbs
  intro c y hc
  rcases h.tiled.apart hm hc with ⟨-, -, heq⟩ | hfront | hback
  · exact absurd heq hk
  · exact .inr (by omega)
  · exact .inl (by omega)

theorem Layout.frames_lists (hch : Changes (inner av bins a a) mem mem') (hstop : 4 ∣ stop)
    (hend : P + total ts ≤ stop) (hlo : lo ≤ stop) :
    Frames av lo stop (ofKind .used P ts) mem mem' := by
  have hempty : inner av bins a a ⊆ touched av bins lo lo := by
    refine Set.Subset.trans ?_ (Set.subset_insert _ _)
    refine Set.insert_subset_insert (Set.union_subset_union_left _ ?_)
    intro x hx
    simp only [Set.mem_ofPred_eq] at hx
    omega
  refine h.frames_apart subset_rfl ?_ (hch.mono hempty) hstop hlo hend le_rfl hlo
  intro c y hc
  have hbounds := h.bounds hc
  exact .inr (by omega)

theorem Layout.relist (hch : Changes (inner av bins a a) mem mem') (hts : ts ≠ [])
    (hrings : Rings av mem' bins') (hmarked : Marked av mem' bins')
    (hstocked : Stocked bins' (ofKind .free P ts)) : Layout av lo hi mem' P ts bins' := by
  have hnil : ts ++ [] ++ [] = ts := by simp
  have hlo : lo ≤ P := h.inside.elim (fun hnil => absurd hnil hts) And.left
  have hempty (c : Nat) : inner av bins a a ⊆ inner av bins c c := by
    refine Set.insert_subset_insert (Set.union_subset_union_left _ ?_)
    intro x hx
    simp only [Set.mem_ofPred_eq] at hx
    omega
  have hch' := hch.mono (hempty (P + total ts + 4))
  have hfull : Layout av lo hi mem P (ts ++ [] ++ []) bins := by rwa [hnil]
  have htiled := (hfull.sides (hch'.mono (Set.subset_insert _ _)) le_rfl (by simp)).1
  refine ⟨h.region, h.inside, h.aligned, htiled, hrings, hstocked, hmarked, ?_⟩
  rw [h.top_kept hch' (by omega)]
  exact h.topped.elim (fun hfresh => absurd hfresh.1 hts) .inr

theorem Layout.remainderSize_eq (hm : (v, z) ∈ ofKind k P ts) (hnb : nb < 2147483648) :
    remainderSize mem v nb = (z : Int) - nb := by
  have hbounds := h.bounds hm
  have hspan := h.region.span
  rw [remainderSize, h.chunksize_eq hm, toInt32, sub32, u32]
  split_ifs <;> omega

theorem Layout.size_unique {y : Nat} (hz : (v, z) ∈ ofKind k P ts)
    (hy : (v, y) ∈ ofKind k P ts) : z = y := by
  rcases h.tiled.apart hz hy with ⟨-, heq, -⟩ | hside
  · exact heq
  · have := h.tiled.size hz
    have := h.tiled.size hy
    omega

theorem Layout.class_eq (hp : p ∈ bins i) (hi : i ≠ 1) (hz : (p, z) ∈ ofKind .free P ts) :
    binIndex z = i := by
  obtain ⟨y, hy, hclass⟩ := h.stocked.listed i p hp
  rw [h.size_unique hz hy]
  exact hclass.resolve_left hi

end

theorem Rings.last (h : Rings av mem bins) (hi : 1 ≤ i) (hi' : i < 128) :
    bins i = [] ∧ bk mem (binAt av i) = binAt av i ∨
      ∃ xs v, bins i = xs ++ [v] ∧ bk mem (binAt av i) = v ∧ v ≠ binAt av i := by
  have hback := (h.ring i hi hi').prev_head
  rcases List.eq_nil_or_concat (bins i) with hnil | ⟨xs, v, hsplit⟩
  · rw [hnil] at hback
    exact .inl ⟨hnil, hback⟩
  · rw [hsplit, List.concat_eq_append, before_append] at hback
    rw [List.concat_eq_append] at hsplit
    exact .inr ⟨xs, v, hsplit, hback, (h.node i v (by simp [hsplit])).ne_binAt hi'⟩

theorem smaller_of_class {y : Nat} (h : binIndex z < binIndex y) : z < y := by
  by_contra hge
  exact absurd (binIndex_mono (not_lt.mp hge)) (by omega)

theorem Layout.exactFit_small (h : Layout av lo hi mem P ts bins) (hreq : Padded nb)
    (hsmall : nb < 504) :
    (∃ v, exactFit av fuel mem nb = some (.inl v) ∧ ExactAt (ofKind .free P ts) bins nb v) ∨
      ∃ idx, exactFit av fuel mem nb = some (.inr idx) ∧
        (binIndex nb < idx ∨ binIndex nb = idx ∧ bins idx ≠ []) ∧
        SearchFrom (ofKind .free P ts) bins nb idx := by
  obtain ⟨hleast, haligned, -⟩ := hreq
  have hnext : binAt av (nb / 8) + 8 = binAt av (nb / 8 + 1) := by
    rw [binAt, binAt]
    omega
  have hexact {i v : Nat} {xs : List Nat} (hi : i = nb / 8 ∨ i = nb / 8 + 1)
      (hsplit : bins i = xs ++ [v]) : ExactAt (ofKind .free P ts) bins nb v := by
    have hv : v ∈ bins i := by simp [hsplit]
    obtain ⟨z, hz⟩ := h.free_of_listed hv
    have hbin := h.class_eq hv (by omega) hz
    have hz8 := (h.tiled.size hz).2.1
    have hidx := small_of_binIndex (s := z) (by omega)
    exact ⟨z, i, xs, [], hsplit, hz, by omega, by omega⟩
  rw [exactFit, if_pos hsmall]
  dsimp only
  rw [smallbinIndex]
  rcases h.rings.last (i := nb / 8) (by omega) (by omega) with
    ⟨hnil, hback⟩ | ⟨xs, v, hsplit, hback, hne⟩
  · rw [if_pos hback, hnext]
    rcases h.rings.last (i := nb / 8 + 1) (by omega) (by omega) with
      ⟨hnil', hback'⟩ | ⟨xs, v, hsplit, hback', hne⟩
    · rw [hback', if_neg (by simp)]
      have hidx : binIndex nb = nb / 8 := binIndex_small (by omega)
      refine .inr ⟨_, rfl, .inl (by omega), by omega, by omega, ?_, ?_⟩
      · intro i hi hfull
        obtain ⟨a, ha⟩ := List.exists_mem_of_ne_nil _ hfull
        obtain ⟨z, hz⟩ := h.free_of_listed ha
        have hbin := h.class_eq ha (by omega) hz
        refine ⟨a, ha, z, hz, (smaller_of_class ?_).le⟩
        rw [hbin, binIndex_small (by omega)]
        omega
      · intro i a z hi hlt ha hz
        have hne : i ≠ nb / 8 ∧ i ≠ nb / 8 + 1 := by
          constructor
          · rintro rfl
            simp [hnil] at ha
          · rintro rfl
            simp [hnil'] at ha
        refine smaller_of_class ?_
        rw [h.class_eq ha (by omega) hz, binIndex_small (by omega)]
        omega
    · rw [hback', if_pos hne]
      exact .inl ⟨v, rfl, hexact (.inr rfl) hsplit⟩
  · rw [hback, if_neg hne, hback, if_pos hne]
    exact .inl ⟨v, rfl, hexact (.inl rfl) hsplit⟩

theorem Layout.exactFit_large (h : Layout av lo hi mem P ts bins) (hreq : Padded nb)
    (hlarge : ¬nb < 504) (hfuel : 536870912 < fuel) :
    (∃ v, exactFit av fuel mem nb = some (.inl v) ∧ ExactAt (ofKind .free P ts) bins nb v) ∨
      ∃ idx, exactFit av fuel mem nb = some (.inr idx) ∧
        (binIndex nb < idx ∨ binIndex nb = idx ∧ bins idx ≠ []) ∧
        SearchFrom (ofKind .free P ts) bins nb idx := by
  have hnb := hreq.below
  have hlo : 63 ≤ binIndex nb := binIndex_mono (a := 504) (by omega)
  have hhi := binIndex_lt nb
  have hback := (h.rings.ring (binIndex nb) (by omega) (by omega)).prev_head
  have hlen := (h.rings.length_le (binIndex nb)).trans_lt hfuel
  have hlower {i a z : Nat} (hi : 2 ≤ i) (hlt : i < binIndex nb) (ha : a ∈ bins i)
      (hz : (a, z) ∈ ofKind .free P ts) : z < nb := by
    refine smaller_of_class ?_
    rwa [h.class_eq ha (by omega) hz]
  have hhigher {i : Nat} (hi : binIndex nb < i) (hfull : bins i ≠ []) :
      ∃ a ∈ bins i, ∃ z, (a, z) ∈ ofKind .free P ts ∧ nb ≤ z := by
    obtain ⟨a, ha⟩ := List.exists_mem_of_ne_nil _ hfull
    obtain ⟨z, hz⟩ := h.free_of_listed ha
    refine ⟨a, ha, z, hz, (smaller_of_class ?_).le⟩
    rwa [h.class_eq ha (by omega) hz]
  rw [exactFit, if_neg hlarge]
  dsimp only
  rw [hback]
  rcases h.rings.firstFit (i := binIndex nb) (by omega) (by omega) nb (List.append_nil _).symm hlen
    with ⟨hnone, hsmaller⟩ | ⟨zs, v, zs', hsplit, hfound, hfit, -⟩
  · rw [hnone]
    refine .inr ⟨binIndex nb + 1, rfl, .inl (by omega), by omega, by omega,
      fun i hi => hhigher (by omega), ?_⟩
    intro i a z hi hlt ha hz
    rcases Nat.lt_succ_iff_lt_or_eq.mp hlt with hlt | rfl
    · exact hlower hi hlt ha hz
    · have hneg := hsmaller a ha
      rw [h.remainderSize_eq hz (by omega)] at hneg
      omega
  · rw [hfound]
    have hv : v ∈ bins (binIndex nb) := by simp [hsplit]
    obtain ⟨z, hz⟩ := h.free_of_listed hv
    have hrest : remainderSize mem v nb = (z : Int) - nb := h.remainderSize_eq hz (by omega)
    simp only [Option.bind_eq_bind, Option.bind_some, hrest]
    rw [hrest] at hfit
    split_ifs with hbig
    · rw [minsize] at hbig
      refine .inr ⟨binIndex nb, rfl, .inr ⟨rfl, List.ne_nil_of_mem hv⟩, by omega, by omega, ?_,
        fun i a z hi hlt => hlower hi hlt⟩
      intro i hi hfull
      rcases Nat.eq_or_lt_of_le hi with rfl | hlt
      · exact ⟨v, hv, z, hz, by omega⟩
      · exact hhigher hlt hfull
    · rw [minsize] at hbig
      exact .inl ⟨v, rfl, z, binIndex nb, zs, zs', hsplit, hz, by omega, by omega⟩

structure Served (av lo hi stop P nb : Nat) (mem mem' : Buf) (ts : List Tile) (v : Nat) : Prop where
  layout : ∃ z ts' bins', Layout av lo hi mem' P ts' bins' ∧
    ofKind .used P ts' = insert (v, z) (ofKind .used P ts) ∧ nb ≤ z ∧ z < nb + 16 ∧
      total ts' = total ts
  new : ∀ y, (v, y) ∉ ofKind .used P ts
  frames : Frames av lo stop (ofKind .used P ts) mem mem'

theorem mem_inner_window (hlo : a ≤ w) (hhi : w < b) : w ∈ inner av bins a b :=
  .inr (.inl ⟨hlo, hhi⟩)

theorem listWords_subset_inner : listWords av bins ⊆ inner av bins a b :=
  fun _ hw => .inr (.inr hw)

theorem inner_mono {c d : Nat} (hc : c ≤ a) (hd : b ≤ d) : inner av bins a b ⊆ inner av bins c d := by
  refine Set.insert_subset_insert (Set.union_subset_union_left _ ?_)
  intro w hw
  simp only [Set.mem_ofPred_eq] at hw ⊢
  omega

section splitting

variable (h : Layout av lo hi mem P ts bins) (hm : (v, z) ∈ ofKind .free P ts)
  (hreq : Padded nb) (hrest : nb + 16 ≤ z) (hrings : Rings av mem₁ bins₁)
  (hsub : ∀ j x, x ∈ bins₁ j → x ∈ bins j) (hgone : ∀ j, j ≠ 1 → v ∉ bins₁ j)
  (hch : Changes (inner av bins (v + 4) (v + 8)) mem mem₁) (hhead : le32 mem₁ (v + 4) = nb + 1)

include h hm hreq hrest

theorem Layout.remainder_node : IsNode av (v + nb) := by
  have hbounds := h.bounds hm
  have hnode := (h.node hm).aligned
  have hbehind := h.region.behind
  have hbelow := h.region.below
  have hnb8 := hreq.aligned
  exact ⟨by omega, by omega, .inr (by omega)⟩

theorem Layout.remainder_new : ∀ j, v + nb ∉ bins j := by
  intro j hj
  have hleast := hreq.least
  obtain ⟨y, hy⟩ := h.free_of_listed hj
  have hsize := h.tiled.size hy
  rcases h.tiled.apart hm hy with ⟨heq, -, -⟩ | hside
  · omega
  · omega

include hch

theorem Layout.splitRemainder_changes : Changes (inner av bins (v + 4) (v + z + 4)) mem
    (splitRemainder av mem₁ v nb (z - nb)) := by
  have hnode := (h.node hm).aligned
  have hleast := hreq.least
  have hnb8 := hreq.aligned
  have hz8 := (h.tiled.size hm).2.1
  have hlink := linkLastRemainder_changes mem₁ bins h.region.array
    (h.remainder_node hm hreq hrest)
  rw [splitRemainder]
  refine (((hch.mono (inner_mono le_rfl (by omega))).trans (hlink.mono ?_)).put (by omega)
    (mem_inner_window (by omega) (by omega))).put (by omega)
      (mem_inner_window (by omega) (by omega))
  refine Set.union_subset listWords_subset_inner ?_
  rintro w (rfl | rfl)
  · exact mem_inner_window (by omega) (by omega)
  · exact mem_inner_window (by omega) (by omega)

omit hch in
include hhead in
theorem Layout.splitRemainder_words :
    le32 (splitRemainder av mem₁ v nb (z - nb)) (v + 4) = nb + 1 ∧
      le32 (splitRemainder av mem₁ v nb (z - nb)) (v + nb + 4) = z - nb + 1 ∧
      le32 (splitRemainder av mem₁ v nb (z - nb)) (v + z) = z - nb ∧
      binblocks av (splitRemainder av mem₁ v nb (z - nb)) = binblocks av mem₁ := by
  have hbounds := h.bounds hm
  have hbehind := h.region.behind
  have hspan := h.region.span
  have hbelow := h.region.below
  have hav := h.region.array.aligned
  have hnode := (h.node hm).aligned
  have hleast := hreq.least
  have hnb8 := hreq.aligned
  have hz8 := (h.tiled.size hm).2.1
  have hrem8 : 8 ∣ z - nb := by omega
  have hlink := linkLastRemainder_changes mem₁ (fun _ => []) h.region.array
    (h.remainder_node hm hreq hrest)
  have hend : v + nb + (z - nb) = v + z := by omega
  rw [splitRemainder, setFoot, setHead, hend, or_one_of_dvd hrem8]
  refine ⟨?_, ?_, ?_, ?_⟩
  · rw [le32_putLe32_ne (by omega) (by omega) (by omega),
      le32_putLe32_ne (by omega) (by omega) (by omega), hlink.le32 (by omega) ?_, hhead]
    simp only [listWords, Set.mem_union, Set.mem_ofPred_eq, List.not_mem_nil, false_and,
      exists_false, or_false, Set.mem_insert_iff, Set.mem_singleton_iff]
    omega
  · rw [le32_putLe32_ne (by omega) (by omega) (by omega), le32_putLe32 (by omega)]
  · exact le32_putLe32 (by omega)
  · rw [binblocks, le32_putLe32_ne (by omega) (by omega) (by omega),
      le32_putLe32_ne (by omega) (by omega) (by omega)]
    refine hlink.le32 (by omega) ?_
    simp only [listWords, Set.mem_union, Set.mem_ofPred_eq, List.not_mem_nil, false_and,
      exists_false, or_false, Set.mem_insert_iff, Set.mem_singleton_iff]
    omega

omit hch in
include hrings hsub hgone in
theorem Layout.splitRemainder_rings :
    Rings av (splitRemainder av mem₁ v nb (z - nb)) (Function.update bins₁ 1 [v + nb]) := by
  have hbounds := h.bounds hm
  have hbehind := h.region.behind
  have hnode := (h.node hm).aligned
  have hleast := hreq.least
  have hnb8 := hreq.aligned
  have hz8 := (h.tiled.size hm).2.1
  have hlinked := hrings.linkLastRemainder h.region.array (h.remainder_node hm hreq hrest)
    fun j _ hj => h.remainder_new hm hreq hrest j (hsub j _ hj)
  have hend : v + nb + (z - nb) = v + z := by omega
  have hput : Changes {v + nb + 4, v + z} (linkLastRemainder av mem₁ (v + nb))
      (splitRemainder av mem₁ v nb (z - nb)) := by
    rw [splitRemainder, setFoot, setHead, hend]
    exact ((Changes.refl _ _).put (by omega) (.inl rfl)).put (by omega) (.inr rfl)
  refine hlinked.frame h.region.array hput ?_
  intro j x hj hj' hx
  have hwindow (w : Nat) (hw : w = v + nb + 4 ∨ w = v + z) : w ≠ x + 8 ∧ w ≠ x + 12 := by
    rcases List.mem_cons.mp hx with rfl | hmem
    · rw [binAt]
      omega
    · rcases eq_or_ne j 1 with rfl | hne
      · rw [Function.update_self, List.mem_singleton] at hmem
        omega
      · rw [Function.update_of_ne hne] at hmem
        refine h.not_link_other hm (by omega) (by omega) hj' (List.mem_cons_of_mem _
          (hsub j x hmem)) ?_
        rintro rfl
        exact hgone j hne hmem
  have hrem := hwindow _ (.inl rfl)
  have hfoot := hwindow _ (.inr rfl)
  simp only [Set.mem_insert_iff, Set.mem_singleton_iff]
  omega

end splitting

section serving

variable (h : Layout av lo hi mem P ts bins) (hm : (v, z) ∈ ofKind .free P ts)
  (hsplit : bins i = xs ++ v :: ys) (hreq : Padded nb) (hstop : 4 ∣ stop)
  (hend : P + total ts ≤ stop)

include h hm hsplit hreq hstop hend

theorem Layout.served_split (hrest : nb + 16 ≤ z)
    (hempty : Function.update bins i (xs ++ ys) 1 = [])
    (hrings : Rings av mem₁ bins₁) (hsub : ∀ j x, x ∈ bins₁ j → x ∈ bins j)
    (hgone : ∀ j, j ≠ 1 → v ∉ bins₁ j)
    (hbins : Function.update bins₁ 1 [v + nb] =
      Function.update (Function.update bins i (xs ++ ys)) 1 [v + nb])
    (hch : Changes (inner av bins (v + 4) (v + 8)) mem mem₁) (hhead : le32 mem₁ (v + 4) = nb + 1)
    (hblocks : binblocks av mem₁ = binblocks av mem) :
    Served av lo hi stop P nb mem (splitRemainder av mem₁ v nb (z - nb)) ts v := by
  have hroom := h.room hm (by decide)
  have hchanges := h.splitRemainder_changes hm hreq hrest hch
  obtain ⟨hw, hrem, hfoot, hbits⟩ := h.splitRemainder_words hm hreq hrest hhead
  have hnew := h.splitRemainder_rings hm hreq hrest hrings hsub hgone
  have hmarked : Marked av (splitRemainder av mem₁ v nb (z - nb))
      (Function.update (Function.update bins i (xs ++ ys)) 1 [v + nb]) := by
    refine ((h.marked.remove hsplit).update_last _).congr ?_
    intro k hk
    rwa [hbits, hblocks]
  rw [hbins] at hnew
  obtain ⟨ts', hlayout, hused, htotal⟩ := h.split hsplit hm hreq.least hreq.aligned hrest hempty
    hchanges hw hrem hfoot hnew hmarked
  refine ⟨⟨nb, ts', _, hlayout, hused, le_rfl, by omega, htotal⟩, h.not_used hm (by decide), ?_⟩
  exact h.frames hm (by decide) (hchanges.mono (Set.subset_insert _ _)) le_rfl (by omega) hstop
    hend (by omega)

omit hreq in
theorem Layout.served_whole (hfit : nb ≤ z) (hexact : z < nb + 16)
    (hch : Changes (inner av bins (v + z + 4) (v + z + 8)) mem mem')
    (hword : le32 mem' (v + z + 4) = le32 mem (v + z + 4) ||| 1)
    (hrings : Rings av mem' (Function.update bins i (xs ++ ys)))
    (hblocks : binblocks av mem' = binblocks av mem) :
    Served av lo hi stop P nb mem mem' ts v := by
  have hroom := h.room hm (by decide)
  have hmarked : Marked av mem' (Function.update bins i (xs ++ ys)) := by
    refine (h.marked.remove hsplit).congr ?_
    intro k hk
    rwa [hblocks]
  obtain ⟨ts', hlayout, hused, htotal⟩ := h.use hsplit hm hch hword hrings hmarked
  refine ⟨⟨z, ts', _, hlayout, hused, hfit, hexact, htotal⟩, h.not_used hm (by decide), ?_⟩
  exact h.frames hm (by decide) (hch.mono (Set.subset_insert _ _)) (by omega) (by omega) hstop
    hend (by omega)

end serving

section inuse

variable (h : Layout av lo hi mem P ts bins) (hm : (v, z) ∈ ofKind .free P ts)

include h hm

theorem Layout.inuse_aligned : 4 ∣ v + z + 4 := by
  have hnode := (h.node hm).aligned
  have hz8 := (h.tiled.size hm).2.1
  omega

theorem Layout.inuse_not_link {x : Nat} (hi' : i < 128) (hx : x ∈ binAt av i :: bins i) :
    x + 8 ∉ ({v + z + 4} : Set Nat) ∧ x + 12 ∉ ({v + z + 4} : Set Nat) := by
  obtain ⟨pre, t, post, rfl, rfl, hpre, ht⟩ := h.free_at hm
  have htags := tiled_mid h.tiled
  rw [tiled_cons, tiled_cons] at htags
  have ht16 := htags.2.1.size
  have hne := h.not_link (w := P + total pre + z + 4) next_mem le_rfl (by omega) (by omega)
    (by omega) hi' hx
  simp only [Set.mem_singleton_iff]
  omega

theorem Layout.inuse_outside : v + z + 4 ∉ listWords av bins ∧ v + z + 4 ≠ av + 4 := by
  have hbounds := h.bounds hm
  have hbehind := h.region.behind
  refine ⟨?_, by omega⟩
  rintro (hin | ⟨j, c, hc, hlink⟩)
  · omega
  · have hne := h.inuse_not_link hm (h.rings.range j c hc).2 (List.mem_cons_of_mem _ hc)
    simp only [Set.mem_singleton_iff] at hne
    omega

theorem Layout.setInuse_rings (hrings : Rings av mem₁ bins₁)
    (hsub : ∀ j x, x ∈ bins₁ j → x ∈ bins j) :
    Rings av (setInuseBitAtOffset mem₁ v z) bins₁ := by
  refine hrings.frame h.region.array (changes_putLe32 (h.inuse_aligned hm)) ?_
  intro j x hj hj' hx
  refine h.inuse_not_link hm hj' ?_
  rcases List.mem_cons.mp hx with rfl | hmem
  · exact List.mem_cons_self
  · exact List.mem_cons_of_mem _ (hsub j x hmem)

theorem Layout.setInuse_word (hch : Changes (listWords av bins) mem mem₁) :
    le32 (setInuseBitAtOffset mem₁ v z) (v + z + 4) = le32 mem (v + z + 4) ||| 1 := by
  have hsame := hch.le32 (h.inuse_aligned hm) (h.inuse_outside hm).1
  have hlt := le32_lt mem (v + z + 4)
  rw [setInuseBitAtOffset, setHead, size, hsame]
  refine le32_putLe32 ?_
  rw [or_one]
  omega

theorem Layout.setInuse_changes (hch : Changes (listWords av bins) mem mem₁) :
    Changes (inner av bins (v + z + 4) (v + z + 8)) mem (setInuseBitAtOffset mem₁ v z) :=
  (hch.mono listWords_subset_inner).put (h.inuse_aligned hm) (mem_inner_window le_rfl (by omega))

theorem Layout.setInuse_blocks : binblocks av (setInuseBitAtOffset mem₁ v z) = binblocks av mem₁ :=
  le32_putLe32_ne (h.inuse_aligned hm) (by have := h.region.array.aligned; omega)
    (h.inuse_outside hm).2.symm

end inuse

theorem blocks_of_lists (h : Layout av lo hi mem P ts bins)
    (hch : Changes (listWords av bins) mem mem₁) : binblocks av mem₁ = binblocks av mem := by
  refine binblocks_of_changes h.region.array hch ?_
  rintro (hin | ⟨j, c, hc, hlink⟩)
  · omega
  · have := (h.rings.node j c hc).outside
    omega

theorem mem_of_update_remove (hsplit : bins i = xs ++ v :: ys) {x : Nat}
    (hx : x ∈ Function.update bins i (xs ++ ys) j) : x ∈ bins j := by
  rcases eq_or_ne j i with rfl | hne
  · rw [Function.update_self] at hx
    rw [hsplit]
    simp only [List.mem_append, List.mem_cons] at hx ⊢
    tauto
  · rwa [Function.update_of_ne hne] at hx

theorem Layout.takeExact (h : Layout av lo hi mem P ts bins)
    (hv : ExactAt (ofKind .free P ts) bins nb v) (hstop : 4 ∣ stop) (hend : P + total ts ≤ stop) :
    Served av lo hi stop P nb mem (takeExact mem v) ts v := by
  obtain ⟨z, i, xs, ys, hsplit, hm, hfit, hexact⟩ := hv
  obtain ⟨hi, hi'⟩ := h.rings.range i v (by simp [hsplit])
  have hch := h.rings.unlink_changes h.region.array hi hi' hsplit
  have hunlinked := h.rings.unlink h.region.array hi hi' hsplit
  have hsub (j x : Nat) (hx : x ∈ Function.update bins i (xs ++ ys) j) : x ∈ bins j :=
    mem_of_update_remove hsplit hx
  rw [NonOsLite.takeExact, h.chunksize_eq hm]
  exact h.served_whole hm hsplit hstop hend hfit hexact (h.setInuse_changes hm hch)
    (h.setInuse_word hm hch) (h.setInuse_rings hm hunlinked hsub)
    ((h.setInuse_blocks hm).trans (blocks_of_lists h hch))

theorem listWords_update_subset {zs : List Nat} (hzs : ∀ x ∈ zs, x ∈ bins i) :
    listWords av (Function.update bins i zs) ⊆ listWords av bins := by
  rintro w (hin | ⟨j, c, hc, hlink⟩)
  · exact .inl hin
  · rcases eq_or_ne j i with rfl | hne
    · rw [Function.update_self] at hc
      exact .inr ⟨j, c, hzs c hc, hlink⟩
    · rw [Function.update_of_ne hne] at hc
      exact .inr ⟨j, c, hc, hlink⟩

section shelve

variable {zs zs' : List Nat} (h : Layout av lo hi mem P ts bins)
  (hm : (v, z) ∈ ofKind .free P ts)
  (hput : Function.update bins 1 [] (binIndex z) = zs ++ zs') (hsplit : bins 1 = [v])

include h hm hput

theorem Layout.shelve_from (hfrom : SearchFrom (ofKind .free P ts) bins nb idx) (hsmall : z < nb)
    (hidx : binIndex nb < idx ∨ binIndex nb = idx ∧ bins idx ≠ []) :
    SearchFrom (ofKind .free P ts)
      (Function.update (Function.update bins 1 []) (binIndex z) (zs ++ v :: zs')) nb idx := by
  have hmono := binIndex_mono hsmall.le
  have hclass := le_binIndex (h.tiled.size hm).1
  have hlower := hfrom.lower
  have hold {i a : Nat} (ha : a ∈ bins i) (hi : i ≠ 1) : a ∈ Function.update
      (Function.update bins 1 []) (binIndex z) (zs ++ v :: zs') i := by
    refine (mem_insert hput).mpr (.inl ?_)
    rwa [Function.update_of_ne hi]
  refine ⟨hlower, hfrom.upper, ?_, ?_⟩
  · intro i hi hfull
    have hfull' : bins i ≠ [] := by
      rcases eq_or_ne i (binIndex z) with rfl | hne
      · rcases hidx with hlt | ⟨heq, hne⟩
        · omega
        · rwa [show binIndex z = idx by omega]
      · rwa [Function.update_of_ne hne, Function.update_of_ne (by omega)] at hfull
    obtain ⟨a, ha, y, hy, hfit⟩ := hfrom.fits i hi hfull'
    exact ⟨a, hold ha (by omega), y, hy, hfit⟩
  · intro i a y hi hlt ha hy
    rcases (mem_insert hput).mp ha with hmem | ⟨rfl, rfl⟩
    · rw [Function.update_of_ne (by omega)] at hmem
      exact hfrom.small i a y hi hlt hmem hy
    · rw [h.size_unique hy hm]
      exact hsmall

include hsplit

theorem Layout.shelve_stocked :
    Stocked (Function.update (Function.update bins 1 []) (binIndex z) (zs ++ v :: zs'))
      (ofKind .free P ts) := by
  have hnil : bins 1 = [] ++ v :: [] := hsplit
  have hclass := le_binIndex (h.tiled.size hm).1
  have hF : ofKind .free P ts = insert (v, z) {x ∈ ofKind .free P ts | x.1 ≠ v} := by
    ext ⟨c, y⟩
    simp only [Set.mem_insert_iff, Prod.mk.injEq]
    constructor
    · intro hc
      rcases eq_or_ne c v with rfl | hne
      · exact .inl ⟨rfl, h.size_unique hc hm⟩
      · exact .inr ⟨hc, hne⟩
    · rintro (⟨rfl, rfl⟩ | hc)
      · exact hm
      · exact hc.1
  have hstocked := h.stocked
  rw [hF] at hstocked ⊢
  exact (hstocked.remove h.rings (fun x hx => hx.2) hnil).insert hput rfl (by omega)

end shelve

theorem Layout.shelve (h : Layout av lo hi mem P ts bins) (hts : ts ≠ [])
    (hsplit : bins 1 = [v]) (hm : (v, z) ∈ ofKind .free P ts)
    (hfrom : SearchFrom (ofKind .free P ts) bins nb idx) (hsmall : z < nb)
    (hidx : binIndex nb < idx ∨ binIndex nb = idx ∧ bins idx ≠ []) (hfuel : 536870912 < fuel)
    (hstop : 4 ∣ stop) (hend : P + total ts ≤ stop) : ∃ mem' bins',
      frontlink av fuel (clearLastRemainder av mem) v z = some mem' ∧
      Layout av lo hi mem' P ts bins' ∧ bins' 1 = [] ∧
      SearchFrom (ofKind .free P ts) bins' nb idx ∧
      Frames av lo stop (ofKind .used P ts) mem mem' := by
  have hz := h.tiled.size hm
  have hbounds := h.bounds hm
  have hav := h.region.array
  have hnil : bins 1 = [] ++ v :: [] := hsplit
  have hclear := h.rings.clearLastRemainder hav
  have hclearch := clearLastRemainder_changes mem bins hav
  have hgone (j : Nat) : v ∉ Function.update bins 1 [] j := by
    intro hj
    exact ((h.rings.mem_remove hnil).mp hj).2 rfl
  obtain ⟨mem', zs, zs', hrun, hf⟩ := hclear.frontlink hav (h.node hm) hgone hz.1 hfuel
  have hclass := le_binIndex hz.1
  have hstocked := h.shelve_stocked hm hf.split hsplit
  have hcleared : Marked av (clearLastRemainder av mem) (Function.update bins 1 []) := by
    refine (h.marked.remove hnil).congr ?_
    intro k hk
    rwa [blocks_of_lists h hclearch]
  have hsub : listWords av (Function.update bins 1 []) ∪ {av + 4, v + 8, v + 12} ⊆
      inner av bins 0 0 := by
    refine Set.union_subset ((listWords_update_subset (by simp)).trans listWords_subset_inner) ?_
    have hv : v ∈ bins 1 := by simp [hsplit]
    rintro w (rfl | rfl | rfl)
    · exact .inl rfl
    · exact .inr (.inr (.inr ⟨1, v, hv, .inl rfl⟩))
    · exact .inr (.inr (.inr ⟨1, v, hv, .inr rfl⟩))
  have hchanges : Changes (inner av bins 0 0) mem mem' :=
    (hclearch.mono listWords_subset_inner).trans (hf.changes.mono hsub)
  refine ⟨mem', _, hrun, h.relist hchanges hts hf.rings (hcleared.frontlink hf) hstocked, ?_,
    h.shelve_from hm hf.split hfrom hsmall hidx,
    h.frames_lists hchanges hstop hend (by omega)⟩
  rw [Function.update_of_ne (by omega), Function.update_self]

theorem Layout.fd_lastRemainder (h : Layout av lo hi mem P ts bins) :
    bins 1 = [] ∧ fd mem (lastRemainder av) = lastRemainder av ∨
      ∃ v z, bins 1 = [v] ∧ fd mem (lastRemainder av) = v ∧ v ≠ lastRemainder av ∧
        (v, z) ∈ ofKind .free P ts := by
  have hfirst := (h.rings.ring 1 le_rfl (by decide)).next_head
  rcases eq_or_ne (bins 1) [] with hnil | hfull
  · rw [hnil] at hfirst
    exact .inl ⟨hnil, hfirst⟩
  · obtain ⟨v, hv⟩ := List.exists_mem_of_ne_nil _ hfull
    obtain ⟨z, hz⟩ := h.free_of_listed hv
    have hone := h.stocked.eq_of_single hv
    rw [hone] at hfirst
    exact .inr ⟨v, z, hone, hfirst, (h.node hz).ne_binAt (by decide), hz⟩

theorem Layout.useLastRemainder (h : Layout av lo hi mem P ts bins) (hts : ts ≠ [])
    (hreq : Padded nb) (hfrom : SearchFrom (ofKind .free P ts) bins nb idx)
    (hidx : binIndex nb < idx ∨ binIndex nb = idx ∧ bins idx ≠ []) (hfuel : 536870912 < fuel)
    (hstop : 4 ∣ stop) (hend : P + total ts ≤ stop) :
    (∃ mem' bins', useLastRemainder av fuel mem nb = some (mem', none) ∧
        Layout av lo hi mem' P ts bins' ∧ bins' 1 = [] ∧
        SearchFrom (ofKind .free P ts) bins' nb idx ∧
        Frames av lo stop (ofKind .used P ts) mem mem') ∨
      ∃ mem' v, useLastRemainder av fuel mem nb = some (mem', some v) ∧
        Served av lo hi stop P nb mem mem' ts v := by
  rw [NonOsLite.useLastRemainder]
  dsimp only
  rcases h.fd_lastRemainder with ⟨hnil, hfd⟩ | ⟨v, z, hone, hfd, hne, hm⟩
  · rw [if_pos hfd]
    exact .inl ⟨mem, bins, rfl, h, hnil, hfrom, Frames.refl mem⟩
  · have hsplit : bins 1 = [] ++ v :: [] := hone
    have hgone (j : Nat) (hj : j ≠ 1) : v ∉ bins j := fun hv =>
      hj (h.rings.once j 1 v hv (by simp [hone]))
    have hnb := hreq.below
    have hleast := hreq.least
    have hsize := h.tiled.size hm
    have hnode := (h.node hm).aligned
    have hav := h.region.array.aligned
    have hbounds := h.bounds hm
    have hbehind := h.region.behind
    rw [hfd, if_neg hne, h.remainderSize_eq hm (by omega), h.chunksize_eq hm, minsize]
    split_ifs with hbig hfit
    · refine .inr ⟨_, v, rfl, ?_⟩
      rw [show ((z : Int) - nb).toNat = z - nb by omega]
      have hhead : Changes {v + 4} mem (setHead mem v (nb ||| 1)) := changes_putLe32 (by omega)
      refine h.served_split hm hsplit hreq hstop hend (by omega) ?_
        (h.rings.frame h.region.array hhead ?_) (fun _ _ hx => hx) hgone ?_
        (hhead.mono ?_) ?_ ?_
      · rw [Function.update_self, List.nil_append]
      · intro j x _ hj' hx
        have hlink := h.not_link hm (w := v + 4) le_rfl (by omega) (by omega) (by omega) hj' hx
        simp only [Set.mem_singleton_iff]
        omega
      · rw [Function.update_idem]
      · exact Set.singleton_subset_iff.mpr (mem_inner_window le_rfl (by omega))
      · rw [setHead, or_one_of_dvd hreq.aligned]
        exact le32_putLe32 (by omega)
      · exact le32_putLe32_ne (by omega) (by omega) (by omega)
    · refine .inr ⟨_, v, rfl, ?_⟩
      have hclear := clearLastRemainder_changes mem bins h.region.array
      refine h.served_whole hm hsplit hstop hend (by omega) (by omega) (h.setInuse_changes hm hclear)
        (h.setInuse_word hm hclear) (h.setInuse_rings hm
          (h.rings.clearLastRemainder h.region.array) ?_)
        ((h.setInuse_blocks hm).trans (blocks_of_lists h hclear))
      intro j x hx
      exact mem_of_update_remove hsplit hx
    · obtain ⟨mem', bins', hrun, hrest⟩ := h.shelve hts hone hm hfrom (by omega) hidx hfuel hstop hend
      rw [hrun]
      exact .inl ⟨mem', bins', rfl, hrest⟩

end NonOsLite
