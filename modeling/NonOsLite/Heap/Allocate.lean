import NonOsLite.Heap.Blocks

namespace NonOsLite
open ByteBuf Ring BoundaryTags

variable {av lo hi P a b n z v w nb stop fuel idx bytes : Nat} {mem mem' mem'' mem₁ : Buf}
  {ts pre : List Tile} {bins bins' bins₁ : Bins} {i j p : Nat} {xs ys : List Nat}
  {U F : Set (Nat × Nat)} {k : Kind} {s s' : Arena}

theorem Layout.not_listWord (h : Layout av lo hi mem P ts bins) (hn : (n, z) ∈ ofKind k P ts)
    (hlo : n + 4 ≤ w) (hhi : w < n + z + 4) (hfd : w ≠ n + 8) (hbk : w ≠ n + 12) :
    w ∉ listWords av bins := by
  have hbounds := h.bounds hn
  have hbehind := h.region.behind
  rintro (hin | ⟨j, c, hc, hlink⟩)
  · omega
  · have hne := h.not_link hn hlo hhi hfd hbk (h.rings.range j c hc).2 (List.mem_cons_of_mem _ hc)
    omega

theorem Layout.useFit (h : Layout av lo hi mem P ts bins) (hreq : Padded nb)
    (hempty : bins 1 = []) (hv : FitAt (ofKind .free P ts) bins nb v) (hstop : 4 ∣ stop)
    (hend : P + total ts ≤ stop) : Served av lo hi stop P nb mem (useFit av mem v nb) ts v := by
  obtain ⟨z, i, xs, ys, hone, hsplit, hm, hfit⟩ := hv
  have hav := h.region.array
  have hav4 := hav.aligned
  have hbehind := h.region.behind
  have hbounds := h.bounds hm
  have hnode := (h.node hm).aligned
  have hsize := h.tiled.size hm
  have hnb := hreq.below
  have hleast := hreq.least
  obtain ⟨hi, hi'⟩ := h.rings.range i v (by simp [hsplit])
  have hsub (j x : Nat) (hx : x ∈ Function.update bins i (xs ++ ys) j) : x ∈ bins j :=
    mem_of_update_remove hsplit hx
  have hgone (j : Nat) (_ : j ≠ 1) : v ∉ Function.update bins i (xs ++ ys) j := fun hj =>
    ((h.rings.mem_remove hsplit).mp hj).2 rfl
  rw [NonOsLite.useFit, h.chunksize_eq hm, h.remainderSize_eq hm (by omega), minsize]
  split_ifs with hbig
  · rw [show ((z : Int) - nb).toNat = z - nb by omega]
    have hhead : Changes {v + 4} mem (setHead mem v (nb ||| 1)) := changes_putLe32 (by omega)
    have hrings : Rings av (setHead mem v (nb ||| 1)) bins := by
      refine h.rings.frame hav hhead ?_
      intro j x _ hj' hx
      have hlink := h.not_link hm (w := v + 4) le_rfl (by omega) (by omega) (by omega) hj' hx
      simp only [Set.mem_singleton_iff]
      omega
    have hch := hrings.unlink_changes hav hi hi' hsplit
    have hother := h.not_listWord hm (w := v + 4) le_rfl (by omega) (by omega) (by omega)
    refine h.served_split hm hsplit hreq hstop hend (by omega) ?_
      (hrings.unlink hav hi hi' hsplit) hsub hgone rfl ?_ ?_ ?_
    · rwa [Function.update_of_ne hone.symm]
    · exact (hhead.mono (Set.singleton_subset_iff.mpr (mem_inner_window le_rfl (by omega)))).trans
        (hch.mono listWords_subset_inner)
    · rw [hch.le32 (by omega) hother, setHead, or_one_of_dvd hreq.aligned]
      exact le32_putLe32 (by omega)
    · rw [binblocks, hch.le32 (by omega) (fun hw => (not_mem_linkWords h.rings (h.node hm)
        (.inl rfl)) (.inl hw))]
      exact le32_putLe32_ne (by omega) (by omega) (by omega)
  · have hset := h.setInuse_rings hm h.rings fun _ _ hx => hx
    have hch := hset.unlink_changes hav hi hi' hsplit
    have hrefl := Changes.refl (listWords av bins) mem
    refine h.served_whole hm hsplit hstop hend hfit (by omega)
      ((h.setInuse_changes hm hrefl).trans (hch.mono listWords_subset_inner)) ?_
      (hset.unlink hav hi hi' hsplit) ?_
    · rw [hch.le32 (h.inuse_aligned hm) (h.inuse_outside hm).1, h.setInuse_word hm hrefl]
    · rw [binblocks, hch.le32 (by omega) (fun hw => (not_mem_linkWords h.rings (h.node hm)
        (.inl rfl)) (.inl hw))]
      exact h.setInuse_blocks hm

section cutTop

variable (h : Layout av lo hi mem P (pre ++ [⟨z, .top⟩]) bins) (hreq : Padded nb)
  (hrest : nb + 16 ≤ z)

include h hreq hrest

theorem Layout.cutTop_eq : cutTop av mem nb =
    putLe32 (putLe32 (putLe32 mem (P + total pre + 4) (nb + 1)) (av + 8) (P + total pre + nb))
      (P + total pre + nb + 4) (z - nb + 1) := by
  have hm : (P + total pre, z) ∈ ofKind .top P (pre ++ [⟨z, .top⟩]) := mem_ofKind_append_cons
  have hsize := h.tiled.size hm
  have hnb := hreq.below
  have hnb8 := hreq.aligned
  rw [NonOsLite.cutTop, h.top_eq, h.remainderSize_eq hm (by omega),
    show ((z : Int) - nb).toNat = z - nb by omega, or_one_of_dvd hnb8, or_one_of_dvd (by omega)]
  rfl

theorem Layout.cutTop_changes : Changes {P + total pre + 4, av + 8, P + total pre + nb + 4} mem
    (cutTop av mem nb) := by
  have hm : (P + total pre, z) ∈ ofKind .top P (pre ++ [⟨z, .top⟩]) := mem_ofKind_append_cons
  have hav4 := h.region.array.aligned
  have hnode := (h.node hm).aligned
  have hnb8 := hreq.aligned
  rw [h.cutTop_eq hreq hrest]
  exact (((Changes.refl _ mem).put (by omega) (.inl rfl)).put (by omega) (.inr (.inl rfl))).put
    (by omega) (.inr (.inr rfl))

theorem Layout.cutTop_rings : Rings av (cutTop av mem nb) bins := by
  have hm : (P + total pre, z) ∈ ofKind .top P (pre ++ [⟨z, .top⟩]) := mem_ofKind_append_cons
  have hbehind := h.region.behind
  have hbounds := h.bounds hm
  have hsize := h.tiled.size hm
  have hleast := hreq.least
  refine h.rings.frame h.region.array (h.cutTop_changes hreq hrest) ?_
  intro j x hj hj' hx
  have hfront := (h.rings.ref hj hj' hx).not_front
  have h1 := h.not_link hm (w := P + total pre + 4) le_rfl (by omega) (by omega) (by omega) hj' hx
  have h2 := h.not_link_other hm (w := P + total pre + nb + 4) (by omega) (by omega) hj' hx
  have hne : x ≠ P + total pre := by
    rintro rfl
    rcases List.mem_cons.mp hx with heq | hmem
    · rw [binAt] at heq
      omega
    · obtain ⟨y, hy⟩ := h.free_of_listed hmem
      rcases h.tiled.apart hm hy with ⟨-, -, hk⟩ | hside
      · exact absurd hk (by decide)
      · have := h.tiled.size hy
        omega
  have h2' := h2 hne
  simp only [Set.mem_insert_iff, Set.mem_singleton_iff, not_or] at hfront ⊢
  omega

theorem Layout.cutTop_words : le32 (cutTop av mem nb) (P + total pre + 4) = nb + 1 ∧
    le32 (cutTop av mem nb) (P + total pre + nb + 4) = z - nb + 1 ∧
    top av (cutTop av mem nb) = P + total pre + nb := by
  have hm : (P + total pre, z) ∈ ofKind .top P (pre ++ [⟨z, .top⟩]) := mem_ofKind_append_cons
  have hbehind := h.region.behind
  have hbelow := h.region.below
  have hbounds := h.bounds hm
  have hsize := h.tiled.size hm
  have hav4 := h.region.array.aligned
  have hnode := (h.node hm).aligned
  have hnb := hreq.below
  have hnb8 := hreq.aligned
  have hleast := hreq.least
  rw [h.cutTop_eq hreq hrest]
  refine ⟨?_, le32_putLe32 (by omega), ?_⟩
  · rw [le32_putLe32_ne (by omega) (by omega) (by omega),
      le32_putLe32_ne (by omega) (by omega) (by omega), le32_putLe32 (by omega)]
  · rw [top, le32_putLe32_ne (by omega) (by omega) (by omega), le32_putLe32 (by omega)]

theorem Layout.cutTop (hstop : 4 ∣ stop) (hend : P + total (pre ++ [⟨z, .top⟩]) ≤ stop) :
    top av mem = P + total pre ∧
      (∃ ts', Layout av lo hi (cutTop av mem nb) P ts' bins ∧
        ofKind .used P ts' = insert (P + total pre, nb) (ofKind .used P (pre ++ [⟨z, .top⟩])) ∧
        total ts' = total (pre ++ [⟨z, .top⟩])) ∧
      Frames av lo stop (ofKind .used P (pre ++ [⟨z, .top⟩])) mem (NonOsLite.cutTop av mem nb) ∧
      ∀ c, P + total pre + 8 ≤ c → c < P + total pre + nb + 4 →
        NonOsLite.cutTop av mem nb c = mem c := by
  have hm : (P + total pre, z) ∈ ofKind .top P (pre ++ [⟨z, .top⟩]) := mem_ofKind_append_cons
  have hav4 := h.region.array.aligned
  have hbehind := h.region.behind
  have hbounds := h.bounds hm
  have hnode := (h.node hm).aligned
  have hnb8 := hreq.aligned
  have hleast := hreq.least
  have hch := h.cutTop_changes hreq hrest
  have htouched : Changes (touched av bins (P + total pre + 4) (P + total pre + nb + 8)) mem
      (NonOsLite.cutTop av mem nb) := by
    refine hch.mono ?_
    rintro w (rfl | rfl | rfl)
    · exact .inr (mem_inner_window le_rfl (by omega))
    · exact .inl rfl
    · exact .inr (mem_inner_window (by omega) (by omega))
  have hblocks : binblocks av (NonOsLite.cutTop av mem nb) = binblocks av mem := by
    refine hch.le32 (by omega) ?_
    simp only [Set.mem_insert_iff, Set.mem_singleton_iff]
    omega
  obtain ⟨hhead, hremainder, hnewtop⟩ := h.cutTop_words hreq hrest
  obtain ⟨hlayout, hused, htotal⟩ := h.cut hleast hnb8 hrest htouched hhead hremainder hnewtop
    (h.cutTop_rings hreq hrest) (h.marked.congr fun l hl => by rwa [hblocks])
  refine ⟨h.top_eq, ⟨_, hlayout, hused, htotal⟩, ?_, ?_⟩
  · exact h.frames hm (by decide) htouched le_rfl (by omega) hstop hend (by omega)
  · intro c hc hc'
    refine hch c ?_
    simp only [Set.mem_insert_iff, Set.mem_singleton_iff]
    omega

end cutTop

theorem request2size_spec (h : bytes < 2147479525) :
    Padded (request2size bytes) ∧ bytes + 4 ≤ request2size bytes ∧
      request2size bytes ≤ bytes + 16 := by
  have hint : toInt32 (u32 (bytes + 11)) = bytes + 11 := by
    rw [toInt32, u32_of_lt (x := bytes + 11) (by omega), u32_of_lt (by omega), if_pos (by omega)]
    push_cast
    rfl
  rw [request2size, hint, u32_of_lt (by omega), minsize]
  split_ifs with hsmall
  · exact ⟨⟨le_rfl, by decide, by decide⟩, by omega, by omega⟩
  · exact ⟨⟨by omega, by omega, by omega⟩, by omega, by omega⟩

theorem Layout.retagTop (h : Layout av lo hi mem P (pre ++ [⟨z, .top⟩]) bins) (hn : 16 ≤ n)
    (hn8 : 8 ∣ n) (hend : P + total pre + n ≤ hi) :
    Layout av lo hi (setHead mem (P + total pre) (n + 1)) P (pre ++ [⟨n, .top⟩]) bins ∧
      ofKind .used P (pre ++ [⟨n, .top⟩]) = ofKind .used P (pre ++ [⟨z, .top⟩]) ∧
      top av (setHead mem (P + total pre) (n + 1)) = top av mem ∧
      Changes {P + total pre + 4} mem (setHead mem (P + total pre) (n + 1)) := by
  have hm : (P + total pre, z) ∈ ofKind .top P (pre ++ [⟨z, .top⟩]) := mem_ofKind_append_cons
  have hav4 := h.region.array.aligned
  have hbehind := h.region.behind
  have hbelow := h.region.below
  have hbounds := h.bounds hm
  have hnode := (h.node hm).aligned
  have hsize := h.tiled.size hm
  have hch : Changes {P + total pre + 4} mem (setHead mem (P + total pre) (n + 1)) :=
    changes_putLe32 (by omega)
  have hblocks : binblocks av (setHead mem (P + total pre) (n + 1)) = binblocks av mem :=
    le32_putLe32_ne (by omega) (by omega) (by omega)
  have hrings : Rings av (setHead mem (P + total pre) (n + 1)) bins := by
    refine h.rings.frame h.region.array hch ?_
    intro j x _ hj' hx
    have hlink := h.not_link hm (w := P + total pre + 4) le_rfl (by omega) (by omega)
      (by omega) hj' hx
    simp only [Set.mem_singleton_iff]
    omega
  obtain ⟨hlayout, hused⟩ := h.resizeTop (b := P + total pre + 8) hn hn8 hend (by omega)
    (hch.mono (Set.singleton_subset_iff.mpr (mem_inner_window le_rfl (by omega))))
    (le32_putLe32 (by omega)) hrings (h.marked.congr fun l hl => by rwa [hblocks])
  exact ⟨hlayout, hused, le32_putLe32_ne (by omega) (by omega) (by omega), hch⟩

end NonOsLite
