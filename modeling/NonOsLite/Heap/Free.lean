import NonOsLite.Heap.Trim

namespace NonOsLite
open ByteBuf Ring BoundaryTags

variable {av lo hi P a b n q x y z v c w fuel stop pad : Nat} {mem mem' : Buf}
  {ts pre back post : List Tile} {bins bins' : Bins} {s s' : Arena} {i : Nat} {xs ys : List Nat}

structure FrontOfTop (ts : List Tile) (P v z : Nat) (pre back : List Tile) (y : Nat) : Prop where
  tiles : ts = pre ++ (back ++ [⟨z, .used⟩] ++ [⟨y, .top⟩])
  place : v = P + total pre + total back
  before : lastKind .used pre = .used
  back : back = [] ∨ ∃ x, back = [⟨x, .free⟩]

structure JoinedTop (av P : Nat) (mem : Buf) (bins : Bins) (pre : List Tile) (mem' : Buf)
    (bins' : Bins) : Prop where
  rings : Rings av mem' bins'
  marked : Marked av mem' bins'
  stocked : Stocked bins' (ofKind .free P pre)
  changes : Changes (listWords av bins) mem mem'
  lists : listWords av bins' ⊆ listWords av bins

theorem Layout.around_top (h : Layout av lo hi mem P ts bins) (hm : (v, z) ∈ ofKind .used P ts)
    (htop : v + z = top av mem) : ∃ pre back y, FrontOfTop ts P v z pre back y := by
  obtain ⟨zs, y, hts, hplace⟩ := h.at_top (by rintro rfl; exact absurd hm (Set.notMem_empty _))
  obtain ⟨pre₀, t, post, hsplit, hv⟩ := h.used_at hm
  have htiled := h.tiled
  have hy : (P + total zs, y) ∈ ofKind .top P ts := by
    rw [hts]
    exact mem_ofKind_append_cons
  have ht : (v + z, t.size) ∈ ofKind t.kind P ts := by
    rw [hsplit, hv]
    exact next_mem
  have hkind : t.kind = .top := by
    rcases htiled.apart ht hy with ⟨-, -, hk⟩ | hside
    · exact hk
    · have := htiled.size ht
      have := htiled.size hy
      omega
  have hlist : ts = (pre₀ ++ [⟨z, .used⟩]) ++ ⟨t.size, .top⟩ :: post := by
    rw [hsplit, ← hkind]
    simp
  rw [hlist] at htiled
  obtain rfl := top_last htiled
  rw [List.append_assoc] at htiled
  obtain ⟨pre, back, rfl, hpre, hback⟩ := front_split htiled
  rw [total_append, ← Nat.add_assoc] at hv
  exact ⟨pre, back, t.size, by simpa using hlist, hv, hpre, hback⟩

section front

variable (h : Layout av lo hi mem P ts bins) (ha : FrontOfTop ts P v z pre back y)

include ha

theorem FrontOfTop.used_mem : (v, z) ∈ ofKind .used P ts := by
  have hmem : (P + total (pre ++ back), z) ∈
      ofKind .used P (pre ++ back ++ ⟨z, .used⟩ :: [⟨y, .top⟩]) := mem_ofKind_append_cons
  rw [ha.tiles, ha.place]
  simpa [Nat.add_assoc] using hmem

theorem FrontOfTop.top_mem : (v + z, y) ∈ ofKind .top P ts := by
  have hmem : (P + total (pre ++ (back ++ [⟨z, .used⟩])), y) ∈
      ofKind .top P (pre ++ (back ++ [⟨z, .used⟩]) ++ [⟨y, .top⟩]) := mem_ofKind_append_cons
  rw [ha.tiles, ha.place]
  simpa [Nat.add_assoc] using hmem

theorem FrontOfTop.total_eq : total ts = total pre + total back + z + y := by
  rw [ha.tiles]
  simp only [total_append, total_cons, total_nil]
  omega

theorem FrontOfTop.free_eq :
    ofKind .free P ts = ofKind .free P pre ∪ ofKind .free (P + total pre) back := by
  rw [ha.tiles, ofKind_append, ofKind_append, ofKind_append, ofKind_cons_ne (by simp), ofKind_nil,
    ofKind_cons_ne (by simp), ofKind_nil, Set.union_empty, Set.union_empty]

theorem FrontOfTop.used_eq (n : Nat) :
    ofKind .used P ts = insert (v, z) (ofKind .used P (pre ++ [⟨n, .top⟩])) := by
  have hnil (e : Nat) : ofKind .used e back = ∅ := by
    rcases ha.back with rfl | ⟨x, rfl⟩
    · rfl
    · exact ofKind_cons_ne (by simp)
  rw [ha.tiles, ofKind_append, ofKind_append, ofKind_append, ofKind_append, hnil, ofKind_cons_self,
    ofKind_nil, ofKind_cons_ne (t := ⟨y, .top⟩) (by simp), ofKind_nil,
    ofKind_cons_ne (t := ⟨n, .top⟩) (by simp), ofKind_nil, ← ha.place]
  simp only [Set.union_empty, Set.union_insert]

include h

theorem FrontOfTop.tags : Tiled (le32 mem) (P + total pre) .used back ∧
    Tagged (le32 mem) v (lastKind .used back) ⟨z, .used⟩ ∧
    Tagged (le32 mem) (v + z) .used ⟨y, .top⟩ := by
  have hlist : pre ++ (back ++ [⟨z, .used⟩] ++ [⟨y, .top⟩]) =
      pre ++ back ++ ⟨z, .used⟩ :: [⟨y, .top⟩] := by simp
  have htiled := h.tiled
  rw [ha.tiles, hlist, tiled_append, tiled_append, tiled_cons, tiled_cons, lastKind_append,
    ha.before, total_append, ← Nat.add_assoc, ← ha.place] at htiled
  exact ⟨htiled.1.2, htiled.2.1, htiled.2.2.1⟩

theorem FrontOfTop.join_used (hback : back = []) : prevInuse mem v ∧
    v = P + total pre ∧ JoinedTop av P mem bins pre mem bins := by
  subst hback
  have hhead := (ha.tags h).2.1.head
  have hz8 := (ha.tags h).2.1.aligned
  have hstocked := h.stocked
  rw [ha.free_eq, ofKind_nil, Set.union_empty] at hstocked
  dsimp only at hhead hz8
  refine ⟨?_, by simpa using ha.place, h.rings, h.marked, hstocked, Changes.refl _ _, subset_rfl⟩
  rw [prevInuse, size, hhead, lastKind_nil, bit_used]
  omega

theorem FrontOfTop.join_free (hback : back = [⟨x, .free⟩]) : ¬prevInuse mem v ∧
    prevSize mem v = x ∧ v - x = P + total pre ∧ ∃ bins',
      JoinedTop av P mem bins pre (unlink mem (P + total pre)) bins' := by
  subst hback
  have hav := h.region.array
  have hhead := (ha.tags h).2.1.head
  have hz8 := (ha.tags h).2.1.aligned
  have hfoot := (ha.tags h).1.1.foot rfl
  have hplace := ha.place
  have hstocked := h.stocked
  rw [ha.free_eq, ofKind_cons_self, ofKind_nil, Set.union_insert, Set.union_empty] at hstocked
  rw [total_cons, total_nil, Nat.add_zero] at hplace
  dsimp only at hhead hz8 hfoot hplace
  have hF : ∀ c ∈ ofKind .free P pre, c.1 ≠ P + total pre := by
    rintro ⟨c, d⟩ hc
    have hin := mem_ofKind_bounds hc
    have hd := h.tiled.size (n := c) (z := d) (j := .free) (by
      rw [ha.free_eq]
      exact .inl hc)
    dsimp only
    omega
  obtain ⟨i, hi⟩ := hstocked.found _ (Set.mem_insert _ _)
  obtain ⟨xs, ys, hsplit⟩ := List.append_of_mem hi
  obtain ⟨hi1, hi'⟩ := h.rings.range i _ hi
  refine ⟨?_, ?_, by omega, _, h.rings.unlink hav hi1 hi' hsplit,
    h.rings.marked_unlink h.marked hav hsplit, hstocked.remove h.rings hF hsplit,
    h.rings.unlink_changes hav hi1 hi' hsplit, listWords_update_subset ?_⟩
  · rw [prevInuse, size, hhead, lastKind_cons, lastKind_nil, bit_free]
    omega
  · rw [prevSize, hplace]
    exact hfoot
  · intro a ha
    rw [hsplit]
    simp only [List.mem_append, List.mem_cons] at ha ⊢
    tauto

theorem FrontOfTop.join : ∃ mem' bins',
    (if prevInuse mem v then (mem, v, u32 (z + y))
      else (unlink mem (v - prevSize mem v), v - prevSize mem v,
        u32 (u32 (z + y) + prevSize mem v))) =
      (mem', P + total pre, total (back ++ [⟨z, .used⟩]) + y) ∧
    JoinedTop av P mem bins pre mem' bins' := by
  have hbounds := h.bounds ha.used_mem
  have hbelow := h.region.below
  have htotal := ha.total_eq
  have hsum : total (back ++ [⟨z, .used⟩]) = total back + z := by
    rw [total_append, total_cons, total_nil, Nat.add_zero]
  rcases ha.back with hnil | ⟨x, hx⟩
  · obtain ⟨hused, hplace, hj⟩ := ha.join_used h hnil
    refine ⟨mem, bins, ?_, hj⟩
    rw [if_pos hused, ← hplace, u32_of_lt (by omega), hsum, hnil, total_nil, Nat.zero_add]
  · obtain ⟨hfree, hprev, hplace, bins', hj⟩ := ha.join_free h hx
    have hback : total back = x := by
      rw [hx, total_cons, total_nil, Nat.add_zero]
    refine ⟨_, bins', ?_, hj⟩
    rw [if_neg hfree, hprev, hplace, u32_of_lt (x := z + y) (by omega), u32_of_lt (by omega), hsum,
      hback]
    congr 2
    omega

theorem FrontOfTop.start : 8 ∣ P + total pre ∧ av + 1032 ≤ P + total pre ∧ P + total pre ≤ v ∧
    P + total pre + 4 ∉ listWords av bins := by
  have hbehind := h.region.behind
  have hplace := ha.place
  have htile : ∃ w k, (P + total pre, w) ∈ ofKind k P ts := by
    rw [ha.tiles]
    rcases ha.back with rfl | ⟨x, rfl⟩
    · exact ⟨z, .used, mem_ofKind_append_cons⟩
    · exact ⟨x, .free, mem_ofKind_append_cons⟩
  obtain ⟨w, k, hw⟩ := htile
  have hbounds := h.bounds hw
  have hnode := (h.node hw).aligned
  have hsize := h.tiled.size hw
  exact ⟨hnode, by omega, by omega, h.not_listWord hw le_rfl (by omega) (by omega) (by omega)⟩

end front

theorem newTop_words (hav : AvFits av) (hq4 : 4 ∣ q) (hbehind : av + 1032 ≤ q) (hq : q < 4294967296)
    (hn : n + 1 < 4294967296) (mem : Buf) :
    Changes {q + 4, av + 8} mem (setTop av (setHead mem q (n + 1)) q) ∧
      le32 (setTop av (setHead mem q (n + 1)) q) (q + 4) = n + 1 ∧
      top av (setTop av (setHead mem q (n + 1)) q) = q := by
  have hav4 := hav.aligned
  refine ⟨((Changes.refl _ mem).put (by omega) (.inl rfl)).put (by omega) (.inr rfl), ?_,
    le32_putLe32 hq⟩
  rw [setTop, le32_putLe32_ne (by omega) (by omega) (by omega)]
  exact le32_putLe32 hn

section grow

variable (h : Layout av lo hi mem P ts bins) (ha : FrontOfTop ts P v z pre back y)
  (hj : JoinedTop av P mem bins pre mem' bins') (hq : q = P + total pre)
  (hn : n = total (back ++ [⟨z, .used⟩]) + y)

include h ha hq hn

theorem FrontOfTop.new_size : 8 ∣ n ∧ q + n = P + total ts ∧ P + total ts ≤ hi := by
  have hbounds := h.bounds ha.used_mem
  have hplace := ha.place
  have htotal := ha.total_eq
  have hstart := (ha.start h).1
  have hv8 := (h.node ha.used_mem).aligned
  have hz8 := (h.tiled.size ha.used_mem).2.1
  have hy8 := (h.tiled.size ha.top_mem).2.1
  rw [total_append, total_cons, total_nil, Nat.add_zero] at hn
  dsimp only at hn
  omega

include hj

theorem FrontOfTop.grow :
    Layout av lo hi (setTop av (setHead mem' q (n ||| 1)) q) P (pre ++ [⟨n, .top⟩]) bins' ∧
      total (pre ++ [⟨n, .top⟩]) = total ts ∧
      Changes (touched av bins (q + 4) (q + 8)) mem (setTop av (setHead mem' q (n ||| 1)) q) := by
  have hav := h.region.array
  have hbelow := h.region.below
  obtain ⟨hq8, hbehind, -, hword⟩ := ha.start h
  obtain ⟨hn8, hlen, hend⟩ := ha.new_size h hq hn
  rw [← hq] at hq8 hbehind hword
  rw [or_one_of_dvd hn8]
  obtain ⟨hput, hhead, htop⟩ := newTop_words (n := n) hav (by omega) hbehind (by omega) (by omega) mem'
  generalize setTop av (setHead mem' q (n + 1)) q = mem₁ at hput hhead htop ⊢
  have htouched : Changes (touched av bins (q + 4) (q + 8)) mem mem₁ := by
    refine (hj.changes.mono (listWords_subset_inner.trans (Set.subset_insert _ _))).trans
      (hput.mono ?_)
    rintro c (rfl | rfl)
    · exact .inr (mem_inner_window le_rfl (by omega))
    · exact .inl rfl
  have hrings : Rings av mem₁ bins' := by
    refine hj.rings.frame_words hav hput ?_
    rintro c (rfl | rfl)
    · exact fun hin => hword (hj.lists hin)
    · exact hj.rings.front_not_listWord (.inr rfl)
  have hblocks : binblocks av mem₁ = binblocks av mem' := by
    refine binblocks_of_changes hav hput ?_
    simp only [Set.mem_insert_iff, Set.mem_singleton_iff]
    omega
  rw [ha.tiles] at h
  obtain ⟨hlayout, htotal⟩ := h.mergeTop ha.before (by rwa [← hq]) (by rwa [← hq, ← hn])
    (by rwa [← hq]) hrings (hj.marked.congr fun j hj => by rwa [hblocks]) hj.stocked
  rw [← hn] at hlayout htotal
  exact ⟨hlayout, htotal.trans (by rw [ha.tiles]), htouched⟩

theorem FrontOfTop.grow_frames (hstop : 4 ∣ stop) (hend : P + total ts ≤ stop) :
    ofKind .used P (pre ++ [⟨n, .top⟩]) = ofKind .used P ts \ {(v, z)} ∧
      Frames av lo stop (ofKind .used P ts \ {(v, z)}) mem
        (setTop av (setHead mem' q (n ||| 1)) q) := by
  obtain ⟨hlayout, -, htouched⟩ := ha.grow h hj hq hn
  have hbounds := h.bounds ha.used_mem
  have hsize := h.tiled.size ha.used_mem
  have hq' := (ha.start h).2.2.1
  have hfront {c d : Nat} (hc : (c, d) ∈ ofKind .used P (pre ++ [⟨n, .top⟩])) :
      c + d ≤ q ∧ 16 ≤ d := by
    refine ⟨?_, (hlayout.tiled.size hc).1⟩
    rw [ofKind_append, ofKind_cons_ne (by simp), ofKind_nil, Set.union_empty] at hc
    rw [hq]
    exact (mem_ofKind_bounds hc).2
  have hdiff : ofKind .used P (pre ++ [⟨n, .top⟩]) = ofKind .used P ts \ {(v, z)} := by
    rw [ha.used_eq n, Set.insert_sdiff_self_of_notMem]
    intro hin
    have := hfront hin
    omega
  refine ⟨hdiff, h.frames_apart Set.sdiff_subset ?_ htouched hstop (by omega) hend (by omega)
    (by omega)⟩
  intro c d hc
  rw [← hdiff] at hc
  exact .inl (by have := hfront hc; omega)

end grow

section free

variable (h : AtRest av s P ts bins) (hm : (v, z) ∈ ofKind .used P ts)

include h hm

theorem AtRest.freeIntoTop (htop : v + z = top av s.mem) :
    Owns av (freeIntoTop av s v (u32 (z + chunksize s.mem (v + z)))) (ofKind .used P ts \ {(v, z)}) ∧
      Kept av (ofKind .used P ts \ {(v, z)}) s
        (NonOsLite.freeIntoTop av s v (u32 (z + chunksize s.mem (v + z)))) := by
  obtain ⟨pre, back, y, ha⟩ := h.layout.around_top hm htop
  have hts : ts ≠ [] := by
    rintro rfl
    exact absurd hm (Set.notMem_empty _)
  obtain ⟨hbrk4, hbrk⟩ := h.brk hts
  obtain ⟨mem', bins', hrun, hj⟩ := ha.join h.layout
  obtain ⟨hlayout, htotal, -⟩ := ha.grow h.layout hj rfl rfl
  obtain ⟨hused, hframes⟩ := ha.grow_frames h.layout hj rfl rfl hbrk4 hbrk.le
  have hrest := h.withMem hlayout htotal hts
  have hkept := h.kept hframes
  unfold NonOsLite.freeIntoTop
  dsimp only
  rw [h.layout.chunksize_eq ha.top_mem, hrun]
  dsimp only
  split_ifs with htrim
  · obtain ⟨hholds, hkept'⟩ := hrest.mallocTrim topPad (by decide)
    rw [hused] at hholds hkept'
    exact ⟨hholds, hkept.trans hkept'⟩
  · refine ⟨?_, hkept⟩
    rw [← hused]
    exact hrest.holds

theorem AtRest.free (hfuel : 536870912 < fuel) : ∃ s', free av fuel s (v + 8) = some s' ∧
    Owns av s' (ofKind .used P ts \ {(v, z)}) ∧ Kept av (ofKind .used P ts \ {(v, z)}) s s' := by
  have hplace : mem2chunk (v + 8) = v := Nat.add_sub_cancel v 8
  have hts : ts ≠ [] := by
    rintro rfl
    exact absurd hm (Set.notMem_empty _)
  unfold NonOsLite.free
  dsimp only
  rw [if_neg (by omega), hplace, h.layout.size_half hm]
  split_ifs with htop
  · exact ⟨_, rfl, h.freeIntoTop hm htop⟩
  · obtain ⟨hbrk4, hbrk⟩ := h.brk hts
    obtain ⟨mem', ts', bins', hrun, hlayout, hused, htotal, hframes⟩ :=
      h.layout.freeIntoBin hm htop hfuel hbrk4 hbrk.le
    rw [hrun]
    refine ⟨_, rfl, ?_, h.kept hframes⟩
    rw [← hused]
    exact (h.withMem hlayout htotal hts).holds

end free

end NonOsLite
