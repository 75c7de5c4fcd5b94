import NonOsLite.Heap.Merging

namespace NonOsLite
open ByteBuf Ring BoundaryTags

variable {av lo hi P a b n q x y z v c fuel stop : Nat} {mem mem' : Buf}
  {ts pre back fwd post rest : List Tile} {t : Tile} {bins bins' : Bins} {F O : Set (Nat × Nat)}
  {m : Merge} {i : Nat} {xs ys : List Nat} {word : Nat → Nat}

theorem front_split (h : Tiled word a .used (rest ++ t :: post)) : ∃ pre back, rest = pre ++ back ∧
    lastKind .used pre = .used ∧ (back = [] ∨ ∃ x, back = [⟨x, .free⟩]) := by
  rw [tiled_append, tiled_cons] at h
  obtain ⟨hrest, ht, -⟩ := h
  rcases List.eq_nil_or_concat rest with rfl | ⟨pre, ⟨x, k⟩, rfl⟩
  · exact ⟨[], [], rfl, rfl, .inl rfl⟩
  · rw [List.concat_eq_append] at hrest ht ⊢
    cases k with
    | used => exact ⟨pre ++ [⟨x, .used⟩], [], by simp, by simp, .inl rfl⟩
    | free =>
      rw [tiled_append, tiled_cons] at hrest
      refine ⟨pre, [⟨x, .free⟩], rfl, ?_, .inr ⟨x, rfl⟩⟩
      rcases hrest.2.1.joined with hused | ⟨-, hk⟩
      · exact hused
      · simp at hk
    | top =>
      rcases ht.joined with hk | ⟨hk, -⟩
      · simp at hk
      · simp at hk

structure Around (ts : List Tile) (P v z : Nat) (pre back fwd : List Tile) (t : Tile)
    (post : List Tile) : Prop where
  tiles : ts = pre ++ (back ++ ⟨z, .used⟩ :: fwd ++ [t]) ++ post
  place : v = P + total pre + total back
  before : lastKind .used pre = .used
  after : t.kind = .used
  back : back = [] ∨ ∃ x, back = [⟨x, .free⟩]
  fwd : fwd = [] ∨ ∃ y, fwd = [⟨y, .free⟩]

theorem Layout.around (h : Layout av lo hi mem P ts bins) (hm : (v, z) ∈ ofKind .used P ts)
    (hne : v + z ≠ top av mem) : ∃ pre back fwd t post, Around ts P v z pre back fwd t post := by
  obtain ⟨pre₀, t₀, post₀, hts, hv⟩ := h.used_at hm
  have htiled := h.tiled
  have hfront := htiled
  rw [hts, List.append_assoc, List.cons_append] at hfront
  obtain ⟨pre, back, rfl, hpre, hback⟩ := front_split hfront
  rw [total_append, ← Nat.add_assoc] at hv
  obtain ⟨n, k⟩ := t₀
  cases k with
  | used => exact ⟨pre, back, [], ⟨n, .used⟩, post₀, by simp [hts], hv, hpre, rfl, hback, .inl rfl⟩
  | free =>
    have hsplit : ts = (pre ++ back ++ [⟨z, .used⟩]) ++ ⟨n, .free⟩ :: post₀ := by simp [hts]
    obtain ⟨t, post, rfl⟩ := h.next_of hsplit (by decide)
    rw [hsplit, tiled_append, tiled_cons, tiled_cons] at htiled
    refine ⟨pre, back, [⟨n, .free⟩], t, post, by simp [hts], hv, hpre, ?_, hback, .inr ⟨n, rfl⟩⟩
    exact htiled.2.2.1.joined.elim (fun hfree => by simp at hfree) And.right
  | top =>
    have hsplit : ts = (pre ++ back ++ [⟨z, .used⟩]) ++ ⟨n, .top⟩ :: post₀ := by simp [hts]
    rw [hsplit] at htiled
    obtain rfl := top_last htiled
    have hfull := h
    rw [hsplit] at hfull
    have htop := hfull.top_eq
    simp only [total_append, total_cons, total_nil] at htop
    exact absurd htop.symm (by omega)

def others (P : Nat) (pre : List Tile) (e : Nat) (post : List Tile) : Set (Nat × Nat) :=
  ofKind .free P pre ∪ ofKind .free e post

theorem Layout.size_half (h : Layout av lo hi mem P ts bins) {k : Kind}
    (hm : (v, z) ∈ ofKind k P ts) : size mem v / 2 * 2 = z := by
  obtain ⟨pre, rest, hsplit, rfl⟩ := mem_ofKind_split hm
  have htiled := h.tiled
  rw [hsplit, tiled_append, tiled_cons] at htiled
  have hhead := htiled.2.1.head
  have haligned := htiled.2.1.aligned
  have hbit := bit_le (lastKind .used pre)
  dsimp only at hhead haligned
  rw [size, hhead]
  omega

section behind

variable (h : Layout av lo hi mem P ts bins)

include h

theorem Layout.behind_used (hm : (v, z) ∈ ofKind .used P ts) :
    ∃ y k, (v + z, y) ∈ ofKind k P ts ∧ le32 mem (v + z + 4) = y + 1 := by
  obtain ⟨pre, t, post, rfl, rfl⟩ := h.used_at hm
  have htags := tiled_mid h.tiled
  rw [tiled_cons, tiled_cons] at htags
  exact ⟨t.size, t.kind, next_mem, htags.2.1.head⟩

end behind

section around

variable (h : Layout av lo hi mem P ts bins) (ha : Around ts P v z pre back fwd t post)

include ha

theorem Around.free_eq : ofKind .free P ts = ofKind .free (P + total pre) back ∪
    (ofKind .free (v + z) fwd ∪ others P pre (v + z + total fwd + t.size) post) := by
  have hafter : t.kind ≠ .free := by simp [ha.after]
  have hend : P + total pre + total (back ++ ⟨z, .used⟩ :: fwd ++ [t]) =
      v + z + total fwd + t.size := by
    simp only [total_append, total_cons, total_nil]
    have := ha.place
    omega
  rw [ha.tiles, ofKind_around, hend, List.append_assoc, List.cons_append, ofKind_append,
    ofKind_cons_ne (t := ⟨z, .used⟩) (by simp), ofKind_append, ofKind_cons_ne hafter, ofKind_nil,
    Set.union_empty, ← ha.place, others, Set.union_assoc]

theorem Around.used_mem : (v, z) ∈ ofKind .used P ts := by
  have hmem : (P + total (pre ++ back), z) ∈
      ofKind .used P (pre ++ back ++ ⟨z, .used⟩ :: (fwd ++ [t] ++ post)) := mem_ofKind_append_cons
  rw [ha.tiles, ha.place]
  simpa [Nat.add_assoc] using hmem

theorem Around.after_mem : (v + z + total fwd, t.size) ∈ ofKind .used P ts := by
  have hmem : (P + total (pre ++ (back ++ ⟨z, .used⟩ :: fwd)), t.size) ∈
      ofKind t.kind P (pre ++ (back ++ ⟨z, .used⟩ :: fwd) ++ ⟨t.size, t.kind⟩ :: post) :=
    mem_ofKind_append_cons
  have hplace : P + total (pre ++ (back ++ ⟨z, .used⟩ :: fwd)) = v + z + total fwd := by
    simp only [total_append, total_cons]
    have := ha.place
    omega
  rw [hplace, ha.after] at hmem
  rw [ha.tiles]
  have hlist : pre ++ (back ++ ⟨z, .used⟩ :: fwd ++ [t]) ++ post =
      pre ++ (back ++ ⟨z, .used⟩ :: fwd) ++ ⟨t.size, .used⟩ :: post := by
    rw [← ha.after]
    simp
  rwa [hlist]

theorem Around.no_kind {k : Kind} (hk : k ≠ .free) (e : Nat) :
    ofKind k e back = ∅ ∧ ofKind k e fwd = ∅ := by
  have hone (x : Nat) : ofKind k e [⟨x, .free⟩] = ∅ := ofKind_cons_ne hk.symm
  constructor
  · rcases ha.back with rfl | ⟨x, rfl⟩
    · rfl
    · exact hone x
  · rcases ha.fwd with rfl | ⟨y, rfl⟩
    · rfl
    · exact hone y

theorem Around.used_eq (n : Nat) (hn : P + total pre + n = v + z + total fwd) :
    ofKind .used P ts = insert (v, z) (ofKind .used P (pre ++ [⟨n, .free⟩, t] ++ post)) := by
  have hend : P + total pre + total (back ++ ⟨z, .used⟩ :: fwd ++ [t]) =
      P + total pre + total [⟨n, .free⟩, t] := by
    simp only [total_append, total_cons, total_nil]
    have := ha.place
    omega
  rw [ha.tiles, ofKind_around, ofKind_around, hend, ofKind_append, ofKind_append,
    (ha.no_kind (by decide) _).1, ofKind_cons_self, (ha.no_kind (by decide) _).2,
    ofKind_cons_ne (t := ⟨n, .free⟩) (by simp), total_append, total_cons, ← Nat.add_assoc,
    ← Nat.add_assoc, ← ha.place, hn]
  ext x
  simp only [Set.mem_union, Set.mem_insert_iff, Set.mem_empty_iff_false]
  tauto

include h

theorem Around.tags : Tiled (le32 mem) (P + total pre) .used back ∧
    Tagged (le32 mem) v (lastKind .used back) ⟨z, .used⟩ ∧ Tiled (le32 mem) (v + z) .used fwd ∧
    Tagged (le32 mem) (v + z + total fwd) (lastKind .used fwd) t := by
  have htiled := h.tiled
  rw [ha.tiles] at htiled
  have hmid := tiled_mid htiled
  rw [ha.before, List.append_assoc, tiled_append, List.cons_append, tiled_cons, tiled_append,
    tiled_cons, ← ha.place] at hmid
  exact ⟨hmid.1, hmid.2.1, hmid.2.2.1, hmid.2.2.2.1⟩

theorem Around.others_apart {x : Nat × Nat}
    (hx : x ∈ others P pre (v + z + total fwd + t.size) post) :
    x.1 < P + total pre ∨ v + z + total fwd + t.size ≤ x.1 := by
  obtain ⟨c, y⟩ := x
  rcases hx with hc | hc
  · have hbounds := mem_ofKind_bounds hc
    have hmem : (c, y) ∈ ofKind .free P ts := by
      rw [ha.free_eq]
      exact .inr (.inr (.inl hc))
    have := h.tiled.size hmem
    exact .inl (by dsimp only; omega)
  · exact .inr (mem_ofKind_bounds hc).1

end around

theorem Layout.used_unlisted (h : Layout av lo hi mem P ts bins)
    (hm : (v, z) ∈ ofKind .used P ts) (j : Nat) : v ∉ bins j := by
  intro hj
  obtain ⟨y, hy⟩ := h.free_of_listed hj
  rcases h.tiled.apart hm hy with ⟨-, -, hk⟩ | hside
  · exact absurd hk (by decide)
  · have := h.tiled.size hm
    have := h.tiled.size hy
    omega

section stages

variable (h : Layout av lo hi mem P ts bins) (ha : Around ts P v z pre back fwd t post)

include h ha

theorem Around.start (n : Nat) :
    Merging av bins (ofKind .free P ts) v z ⟨setHead mem (v + z) n, v, z, false⟩ := by
  have hav := h.region.array
  have hav4 := hav.aligned
  have hm := ha.used_mem
  have hnode := (h.node hm).aligned
  have hsize := h.tiled.size hm
  have hbounds := h.bounds hm
  have hbehind := h.region.behind
  have hch : Changes {v + z + 4} mem (setHead mem (v + z) n) := changes_putLe32 (by omega)
  obtain ⟨y, k, hy, -⟩ := h.behind_used hm
  have hword : v + z + 4 ∉ listWords av bins := by
    have := h.tiled.size hy
    exact h.not_listWord hy le_rfl (by omega) (by omega) (by omega)
  refine ⟨rfl, rfl, h.rings.frame_words hav hch ?_, h.marked.congr ?_, ?_,
    fun _ => ⟨h.stocked, h.used_unlisted hm⟩⟩
  · rintro w rfl
    exact hword
  · intro k hk
    rwa [binblocks_of_changes hav hch (by simp only [Set.mem_singleton_iff]; omega)]
  · intro htrue
    simp at htrue

theorem Around.joinBack (hm : Merging av bins (ofKind .free P ts) v z m) (hislr : m.islr = false)
    (hch : Changes {v + z + 4} mem m.mem) : ∃ m' bins',
      (if size mem v % 2 = 1 then m else consolidateBackward av m) = m' ∧
      Merging av bins' (ofKind .free (v + z) fwd ∪ others P pre (v + z + total fwd + t.size) post)
        (P + total pre) (z + total back) m' ∧
      Changes (listWords av bins) m.mem m'.mem ∧ listWords av bins' ⊆ listWords av bins := by
  have hused := ha.used_mem
  have hnode := (h.node hused).aligned
  have hsize := h.tiled.size hused
  have hbounds := h.bounds hused
  have hbelow := h.region.below
  obtain ⟨hback, htag, -, -⟩ := ha.tags h
  have hhead := htag.head
  have hz8 := htag.aligned
  have hplace := ha.place
  have heq := ha.free_eq
  dsimp only at hhead hz8
  rw [size, hhead]
  rcases ha.back with rfl | ⟨x, rfl⟩
  · rw [lastKind_nil, bit_used, if_pos (by omega)]
    rw [ofKind_nil, Set.empty_union] at heq
    rw [total_nil, Nat.add_zero] at hplace
    rw [heq, hplace] at hm
    exact ⟨m, bins, rfl, by simpa [hplace] using hm, Changes.refl _ _, subset_rfl⟩
  · rw [lastKind_cons, lastKind_nil, bit_free, if_neg (by omega)]
    rw [ofKind_cons_self, ofKind_nil, Set.insert_union, Set.empty_union] at heq
    rw [total_cons, total_nil] at hplace ⊢
    have hfoot := hback.1.foot rfl
    dsimp only at hplace hfoot ⊢
    have hprev : prevSize m.mem v = x := by
      rw [prevSize, hch.le32 (by omega) (by simp only [Set.mem_singleton_iff]; omega), hplace]
      exact hfoot
    have hF : ∀ c ∈ ofKind .free (v + z) fwd ∪ others P pre (v + z + total fwd + t.size) post,
        c.1 ≠ P + total pre := by
      rintro ⟨c, y⟩ (hc | hc)
      · have := (mem_ofKind_bounds hc).1
        dsimp only
        omega
      · have := ha.others_apart h hc
        omega
    rw [heq] at hm
    obtain ⟨bins', hjoined, hchanges, hsub⟩ := hm.backward h.region.array hislr hprev (by omega) hF
      (by omega)
    exact ⟨_, bins', rfl, hjoined, hchanges, hsub⟩

theorem Around.joinFront (hm : Merging av bins' (ofKind .free (v + z) fwd ∪
      others P pre (v + z + total fwd + t.size) post) q y m) (hnode : IsNode av q) (hq : q ≤ v)
    (hsum : y ≤ v + z)
    (hsub : listWords av bins' ⊆ listWords av bins)
    (hch : Changes (insert (v + z + 4) (listWords av bins)) mem m.mem) : ∃ m' bins'',
      (if inuseBitAtOffset m.mem (v + z) (chunksize mem (v + z)) then m
        else consolidateForward av m (v + z) (chunksize mem (v + z))) = m' ∧
      Merging av bins'' (others P pre (v + z + total fwd + t.size) post) q (y + total fwd) m' ∧
      Changes (listWords av bins ∪ {q + 8, q + 12}) m.mem m'.mem ∧
      listWords av bins'' ⊆ listWords av bins ∪ {q + 8, q + 12} := by
  have hused := ha.used_mem
  have hbounds := h.bounds hused
  have hsize := h.tiled.size hused
  have hav := h.region.array
  have hnode' := (h.node hused).aligned
  have hbelow := h.region.below
  have hafter := ha.after_mem
  obtain ⟨-, -, hfwd, htag⟩ := ha.tags h
  have hword {c y : Nat} {k : Kind} (hc : (c, y) ∈ ofKind k P ts) (hlt : v + z < c)
      (h4 : 4 ∣ c) : le32 m.mem (c + 4) = le32 mem (c + 4) := by
    have hy := h.tiled.size hc
    refine hch.le32 (by omega) ?_
    rintro (hw | hw)
    · omega
    · exact h.not_listWord hc le_rfl (by omega) (by omega) (by omega) hw
  rcases ha.fwd with rfl | ⟨c, rfl⟩
  · rw [total_nil, Nat.add_zero] at hafter htag ⊢
    rw [ofKind_nil, Set.empty_union] at hm
    have ht := h.tiled.size hafter
    obtain ⟨c, k, hc, hhead⟩ := h.behind_used hafter
    have hc8 := (h.tiled.size hc).2.1
    have hinuse : inuseBitAtOffset m.mem (v + z) t.size := by
      rw [inuseBitAtOffset, prevInuse, size, hword hc (by omega) (by omega), hhead]
      omega
    rw [h.chunksize_eq hafter, if_pos hinuse]
    exact ⟨m, bins', rfl, hm, Changes.refl _ _, hsub.trans Set.subset_union_left⟩
  · have hc : (v + z, c) ∈ ofKind .free P ts := by
      rw [ha.free_eq, ofKind_cons_self]
      exact .inr (.inl (.inl rfl))
    have hsize' := h.tiled.size hc
    have hbounds' := h.bounds hc
    have hhead := htag.head
    have ht8 := htag.aligned
    rw [ofKind_cons_self, ofKind_nil, Set.insert_union, Set.empty_union] at hm
    rw [total_cons, total_nil] at hhead hafter hm ⊢
    rw [lastKind_cons, lastKind_nil, bit_free] at hhead
    simp only [Nat.add_zero] at hhead hafter hm ⊢
    have hplace := ha.place
    have hfree : ¬inuseBitAtOffset m.mem (v + z) c := by
      rw [inuseBitAtOffset, prevInuse, size, hword hafter (by omega) (by omega), hhead]
      omega
    have hF : ∀ a ∈ others P pre (v + z + c + t.size) post, a.1 ≠ v + z := by
      intro a hin
      have hside := ha.others_apart h (x := a)
      simp only [total_cons, total_nil, Nat.add_zero] at hside
      have := hside hin
      omega
    rw [h.chunksize_eq hc, if_neg hfree]
    obtain ⟨bins'', hjoined, hchanges, hsub'⟩ := hm.forward hav hnode (by omega) hF (by omega)
    have hwords := Set.union_subset_union_left ({q + 8, q + 12} : Set Nat) hsub
    exact ⟨_, bins'', rfl, hjoined, hchanges.mono hwords, hsub'.trans hwords⟩

theorem Around.node : IsNode av (P + total pre) ∧ av + 1032 ≤ P + total pre ∧ P + total pre ≤ v := by
  have hbounds := h.bounds ha.used_mem
  have hsize := h.tiled.size ha.used_mem
  have hbehind := h.region.behind
  have hbelow := h.region.below
  have hplace := ha.place
  have hpos := h.aligned
  have htiled := h.tiled
  rw [ha.tiles, tiled_append, tiled_append] at htiled
  have hpre8 := htiled.1.1.aligned
  exact ⟨⟨by omega, by omega, .inr (by omega)⟩, by omega, by omega⟩

theorem Around.head_word : P + total pre + 4 ∉ listWords av bins := by
  have hplace := ha.place
  rcases ha.back with rfl | ⟨x, rfl⟩
  · have hsize := h.tiled.size ha.used_mem
    rw [total_nil, Nat.add_zero] at hplace
    rw [← hplace]
    exact h.not_listWord ha.used_mem le_rfl (by omega) (by omega) (by omega)
  · have hmem : (P + total pre, x) ∈ ofKind .free P ts := by
      rw [ha.free_eq, ofKind_cons_self]
      exact .inl (.inl rfl)
    have hsize := h.tiled.size hmem
    exact h.not_listWord hmem le_rfl (by omega) (by omega) (by omega)

theorem Around.foot_word : v + z + total fwd ∉ listWords av bins := by
  rcases ha.fwd with rfl | ⟨y, rfl⟩
  · have hsize := h.tiled.size ha.used_mem
    rw [total_nil, Nat.add_zero]
    exact h.not_listWord ha.used_mem (by omega) (by omega) (by omega) (by omega)
  · have hmem : (v + z, y) ∈ ofKind .free P ts := by
      rw [ha.free_eq, ofKind_cons_self]
      exact .inr (.inl (.inl rfl))
    have hsize := h.tiled.size hmem
    simp only [total_cons, total_nil, Nat.add_zero]
    exact h.not_listWord hmem (by omega) (by omega) (by omega) (by omega)

theorem Around.next_word : v + z + total fwd + 4 ∉ listWords av bins ∧
    le32 (setHead mem (v + z) (chunksize mem (v + z))) (v + z + total fwd + 4) = t.size := by
  have hafter := ha.after_mem
  have ht := h.tiled.size hafter
  have hbounds := h.bounds hafter
  have hbelow := h.region.below
  have hnode := (h.node ha.used_mem).aligned
  have hsize := h.tiled.size ha.used_mem
  refine ⟨h.not_listWord hafter le_rfl (by omega) (by omega) (by omega), ?_⟩
  obtain ⟨-, -, -, htag⟩ := ha.tags h
  rcases ha.fwd with rfl | ⟨y, rfl⟩
  · rw [total_nil, Nat.add_zero] at hafter ⊢
    rw [h.chunksize_eq hafter]
    exact le32_putLe32 (by omega)
  · have hmem : (v + z, y) ∈ ofKind .free P ts := by
      rw [ha.free_eq, ofKind_cons_self]
      exact .inr (.inl (.inl rfl))
    have hy := h.tiled.size hmem
    have hhead := htag.head
    simp only [total_cons, total_nil, lastKind_cons, lastKind_nil, bit_free, Nat.add_zero]
      at hhead ⊢
    rw [setHead, le32_putLe32_ne (by omega) (by omega) (by omega), hhead]

end stages

structure Joined (av P v z : Nat) (mem : Buf) (bins : Bins) (pre back fwd : List Tile) (t : Tile)
    (post : List Tile) (m : Merge) (bins' : Bins) : Prop where
  merging : Merging av bins' (others P pre (v + z + total fwd + t.size) post) (P + total pre)
    (total (back ++ ⟨z, .used⟩ :: fwd)) m
  changes : Changes (insert (v + z + 4)
    (listWords av bins ∪ {P + total pre + 8, P + total pre + 12})) mem m.mem
  lists : listWords av bins' ⊆ listWords av bins ∪ {P + total pre + 8, P + total pre + 12}
  next : le32 m.mem (v + z + total fwd + 4) = t.size

theorem Joined.not_listed (hj : Joined av P v z mem bins pre back fwd t post m bins')
    (hw : x ∉ listWords av bins) (hlinks : x ≠ P + total pre + 8 ∧ x ≠ P + total pre + 12) :
    x ∉ listWords av bins' := by
  intro hin
  rcases hj.lists hin with hold | rfl | rfl
  · exact hw hold
  · exact hlinks.1 rfl
  · exact hlinks.2 rfl

theorem Joined.window (hj : Joined av P v z mem bins pre back fwd t post m bins')
    (hfirst : P + total pre ≤ v) (hz : 16 ≤ z)
    (hch : Changes (listWords av bins' ∪ {av + 4, P + total pre + 4, P + total pre + 8,
      P + total pre + 12, v + z + total fwd}) m.mem mem') :
    Changes (inner av bins (P + total pre + 4) (v + z + total fwd + 8)) mem mem' := by
  have hlists : listWords av bins ∪ {P + total pre + 8, P + total pre + 12} ⊆
      inner av bins (P + total pre + 4) (v + z + total fwd + 8) := by
    refine Set.union_subset listWords_subset_inner ?_
    rintro w (rfl | rfl)
    · exact mem_inner_window (by omega) (by omega)
    · exact mem_inner_window (by omega) (by omega)
  refine (hj.changes.mono (Set.insert_subset ?_ hlists)).trans (hch.mono ?_)
  · exact mem_inner_window (by omega) (by omega)
  · refine Set.union_subset (hj.lists.trans hlists) ?_
    rintro w (rfl | rfl | rfl | rfl | rfl)
    · exact .inl rfl
    all_goals exact mem_inner_window (by omega) (by omega)

section joining

variable (h : Layout av lo hi mem P ts bins) (ha : Around ts P v z pre back fwd t post)

include ha

theorem Around.end_eq :
    P + total pre + total (back ++ ⟨z, .used⟩ :: fwd) = v + z + total fwd := by
  have hplace := ha.place
  simp only [total_append, total_cons]
  omega

theorem Around.joined_used : ofKind .used P ts = insert (v, z) (ofKind .used P
    (pre ++ [⟨total (back ++ ⟨z, .used⟩ :: fwd), .free⟩, t] ++ post)) :=
  ha.used_eq _ ha.end_eq

include h

theorem Around.joined_size : 16 ≤ total (back ++ ⟨z, .used⟩ :: fwd) ∧
    8 ∣ total (back ++ ⟨z, .used⟩ :: fwd) := by
  have htiled := h.tiled
  rw [ha.tiles] at htiled
  have hmid := tiled_mid htiled
  rw [tiled_append] at hmid
  exact Tiled.total_size hmid.1 (by simp)

theorem Around.join (fuel : Nat) : ∃ m bins',
    NonOsLite.freeIntoBin av fuel mem v (size mem v) = (if m.islr then
        some (setFoot (setHead m.mem m.p (m.sz ||| 1)) m.p m.sz) else
      frontlink av fuel (setFoot (setHead m.mem m.p (m.sz ||| 1)) m.p m.sz) m.p m.sz) ∧
    Joined av P v z mem bins pre back fwd t post m bins' := by
  obtain ⟨hnode, -, hq⟩ := ha.node h
  have hnode4 := (h.node ha.used_mem).aligned
  have hz16 := (h.tiled.size ha.used_mem).1
  have hplace := ha.place
  have ht := h.tiled.size ha.after_mem
  have hafter4 := (h.node ha.after_mem).aligned
  have hmark : Changes {v + z + 4} mem (setHead mem (v + z) (chunksize mem (v + z))) :=
    changes_putLe32 (by have := h.tiled.size ha.used_mem; omega)
  obtain ⟨m₁, bins₁, hrun₁, hm₁, hch₁, hsub₁⟩ :=
    ha.joinBack h (ha.start h (chunksize mem (v + z))) rfl hmark
  have hboth : Changes (insert (v + z + 4) (listWords av bins)) mem m₁.mem :=
    (hmark.mono (by simp)).trans (hch₁.mono (Set.subset_insert _ _))
  obtain ⟨m₂, bins₂, hrun₂, hm₂, hch₂, hsub₂⟩ :=
    ha.joinFront h hm₁ hnode hq (by omega) hsub₁ hboth
  have htotal : z + total back + total fwd = total (back ++ ⟨z, .used⟩ :: fwd) := by
    simp only [total_append, total_cons]
    omega
  obtain ⟨hnext, hword⟩ := ha.next_word h
  refine ⟨m₂, bins₂, ?_, htotal ▸ hm₂, ?_, hsub₂, ?_⟩
  · unfold NonOsLite.freeIntoBin
    dsimp only
    rw [h.size_half ha.used_mem, hrun₁, hrun₂]
  · refine (hboth.mono ?_).trans (hch₂.mono (Set.subset_insert _ _))
    exact Set.insert_subset_insert Set.subset_union_left
  · rw [hch₂.le32 (by omega) ?_, hch₁.le32 (by omega) hnext, hword]
    rintro (hw | hw)
    · exact hnext hw
    · simp only [Set.mem_insert_iff, Set.mem_singleton_iff] at hw
      omega

theorem Around.merged (hfuel : 536870912 < fuel) : ∃ mem' bins',
    NonOsLite.freeIntoBin av fuel mem v (size mem v) = some mem' ∧
    Layout av lo hi mem' P (pre ++ [⟨total (back ++ ⟨z, .used⟩ :: fwd), .free⟩, t] ++ post) bins' ∧
    total (pre ++ [⟨total (back ++ ⟨z, .used⟩ :: fwd), .free⟩, t] ++ post) = total ts ∧
    Changes (inner av bins (P + total pre + 4) (v + z + total fwd + 8)) mem mem' := by
  obtain ⟨hnode, hbehind, hq⟩ := ha.node h
  obtain ⟨h16, h8⟩ := ha.joined_size h
  obtain ⟨m, bins₁, hrun, hj⟩ := ha.join h fuel
  have hlast := ha.end_eq
  have hnode4 := (h.node ha.used_mem).aligned
  have hz16 := (h.tiled.size ha.used_mem).1
  have hbounds := h.bounds ha.after_mem
  have ht := h.tiled.size ha.after_mem
  have hafter4 := (h.node ha.after_mem).aligned
  have hbelow := h.region.below
  have hF : ∀ a ∈ others P pre (v + z + total fwd + t.size) post, a.1 ≠ P + total pre := by
    intro a hin
    have := ha.others_apart h hin
    omega
  have hfootword := hj.not_listed (ha.foot_word h) (by omega)
  obtain ⟨mem', bins', hfin, hrings, hmarked, hstocked, hch, hhead, hfoot⟩ :=
    hj.merging.finish h.region.array hnode hbehind h16 h8 (by omega) hF
      (hj.not_listed (ha.head_word h) (by omega)) (hlast ▸ hfootword) hfuel
  rw [hlast] at hfoot hch
  have hnext : le32 mem' (v + z + total fwd + 4) = t.size := by
    rw [hch.le32 (by omega) ?_, hj.next]
    rintro (hw | hw)
    · exact hj.not_listed (ha.next_word h).1 (by omega) hw
    · simp only [Set.mem_insert_iff, Set.mem_singleton_iff] at hw
      omega
  have hwindow := hj.window hq hz16 hch
  have hend : P + total pre + total (back ++ ⟨z, .used⟩ :: fwd ++ [t]) =
      v + z + total fwd + t.size := by
    rw [total_append, total_cons, total_nil]
    omega
  have htop : ofKind .top (P + total pre) (back ++ ⟨z, .used⟩ :: fwd) = ∅ := by
    rw [ofKind_append, (ha.no_kind (by decide) _).1, ofKind_cons_ne (by simp),
      (ha.no_kind (by decide) _).2, Set.union_empty]
  have hfull := h
  rw [ha.tiles] at hfull
  obtain ⟨hlayout, hsum⟩ := hfull.merge (by simp) ha.before ha.after (by rwa [hlast]) hhead
    (by rwa [hlast]) (by rwa [hlast]) hrings hmarked (by rwa [hend]) htop
  exact ⟨mem', bins', hrun.trans hfin, hlayout, hsum.trans (by rw [ha.tiles]), hwindow⟩

end joining

theorem Layout.freeIntoBin (h : Layout av lo hi mem P ts bins) (hm : (v, z) ∈ ofKind .used P ts)
    (hne : v + z ≠ top av mem) (hfuel : 536870912 < fuel) (hstop : 4 ∣ stop)
    (hend : P + total ts ≤ stop) : ∃ mem' ts' bins',
      NonOsLite.freeIntoBin av fuel mem v (size mem v) = some mem' ∧ Layout av lo hi mem' P ts' bins' ∧
      ofKind .used P ts' = ofKind .used P ts \ {(v, z)} ∧ total ts' = total ts ∧
      Frames av lo stop (ofKind .used P ts \ {(v, z)}) mem mem' := by
  obtain ⟨pre, back, fwd, t, post, ha⟩ := h.around hm hne
  obtain ⟨mem', bins', hrun, hlayout, htotal, hch⟩ := ha.merged h hfuel
  have hq := (ha.node h).2.2
  have hbehind := (ha.node h).2.1
  have hlast := ha.end_eq
  have hbounds := h.bounds hm
  have hsize := h.tiled.size hm
  have hafter := h.bounds ha.after_mem
  have ht := h.tiled.size ha.after_mem
  have hused := ha.joined_used
  have hjoined : (P + total pre, total (back ++ ⟨z, .used⟩ :: fwd)) ∈ ofKind .free P
      (pre ++ [⟨total (back ++ ⟨z, .used⟩ :: fwd), .free⟩, t] ++ post) := by
    rw [List.append_assoc, List.cons_append]
    exact mem_ofKind_append_cons
  generalize pre ++ [⟨total (back ++ ⟨z, .used⟩ :: fwd), .free⟩, t] ++ post = ts'
    at hlayout htotal hused hjoined
  have hgone : (v, z) ∉ ofKind .used P ts' := by
    intro hin
    rcases hlayout.tiled.apart hin hjoined with ⟨-, -, hk⟩ | hside | hside
    · exact absurd hk (by decide)
    · omega
    · omega
  have hdiff : ofKind .used P ts' = ofKind .used P ts \ {(v, z)} := by
    rw [hused, Set.insert_sdiff_self_of_notMem hgone]
  refine ⟨mem', ts', bins', hrun, hlayout, hdiff, htotal, ?_⟩
  refine h.frames_apart Set.sdiff_subset ?_ (hch.mono (Set.subset_insert (av + 8) _)) hstop (by omega)
    hend (by omega) (by omega)
  intro c y hc
  rw [← hdiff] at hc
  rcases hlayout.tiled.apart hc hjoined with ⟨-, -, hk⟩ | hside | hside
  · exact absurd hk (by decide)
  · exact .inl (by omega)
  · exact .inr (by omega)

end NonOsLite
