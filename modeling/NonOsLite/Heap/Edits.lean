import NonOsLite.Heap.Layout

namespace NonOsLite
open ByteBuf Ring BoundaryTags

variable {av lo hi P a b n z v w nb : Nat} {mem mem' : Buf} {ts pre mid mid' post : List Tile}
  {bins bins' : Bins} {i j p s : Nat} {k : Kind} {xs ys : List Nat} {t : Tile}

theorem or_one (x : Nat) : x ||| 1 = x / 2 * 2 + 1 := by
  have hdiv : (x ||| 1) / 2 = x / 2 := by rw [Nat.or_div_two, Nat.or_zero]
  have hmod : (x ||| 1) % 2 = 1 := Nat.or_mod_two_eq_one.mpr (.inr rfl)
  omega

theorem or_one_of_dvd (h : 8 ∣ z) : z ||| 1 = z + 1 := by
  rw [or_one]
  omega

theorem tiled_mid {word : Nat → Nat} (h : Tiled word P .used (pre ++ mid ++ post)) :
    Tiled word (P + total pre) (lastKind .used pre) mid := by
  rw [tiled_append, tiled_append] at h
  exact h.1.2

theorem top_last {word : Nat → Nat} (h : Tiled word a k (pre ++ ⟨n, .top⟩ :: post)) : post = [] := by
  cases post with
  | nil => rfl
  | cons t post =>
    rw [tiled_append, tiled_cons, tiled_cons] at h
    rcases h.2.2.1.joined with hused | ⟨hfree, -⟩
    · simp at hused
    · simp at hfree

section neighbours

variable (h : Layout av lo hi mem P ts bins)

include h

theorem Layout.at_top (hts : ts ≠ []) :
    ∃ xs n, ts = xs ++ [⟨n, .top⟩] ∧ top av mem = P + total xs := by
  rcases h.topped with ⟨hnil, -⟩ | ⟨n, hn⟩
  · exact absurd hnil hts
  · obtain ⟨xs, ys, rfl, htop⟩ := mem_ofKind_split hn
    obtain rfl := top_last h.tiled
    exact ⟨xs, n, rfl, htop⟩

theorem Layout.next_of (hsplit : ts = pre ++ ⟨z, k⟩ :: post) (hk : k ≠ .top) :
    ∃ t rest, post = t :: rest := by
  cases post with
  | cons t rest => exact ⟨t, rest, rfl⟩
  | nil =>
    obtain ⟨xs, n, hts, -⟩ := h.at_top (by simp [hsplit])
    rw [hsplit] at hts
    have hlast := (List.append_inj' hts rfl).2
    simp only [List.cons.injEq, Tile.mk.injEq, and_true] at hlast
    exact absurd hlast.2 hk

theorem Layout.used_at (hm : (v, z) ∈ ofKind .used P ts) : ∃ pre t post,
    ts = pre ++ [⟨z, .used⟩, t] ++ post ∧ v = P + total pre := by
  obtain ⟨pre, rest, hsplit, hv⟩ := mem_ofKind_split hm
  obtain ⟨t, post, rfl⟩ := h.next_of hsplit (by decide)
  exact ⟨pre, t, post, by simpa using hsplit, hv⟩

theorem Layout.free_at (hm : (v, z) ∈ ofKind .free P ts) : ∃ pre t post,
    ts = pre ++ [⟨z, .free⟩, t] ++ post ∧ v = P + total pre ∧ lastKind .used pre = .used ∧
      t.kind = .used := by
  obtain ⟨pre, rest, hsplit, hv⟩ := mem_ofKind_split hm
  obtain ⟨t, post, rfl⟩ := h.next_of hsplit (by decide)
  have hts : ts = pre ++ [⟨z, .free⟩, t] ++ post := by simpa using hsplit
  have htiled := h.tiled
  rw [hts] at htiled
  obtain ⟨hfree, ht, -⟩ := tiled_mid htiled
  refine ⟨pre, t, post, hts, hv, ?_, ?_⟩
  · exact hfree.joined.elim id fun hne => by simp at hne
  · exact ht.joined.elim (fun hne => by simp at hne) And.right

theorem Layout.chunksize_eq (hm : (v, z) ∈ ofKind k P ts) : chunksize mem v = z := by
  obtain ⟨pre, rest, hsplit, rfl⟩ := mem_ofKind_split hm
  have htiled := h.tiled
  rw [hsplit, tiled_append, tiled_cons] at htiled
  have htag := htiled.2.1
  have hhead := htag.head
  have haligned := htag.aligned
  have hbit := bit_le (lastKind .used pre)
  rw [chunksize, size]
  dsimp only at hhead haligned
  omega

theorem Layout.word_kept (hch : Changes (inner av bins a b) mem mem')
    (hn : (n, z) ∈ ofKind k P ts) (hw : 4 ∣ w) (hlo : n + 4 ≤ w) (hhi : w < n + z + 4)
    (hlink : k = .free → w ≠ n + 8 ∧ w ≠ n + 12) (hout : w < a ∨ b ≤ w) :
    le32 mem' w = le32 mem w := by
  have hbounds := h.bounds hn
  have hbehind := h.region.behind
  refine hch.le32 hw ?_
  rintro (hin | hin | hin | ⟨i, c, hc, hcw⟩)
  · omega
  · simp only [Set.mem_ofPred_eq] at hin
    omega
  · omega
  · obtain ⟨hi, hi'⟩ := h.rings.range i c hc
    obtain ⟨y, hy⟩ := h.free_of_listed hc
    rcases h.tiled.apart hn hy with ⟨rfl, -, hk⟩ | hside
    · exact absurd hcw (by have := hlink hk; omega)
    · have hsize := h.tiled.size hy
      omega

theorem Layout.top_kept (hch : Changes (inner av bins a b) mem mem') (hlo : lo ≤ a) :
    top av mem' = top av mem := by
  have halign := h.region.array.aligned
  have hbehind := h.region.behind
  refine hch.le32 (by omega) ?_
  rintro (hin | hin | hin | ⟨i, c, hc, hcw⟩)
  · omega
  · simp only [Set.mem_ofPred_eq] at hin
    omega
  · omega
  · have := (h.rings.node i c hc).outside
    omega

end neighbours

theorem Layout.retile (mid' : List Tile) (h : Layout av lo hi mem P (pre ++ mid ++ post) bins)
    (hch : Changes (touched av bins a b) mem mem') (ha : P + total pre + 4 ≤ a)
    (hb : b ≤ P + total pre + total mid + 4) (hmid : mid ≠ [])
    (htotal : total mid' = total mid ∨ post = [] ∧ P + total pre + total mid' ≤ hi)
    (htiled : Tiled (le32 mem') (P + total pre) (lastKind .used pre) mid')
    (hlast : lastKind (lastKind .used pre) mid' = lastKind (lastKind .used pre) mid)
    (hrings : Rings av mem' bins') (hmarked : Marked av mem' bins')
    (hstocked : Stocked bins' (ofKind .free P (pre ++ mid' ++ post)))
    (htopped : ∃ z, (top av mem', z) ∈ ofKind .top P (pre ++ mid' ++ post)) :
    Layout av lo hi mem' P (pre ++ mid' ++ post) bins' := by
  obtain ⟨hpre, hpost⟩ := h.sides hch ha hb
  have hinside : lo ≤ P ∧ P + total (pre ++ mid ++ post) ≤ hi :=
    h.inside.elim (fun hnil => absurd hnil (by simp [hmid])) id
  refine ⟨h.region, .inr ⟨hinside.1, ?_⟩, h.aligned, ?_, hrings, hstocked, hmarked, .inr htopped⟩
  · simp only [total_append] at hinside ⊢
    rcases htotal with heq | ⟨rfl, hle⟩
    · omega
    · simp only [total_nil]
      omega
  · rw [tiled_append, tiled_append]
    refine ⟨⟨hpre, htiled⟩, ?_⟩
    rcases htotal with heq | ⟨rfl, -⟩
    · rw [lastKind_append] at hpost ⊢
      rwa [hlast, total_append, heq, ← Nat.add_assoc]
    · exact tiled_nil

theorem Layout.retile_inner (h : Layout av lo hi mem P (pre ++ mid ++ post) bins)
    (hch : Changes (inner av bins a b) mem mem') (ha : P + total pre + 4 ≤ a)
    (hb : b ≤ P + total pre + total mid + 4) (hmid : mid ≠ [])
    (htotal : total mid' = total mid)
    (htiled : Tiled (le32 mem') (P + total pre) (lastKind .used pre) mid')
    (hlast : lastKind (lastKind .used pre) mid' = lastKind (lastKind .used pre) mid)
    (hrings : Rings av mem' bins') (hmarked : Marked av mem' bins')
    (hstocked : Stocked bins' (ofKind .free P (pre ++ mid' ++ post)))
    (htop : ofKind .top (P + total pre) mid' = ofKind .top (P + total pre) mid) :
    Layout av lo hi mem' P (pre ++ mid' ++ post) bins' := by
  refine h.retile mid' (hch.mono (Set.subset_insert _ _)) ha hb hmid (.inl htotal) htiled hlast hrings
    hmarked hstocked ?_
  have hinside : lo ≤ P := h.inside.elim (fun hnil => absurd hnil (by simp [hmid])) And.left
  rw [h.top_kept hch (by omega)]
  rcases h.topped with ⟨hnil, -⟩ | ⟨n, hn⟩
  · simp [hmid] at hnil
  · refine ⟨n, ?_⟩
    rwa [ofKind_around, htop, htotal, ← ofKind_around]

theorem Layout.use (h : Layout av lo hi mem P ts bins) (hsplit : bins i = xs ++ v :: ys)
    (hm : (v, z) ∈ ofKind .free P ts)
    (hch : Changes (inner av bins (v + z + 4) (v + z + 8)) mem mem')
    (hword : le32 mem' (v + z + 4) = le32 mem (v + z + 4) ||| 1)
    (hrings : Rings av mem' (Function.update bins i (xs ++ ys)))
    (hmarked : Marked av mem' (Function.update bins i (xs ++ ys))) :
    ∃ ts', Layout av lo hi mem' P ts' (Function.update bins i (xs ++ ys)) ∧
      ofKind .used P ts' = insert (v, z) (ofKind .used P ts) ∧ total ts' = total ts := by
  have halign := (h.node hm).aligned
  have hsize := h.tiled.size hm
  obtain ⟨pre, t, post, rfl, rfl, hpre, ht⟩ := h.free_at hm
  have htags := tiled_mid h.tiled
  rw [tiled_cons, tiled_cons, hpre] at htags
  obtain ⟨hv, htag, -⟩ := htags
  have ht16 := htag.size
  have hhead := h.word_kept (w := P + total pre + 4) hch hm (by omega) le_rfl (by omega)
    (fun _ => by omega) (.inl (by omega))
  have hnext : le32 mem' (P + total pre + z + 4) = t.size + 1 := by
    rw [hword, htag.head]
    exact or_one_of_dvd htag.aligned
  refine ⟨pre ++ [⟨z, .used⟩, t] ++ post, h.retile_inner hch (by omega) ?_ (by simp) rfl ?_ rfl
    hrings hmarked ?_ ?_, ?_, ?_⟩
  · simp only [total_cons, total_nil]
    omega
  · rw [hpre, tiled_cons, tiled_cons]
    exact ⟨⟨.inl rfl, hv.size, hv.aligned, hhead.trans hv.head, fun hfree => by simp at hfree⟩,
      ⟨.inl rfl, ht16, htag.aligned, hnext, fun hfree => by simp [ht] at hfree⟩, tiled_nil⟩
  · have hstocked := h.stocked
    rw [ofKind_around, ofKind_cons_self, ofKind_cons_ne (by simp [ht]), ofKind_nil,
      Set.insert_union, Set.empty_union] at hstocked
    rw [ofKind_around, ofKind_cons_ne (by simp), ofKind_cons_ne (by simp [ht]), ofKind_nil,
      Set.empty_union]
    refine hstocked.remove h.rings ?_ hsplit
    rintro ⟨c, y⟩ (hc | hc)
    · have hbounds := mem_ofKind_bounds hc
      have hmem : (c, y) ∈ ofKind .free P (pre ++ [⟨z, .free⟩, t] ++ post) := by
        rw [ofKind_around]
        exact .inr (.inl hc)
      have := h.tiled.size hmem
      dsimp only
      omega
    · have hbounds := mem_ofKind_bounds hc
      simp only [total_cons, total_nil] at hbounds
      dsimp only
      omega
  · rw [ofKind_cons_ne (t := ⟨z, .used⟩) (by simp), ofKind_cons_ne (t := ⟨z, .free⟩) (by simp)]
  · rw [ofKind_around, ofKind_around, ofKind_cons_self, ofKind_cons_ne (t := ⟨z, .free⟩) (by simp),
      Set.insert_union]
    rfl
  · simp

theorem next_mem :
    (P + total pre + z, t.size) ∈ ofKind t.kind P (pre ++ [⟨z, k⟩, t] ++ post) := by
  have hmem : (P + total (pre ++ [⟨z, k⟩]), t.size) ∈
      ofKind t.kind P (pre ++ [⟨z, k⟩] ++ ⟨t.size, t.kind⟩ :: post) := mem_ofKind_append_cons
  simpa [Nat.add_assoc] using hmem

theorem Layout.sides_ne (h : Layout av lo hi mem P (pre ++ mid ++ post) bins)
    {x : Nat × Nat}
    (hx : x ∈ ofKind k P pre ∪ ofKind k (P + total pre + total mid) post) :
    x.1 < P + total pre ∨ P + total pre + total mid ≤ x.1 := by
  obtain ⟨c, y⟩ := x
  rcases hx with hc | hc
  · have hbounds := mem_ofKind_bounds hc
    have hmem : (c, y) ∈ ofKind k P (pre ++ mid ++ post) := by
      rw [ofKind_around]
      exact .inr (.inl hc)
    have := h.tiled.size hmem
    exact .inl (by dsimp only; omega)
  · exact .inr (mem_ofKind_bounds hc).1

theorem Layout.split (h : Layout av lo hi mem P ts bins) (hsplit : bins i = xs ++ v :: ys)
    (hm : (v, z) ∈ ofKind .free P ts) (hnb : 16 ≤ nb) (hnb8 : 8 ∣ nb) (hrest : nb + 16 ≤ z)
    (hempty : Function.update bins i (xs ++ ys) 1 = [])
    (hch : Changes (inner av bins (v + 4) (v + z + 4)) mem mem')
    (hhead : le32 mem' (v + 4) = nb + 1) (hrem : le32 mem' (v + nb + 4) = z - nb + 1)
    (hfoot : le32 mem' (v + z) = z - nb)
    (hrings : Rings av mem' (Function.update (Function.update bins i (xs ++ ys)) 1 [v + nb]))
    (hmarked : Marked av mem' (Function.update (Function.update bins i (xs ++ ys)) 1 [v + nb])) :
    ∃ ts', Layout av lo hi mem' P ts'
        (Function.update (Function.update bins i (xs ++ ys)) 1 [v + nb]) ∧
      ofKind .used P ts' = insert (v, nb) (ofKind .used P ts) ∧ total ts' = total ts := by
  have halign := (h.node hm).aligned
  have hsize := h.tiled.size hm
  obtain ⟨pre, t, post, rfl, rfl, hpre, ht⟩ := h.free_at hm
  have htags := tiled_mid h.tiled
  rw [tiled_cons, tiled_cons, hpre] at htags
  obtain ⟨hv, htag, -⟩ := htags
  have ht16 := htag.size
  have hnext := h.word_kept (w := P + total pre + z + 4) hch next_mem (by omega) le_rfl (by omega)
    (fun hfree => by simp [ht] at hfree) (.inr (by omega))
  refine ⟨pre ++ [⟨nb, .used⟩, ⟨z - nb, .free⟩, t] ++ post, h.retile_inner hch (by omega) ?_
    (by simp) ?_ ?_ rfl hrings hmarked ?_ ?_, ?_, ?_⟩
  · simp only [total_cons, total_nil]
    omega
  · simp only [total_cons, total_nil]
    omega
  · rw [hpre, tiled_cons, tiled_cons, tiled_cons]
    have hend : P + total pre + nb + (z - nb) = P + total pre + z := by omega
    refine ⟨⟨.inl rfl, hnb, hnb8, hhead, fun hfree => by simp at hfree⟩,
      ⟨.inl rfl, ?_, ?_, hrem, fun _ => ?_⟩,
      ⟨.inr ⟨rfl, ht⟩, ht16, htag.aligned, ?_, fun hfree => by simp [ht] at hfree⟩, tiled_nil⟩
    · dsimp only
      omega
    · dsimp only
      omega
    · dsimp only
      rw [hend, hfoot]
    · dsimp only
      rw [hend, hnext, htag.head]
  · have hstocked := h.stocked
    rw [ofKind_around, ofKind_cons_self, ofKind_cons_ne (by simp [ht]), ofKind_nil,
      Set.insert_union, Set.empty_union] at hstocked
    have htotal : total [⟨nb, .used⟩, ⟨z - nb, .free⟩, t] = total [⟨z, .free⟩, t] := by
      simp only [total_cons, total_nil]
      omega
    rw [ofKind_around, ofKind_cons_ne (t := ⟨nb, .used⟩) (by simp), ofKind_cons_self,
      ofKind_cons_ne (t := t) (by simp [ht]), ofKind_nil, Set.insert_union, Set.empty_union, htotal]
    refine (hstocked.remove h.rings ?_ hsplit).insertLast hempty
    intro x hx
    have hne := h.sides_ne hx
    simp only [total_cons] at hne
    omega
  · have htop : t.kind ≠ .top := by simp [ht]
    rw [ofKind_cons_ne (t := ⟨nb, .used⟩) (by simp), ofKind_cons_ne (t := ⟨z - nb, .free⟩) (by simp),
      ofKind_cons_ne htop, ofKind_cons_ne (t := ⟨z, .free⟩) (by simp), ofKind_cons_ne htop]
    rfl
  · have hend : P + total pre + nb + (z - nb) = P + total pre + z := by omega
    have htotal : total [⟨nb, .used⟩, ⟨z - nb, .free⟩, t] = total [⟨z, .free⟩, t] := by
      simp only [total_cons, total_nil]
      omega
    rw [ofKind_around, ofKind_around, ofKind_cons_self,
      ofKind_cons_ne (t := ⟨z - nb, .free⟩) (by simp),
      ofKind_cons_ne (t := ⟨z, .free⟩) (by simp), Set.insert_union, htotal]
    dsimp only
    rw [hend]
  · simp only [total_append, total_cons, total_nil]
    omega

theorem Layout.cut (h : Layout av lo hi mem P (pre ++ [⟨z, .top⟩]) bins) (hnb : 16 ≤ nb)
    (hnb8 : 8 ∣ nb) (hrest : nb + 16 ≤ z)
    (hch : Changes (touched av bins (P + total pre + 4) (P + total pre + nb + 8)) mem mem')
    (hhead : le32 mem' (P + total pre + 4) = nb + 1)
    (hrem : le32 mem' (P + total pre + nb + 4) = z - nb + 1)
    (htop : top av mem' = P + total pre + nb) (hrings : Rings av mem' bins)
    (hmarked : Marked av mem' bins) :
    Layout av lo hi mem' P (pre ++ [⟨nb, .used⟩, ⟨z - nb, .top⟩]) bins ∧
      ofKind .used P (pre ++ [⟨nb, .used⟩, ⟨z - nb, .top⟩]) =
        insert (P + total pre, nb) (ofKind .used P (pre ++ [⟨z, .top⟩])) ∧
      total (pre ++ [⟨nb, .used⟩, ⟨z - nb, .top⟩]) = total (pre ++ [⟨z, .top⟩]) := by
  have hm : (P + total pre, z) ∈ ofKind .top P (pre ++ [⟨z, .top⟩]) := mem_ofKind_append_cons
  have halign := (h.node hm).aligned
  have hsize := h.tiled.size hm
  have hsides (k : Kind) : ofKind k P (pre ++ [⟨nb, .used⟩, ⟨z - nb, .top⟩]) =
      ofKind k P pre ∪ ofKind k (P + total pre) [⟨nb, .used⟩, ⟨z - nb, .top⟩] := ofKind_append
  have hold (k : Kind) : ofKind k P (pre ++ [⟨z, .top⟩]) =
      ofKind k P pre ∪ ofKind k (P + total pre) [⟨z, .top⟩] := ofKind_append
  have htags := h.tiled
  rw [tiled_append, tiled_cons] at htags
  obtain ⟨-, hv, -⟩ := htags
  have hpre : lastKind .used pre = .used := hv.joined.elim id fun hne => by simp at hne
  have hend : Layout av lo hi mem P (pre ++ [⟨z, .top⟩] ++ []) bins := by rwa [List.append_nil]
  have hnew := hend.retile [⟨nb, .used⟩, ⟨z - nb, .top⟩] hch le_rfl
    (by simp only [total_cons, total_nil]; omega) (by simp)
    (.inl (by simp only [total_cons, total_nil]; omega)) ?_ rfl hrings hmarked ?_ ?_
  · rw [List.append_nil] at hnew
    refine ⟨hnew, ?_, ?_⟩
    · rw [hsides, hold, ofKind_cons_self, ofKind_cons_ne (t := ⟨z - nb, .top⟩) (by simp), ofKind_nil,
        ofKind_cons_ne (t := ⟨z, .top⟩) (by simp), ofKind_nil, Set.union_insert]
    · simp only [total_append, total_cons, total_nil]
      omega
  · rw [hpre, tiled_cons, tiled_cons]
    refine ⟨⟨.inl rfl, hnb, hnb8, hhead, fun hfree => by simp at hfree⟩,
      ⟨.inl rfl, ?_, ?_, hrem, fun hfree => by simp at hfree⟩, tiled_nil⟩
    · dsimp only
      omega
    · dsimp only
      omega
  · have hstocked := h.stocked
    rw [hold, ofKind_cons_ne (t := ⟨z, .top⟩) (by simp), ofKind_nil] at hstocked
    rwa [List.append_nil, hsides, ofKind_cons_ne (t := ⟨nb, .used⟩) (by simp),
      ofKind_cons_ne (t := ⟨z - nb, .top⟩) (by simp), ofKind_nil]
  · refine ⟨z - nb, ?_⟩
    rw [List.append_nil, hsides, ofKind_cons_ne (t := ⟨nb, .used⟩) (by simp), ofKind_cons_self, htop]
    exact .inr (.inl rfl)

theorem Tiled.total_size {word : Nat → Nat} (h : Tiled word a k mid) (hmid : mid ≠ []) :
    16 ≤ total mid ∧ 8 ∣ total mid := by
  refine ⟨?_, h.aligned⟩
  cases mid with
  | nil => exact absurd rfl hmid
  | cons t ts =>
    rw [total_cons]
    have := h.1.size
    omega

theorem Layout.top_eq (h : Layout av lo hi mem P (pre ++ [⟨z, .top⟩]) bins) :
    top av mem = P + total pre := by
  obtain ⟨ys, m, hts, htop⟩ := h.at_top (by simp)
  rw [← (List.append_inj' hts rfl).1] at htop
  exact htop

theorem Layout.merge (h : Layout av lo hi mem P (pre ++ (mid ++ [t]) ++ post) bins)
    (hmid : mid ≠ []) (hpre : lastKind .used pre = .used) (ht : t.kind = .used)
    (hch : Changes (inner av bins (P + total pre + 4) (P + total pre + total mid + 8)) mem mem')
    (hhead : le32 mem' (P + total pre + 4) = total mid + 1)
    (hfoot : le32 mem' (P + total pre + total mid) = total mid)
    (hnext : le32 mem' (P + total pre + total mid + 4) = t.size)
    (hrings : Rings av mem' bins') (hmarked : Marked av mem' bins')
    (hstocked : Stocked bins' (insert (P + total pre, total mid)
      (ofKind .free P pre ∪ ofKind .free (P + total pre + total (mid ++ [t])) post)))
    (htop : ofKind .top (P + total pre) mid = ∅) :
    Layout av lo hi mem' P (pre ++ [⟨total mid, .free⟩, t] ++ post) bins' ∧
      total (pre ++ [⟨total mid, .free⟩, t] ++ post) = total (pre ++ (mid ++ [t]) ++ post) := by
  have htags := tiled_mid h.tiled
  rw [tiled_append, tiled_cons] at htags
  obtain ⟨hm, htag, -⟩ := htags
  obtain ⟨hm16, hm8⟩ := Tiled.total_size hm hmid
  have ht16 := htag.size
  have htotal : total [⟨total mid, .free⟩, t] = total (mid ++ [t]) := by
    simp only [total_append, total_cons, total_nil]
  refine ⟨h.retile_inner hch le_rfl ?_ (by simp) htotal ?_ ?_ hrings hmarked ?_ ?_, ?_⟩
  · simp only [total_append, total_cons, total_nil]
    omega
  · rw [hpre, tiled_cons, tiled_cons]
    exact ⟨⟨.inl rfl, hm16, hm8, hhead, fun _ => hfoot⟩,
      ⟨.inr ⟨rfl, ht⟩, ht16, htag.aligned, hnext, fun hfree => by simp [ht] at hfree⟩, tiled_nil⟩
  · rw [lastKind_append]
    rfl
  · rwa [ofKind_around, ofKind_cons_self, ofKind_cons_ne (t := t) (by simp [ht]), ofKind_nil,
      Set.insert_union, Set.empty_union, htotal]
  · rw [ofKind_append, htop, ofKind_cons_ne (t := ⟨total mid, .free⟩) (by simp), Set.empty_union]
  · simp only [total_append, total_cons, total_nil]

theorem Layout.mergeTop (h : Layout av lo hi mem P (pre ++ (mid ++ [⟨z, .top⟩])) bins)
    (hpre : lastKind .used pre = .used)
    (hch : Changes (touched av bins (P + total pre + 4) (P + total pre + 8)) mem mem')
    (hhead : le32 mem' (P + total pre + 4) = total mid + z + 1)
    (htop : top av mem' = P + total pre) (hrings : Rings av mem' bins')
    (hmarked : Marked av mem' bins') (hstocked : Stocked bins' (ofKind .free P pre)) :
    Layout av lo hi mem' P (pre ++ [⟨total mid + z, .top⟩]) bins' ∧
      total (pre ++ [⟨total mid + z, .top⟩]) = total (pre ++ (mid ++ [⟨z, .top⟩])) := by
  have htags := h.tiled
  rw [tiled_append, tiled_append, tiled_cons] at htags
  obtain ⟨-, hm, htag, -⟩ := htags
  have hz16 := htag.size
  have hz8 := htag.aligned
  have hm8 := hm.aligned
  dsimp only at hz16 hz8
  have hnil (ts : List Tile) : pre ++ ts ++ [] = pre ++ ts := List.append_nil _
  have hend : Layout av lo hi mem P (pre ++ (mid ++ [⟨z, .top⟩]) ++ []) bins := by rwa [hnil]
  have hnew := hend.retile [⟨total mid + z, .top⟩] hch le_rfl
    (by simp only [total_append, total_cons, total_nil]; omega) (by simp)
    (.inl (by simp only [total_append, total_cons, total_nil]; omega)) ?_ ?_ hrings hmarked ?_ ?_
  · rw [hnil] at hnew
    refine ⟨hnew, ?_⟩
    simp only [total_append, total_cons, total_nil]
    omega
  · rw [hpre, tiled_cons]
    refine ⟨⟨.inl rfl, ?_, ?_, hhead, fun hfree => by simp at hfree⟩, tiled_nil⟩
    · dsimp only
      omega
    · dsimp only
      omega
  · rw [lastKind_append]
    rfl
  · rwa [hnil, ofKind_append, ofKind_cons_ne (by simp), ofKind_nil, Set.union_empty]
  · refine ⟨total mid + z, ?_⟩
    rw [hnil, ofKind_append, ofKind_cons_self, htop]
    exact .inr (.inl rfl)

theorem Layout.resizeTop (h : Layout av lo hi mem P (pre ++ [⟨z, .top⟩]) bins) (hn : 16 ≤ n)
    (hn8 : 8 ∣ n) (hend : P + total pre + n ≤ hi) (hb : b ≤ P + total pre + z + 4)
    (hch : Changes (inner av bins (P + total pre + 4) b) mem mem')
    (hhead : le32 mem' (P + total pre + 4) = n + 1) (hrings : Rings av mem' bins)
    (hmarked : Marked av mem' bins) :
    Layout av lo hi mem' P (pre ++ [⟨n, .top⟩]) bins ∧
      ofKind .used P (pre ++ [⟨n, .top⟩]) = ofKind .used P (pre ++ [⟨z, .top⟩]) := by
  have htags := h.tiled
  rw [tiled_append, tiled_cons] at htags
  obtain ⟨-, htag, -⟩ := htags
  have hz16 := htag.size
  dsimp only at hz16
  have hpre : lastKind .used pre = .used := htag.joined.elim id fun hne => by simp at hne
  have hnil (ts : List Tile) : pre ++ ts ++ [] = pre ++ ts := List.append_nil _
  have hother (k : Kind) (hk : k ≠ .top) (m : Nat) : ofKind k P (pre ++ [⟨m, .top⟩]) =
      ofKind k P pre := by
    rw [ofKind_append, ofKind_cons_ne hk.symm, ofKind_nil, Set.union_empty]
  have htop := h.top_eq
  have hlo : lo ≤ P := h.inside.elim (fun hnil => absurd hnil (by simp)) And.left
  have hkept := h.top_kept hch (by omega)
  have hfull : Layout av lo hi mem P (pre ++ [⟨z, .top⟩] ++ []) bins := by rwa [hnil]
  have hnew := hfull.retile [⟨n, .top⟩] (hch.mono (Set.subset_insert _ _)) le_rfl
    (by simpa using hb) (by simp) (.inr ⟨rfl, by simpa using hend⟩) ?_ rfl
    hrings hmarked ?_ ?_
  · rw [hnil] at hnew
    exact ⟨hnew, (hother _ (by decide) n).trans (hother _ (by decide) z).symm⟩
  · rw [hpre, tiled_cons]
    exact ⟨⟨.inl rfl, hn, hn8, hhead, fun hfree => by simp at hfree⟩, tiled_nil⟩
  · have hstocked := h.stocked
    rw [hother _ (by decide)] at hstocked
    rwa [hnil, hother _ (by decide)]
  · refine ⟨n, ?_⟩
    rw [hnil, ofKind_append, ofKind_cons_self, hkept, htop]
    exact .inr (.inl rfl)

end NonOsLite
