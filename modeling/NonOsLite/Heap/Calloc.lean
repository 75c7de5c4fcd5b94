import NonOsLite.Heap.Free

namespace NonOsLite
open ByteBuf Ring BoundaryTags

def zeroWords (mem : Buf) (p : Nat) : Nat → Buf
  | 0 => mem
  | k + 1 => zeroWords (putLe32 mem p 0) (p + 4) k

-- MALLOC_ZERO
def mallocZero (mem : Buf) (charp nbytes : Nat) : Buf :=
  if nbytes ≤ 36 then
    zeroWords mem charp
      ((if 20 ≤ nbytes then 2 + if 28 ≤ nbytes then 2 + if 36 ≤ nbytes then 2 else 0 else 0 else 0) + 3)
  else memset mem charp 0 nbytes

def calloc (av fuel : Nat) (s : Arena) (n elemSize : Nat) : Option (Nat × Arena) := do
  let sz := u32 (n * elemSize)
  let oldtop := top av s.mem
  let oldtopsize := chunksize s.mem oldtop
  let r ← malloc av fuel s sz
  if toInt32 n < 0 then some (0, r.2)
  else if r.1 = 0 then some (0, r.2)
  else
    let p := mem2chunk r.1
    let csz := chunksize r.2.mem p
    let csz := if p = oldtop ∧ oldtopsize < csz then oldtopsize else csz
    some (r.1, r.2.withMem (mallocZero r.2.mem r.1 (sub32 csz 4)))

variable {av lo hi P n e y z v c w k fuel : Nat} {mem mem' : Buf} {ts : List Tile} {bins : Bins}
  {s s' : Arena} {U V : Set (Nat × Nat)}

theorem zeroWords_eq (hp : c % 4 = 0) : zeroWords mem c k = copy mem c (fun _ => 0) (4 * k) := by
  induction k generalizing mem c with
  | zero =>
    funext x
    rw [zeroWords, copy, if_neg (by omega)]
  | succ k ih =>
    rw [zeroWords, ih (by omega)]
    funext x
    simp only [copy]
    rcases Nat.lt_or_ge x c with hlt | hge
    · rw [if_neg (by omega), if_neg (by omega), putLe32_of_lt hlt]
    · rcases Nat.lt_or_ge x (c + 4) with hin | hout
      · rw [if_neg (by omega), if_pos (by omega)]
        obtain ⟨i, rfl⟩ := Nat.exists_eq_add_of_le hge
        rw [putLe32, store_inside _ _ _ (by simp only [List.length_cons, List.length_nil]; omega)]
        have hi : i < 4 := by omega
        interval_cases i <;> rfl
      · rcases Nat.lt_or_ge x (c + 4 * (k + 1)) with hzero | hbeyond
        · rw [if_pos (by omega), if_pos (by omega)]
        · rw [if_neg (by omega), if_neg (by omega), putLe32_of_ge (by omega)]

theorem mallocZero_eq (hp : c % 4 = 0) (hleast : 12 ≤ n) (hn : n % 8 = 4)
    (hend : c + n ≤ 4294967296) : mallocZero mem c n = copy mem c (fun _ => 0) n := by
  rw [mallocZero]
  split_ifs with hsmall h20 h28 h36
  · rw [zeroWords_eq hp, show 4 * (2 + (2 + 2) + 3) = n by omega]
  · rw [zeroWords_eq hp, show 4 * (2 + (2 + 0) + 3) = n by omega]
  · rw [zeroWords_eq hp, show 4 * (2 + 0 + 3) = n by omega]
  · rw [zeroWords_eq hp, show 4 * (0 + 3) = n by omega]
  · funext x
    rw [copy]
    split_ifs with hin
    · exact memset_of_mem hin.1 hin.2 (by omega)
    · exact memset_of_notMem (by omega) hend (by omega)

theorem Layout.used_word (h : Layout av lo hi mem P ts bins) (hm : (v, z) ∈ ofKind .used P ts)
    (hlo : v + 4 ≤ w) (hhi : w < v + z + 4) : w ∉ listWords av bins := by
  have hbounds := h.bounds hm
  have hbehind := h.region.behind
  rintro (hin | ⟨j, c, hc, hlink⟩)
  · omega
  · obtain ⟨y, hy⟩ := h.free_of_listed hc
    have hsize := h.tiled.size hy
    rcases h.tiled.apart hm hy with ⟨-, -, hk⟩ | hside | hside
    · exact absurd hk (by decide)
    · omega
    · omega

theorem Layout.payload (h : Layout av lo hi mem P ts bins) (hm : (v, z) ∈ ofKind .used P ts)
    (hch : Changes {w | v + 8 ≤ w ∧ w < v + z + 4} mem mem') : Layout av lo hi mem' P ts bins := by
  have hav := h.region.array
  have hbehind := h.region.behind
  have hbounds := h.bounds hm
  have hnode := (h.node hm).aligned
  have hav4 := hav.aligned
  have hrings : Rings av mem' bins := by
    refine h.rings.frame_words hav hch ?_
    rintro w ⟨hlo, hhi⟩
    exact h.used_word hm (by omega) hhi
  have hblocks : binblocks av mem' = binblocks av mem := by
    refine binblocks_of_changes hav hch ?_
    simp only [Set.mem_ofPred_eq]
    omega
  have hword : le32 mem' (v + 4) = le32 mem (v + 4) := by
    refine hch.le32 (by omega) ?_
    simp only [Set.mem_ofPred_eq]
    omega
  have hmarked : Marked av mem' bins := h.marked.congr fun j hj => by rwa [hblocks]
  have hinner : Changes (inner av bins (v + 8) (v + z + 4)) mem mem' := by
    refine hch.mono ?_
    rintro w ⟨hlo, hhi⟩
    exact mem_inner_window hlo hhi
  obtain ⟨pre, t, post, rfl, rfl⟩ := h.used_at hm
  have hlist : pre ++ [⟨z, .used⟩, t] ++ post = pre ++ [⟨z, .used⟩] ++ (t :: post) := by simp
  have htiled := h.tiled
  rw [hlist] at h htiled ⊢
  obtain ⟨htag, -⟩ := tiled_mid htiled
  refine h.retile_inner hinner (by omega) (by simp) (by simp) rfl ?_ rfl hrings
    hmarked h.stocked rfl
  rw [tiled_cons]
  exact ⟨⟨htag.joined, htag.size, htag.aligned, hword.trans htag.head, fun hfree => by simp at hfree⟩,
    tiled_nil⟩

theorem Owns.payload (h : Owns av s U) (hm : (v, z) ∈ U)
    (hmem : ∀ c, c < v + 8 ∨ v + z + 4 ≤ c → mem' c = s.mem c) : Owns av (s.withMem mem') U := by
  obtain ⟨P, ts, bins, hrest, rfl⟩ := h
  have hnode := (hrest.layout.node hm).aligned
  have hsize := hrest.layout.tiled.size hm
  have hch : Changes {w | v + 8 ≤ w ∧ w < v + z + 4} s.mem mem' := by
    intro c hc
    refine hmem c ?_
    simp only [Set.mem_ofPred_eq] at hc
    omega
  exact ⟨P, ts, bins, ⟨hrest.layout.payload hm hch, ⟨hrest.range.lower, hrest.range.upper⟩,
    hrest.page⟩, rfl⟩

theorem Owns.apart (h : Owns av s U) {n w : Nat} (hn : (n, z) ∈ U) (hw : (w, y) ∈ U) :
    n = w ∧ z = y ∨ n + z ≤ w ∨ w + y ≤ n := by
  obtain ⟨P, ts, bins, hrest, rfl⟩ := h
  exact (hrest.layout.tiled.apart hn hw).imp_left fun heq => ⟨heq.1, heq.2.1⟩

theorem Owns.inside (h : Owns av s U) (hv : (v, z) ∈ U) : 8 ∣ v ∧
    s.heap.memMallocStart ≤ v ∧ v + z + 16 ≤ s.heap.memMallocBrk := by
  obtain ⟨P, ts, bins, hrest, rfl⟩ := h
  have hts : ts ≠ [] := by
    rintro rfl
    exact absurd hv (Set.notMem_empty _)
  obtain ⟨-, hbrk⟩ := hrest.brk hts
  have hinside := hrest.layout.inside.resolve_left hts
  have hnode := (hrest.layout.node hv).aligned
  obtain ⟨pre, t, rfl, -⟩ := hrest.layout.at_top hts
  have htop : (P + total pre, t) ∈ ofKind .top P (pre ++ [⟨t, .top⟩]) := mem_ofKind_append_cons
  have hsize := hrest.layout.tiled.size htop
  have hstart := (mem_ofKind_bounds hv).1
  rw [total_append, total_cons, total_nil] at hbrk
  rw [ofKind_append, ofKind_cons_ne (by simp), ofKind_nil, Set.union_empty] at hv
  have hfront := (mem_ofKind_bounds hv).2
  dsimp only at hbrk
  omega

theorem Owns.keptPayload (h : Owns av s V) (hm : (v, z) ∈ V) (hsub : U ⊆ V)
    (hfresh : ∀ y, (v, y) ∉ U) (hmem : ∀ c, c < v + 8 ∨ v + z + 4 ≤ c → mem' c = s.mem c) :
    Kept av U s (s.withMem mem') := by
  have hin := h.inside hm
  have hupper : s.heap.memMallocBrk ≤ s.heap.memMallocEnd := by
    obtain ⟨P, ts, bins, hrest, -⟩ := h
    exact hrest.range.upper
  refine ⟨rfl, rfl, ?_, ?_, ?_⟩
  · rintro ⟨w, y⟩ hx c hlo hhi
    refine hmem c ?_
    dsimp only at hlo hhi
    rcases h.apart (hsub hx) hm with ⟨rfl, -⟩ | hside | hside
    · exact absurd hx (hfresh y)
    · omega
    · omega
  · intro c hc
    exact hmem c (by omega)
  · intro c hc
    exact .inl ⟨hc, hmem c (.inr (by simp only [Arena.withMem] at hc; omega))⟩

theorem AtRest.callocSize (h : AtRest av s P ts bins)
    (hclear : ∀ c, s.heap.memMallocBrk ≤ c → s.mem c = 0)
    (hstart : s.heap.memMallocStart ≤ v) (hz : 16 ≤ z) (hz8 : 8 ∣ z)
    (hnew : ∀ c, s.heap.memMallocBrk ≤ c → v + 8 ≤ c → c < v + z + 4 → s'.mem c = s.mem c) :
    ∃ csz, (if v = top av s.mem ∧ chunksize s.mem (top av s.mem) < z then
        chunksize s.mem (top av s.mem) else z) = csz ∧
      16 ≤ csz ∧ 8 ∣ csz ∧ csz ≤ z ∧ ∀ c, v + csz + 4 ≤ c → c < v + z + 4 → s'.mem c = 0 := by
  split_ifs with hold
  · obtain ⟨htop, hsmall⟩ := hold
    have hbehind := h.layout.region.behind
    have hts : ts ≠ [] := by
      intro hts
      have hfresh := (h.fresh hts).1
      omega
    obtain ⟨-, hbrk⟩ := h.brk hts
    obtain ⟨pre, t, rfl, hat⟩ := h.layout.at_top hts
    have hm : (P + total pre, t) ∈ ofKind .top P (pre ++ [⟨t, .top⟩]) := mem_ofKind_append_cons
    have hsize := h.layout.tiled.size hm
    rw [hat, h.layout.chunksize_eq hm] at hsmall ⊢
    rw [total_append, total_cons, total_nil] at hbrk
    dsimp only at hbrk
    refine ⟨t, rfl, hsize.1, hsize.2.1, hsmall.le, ?_⟩
    intro c hlo hhi
    rw [hnew c (by omega) (by omega) hhi, hclear c (by omega)]
  · exact ⟨z, rfl, hz, hz8, le_rfl, fun c hlo hhi => absurd hhi (by omega)⟩

theorem Handed.cleared {nb m : Nat} (hh : Handed av nb U s s' v) (h : AtRest av s P ts bins)
    (hclear : ∀ c, s.heap.memMallocBrk ≤ c → s.mem c = 0) (hm : m + 4 ≤ nb) :
    ∃ mem', (let csz := chunksize s'.mem v
        let csz := if v = top av s.mem ∧ chunksize s.mem (top av s.mem) < csz then
          chunksize s.mem (top av s.mem) else csz
        mallocZero s'.mem (v + 8) (sub32 csz 4)) = mem' ∧
      Handed av nb U s (s'.withMem mem') v ∧ ∀ c, v + 8 ≤ c → c < v + 8 + m → mem' c = 0 := by
  obtain ⟨hkept, hfresh, z, howns, hfit, hexact, hnew⟩ := hh
  have hin : (v, z) ∈ insert (v, z) U := Set.mem_insert _ _
  obtain ⟨hv8, hstart, hend⟩ := howns.inside hin
  obtain ⟨P', ts', bins', hrest, hused⟩ := id howns
  have hplace := hin
  rw [← hused] at hplace
  have hsize := hrest.layout.tiled.size hplace
  have hupper := hrest.range.upper
  have hbelow := hrest.layout.region.below
  rw [hkept.start] at hstart
  obtain ⟨csz, hcsz, hleast, haligned, hle, hrest0⟩ :=
    h.callocSize hclear hstart hsize.1 hsize.2.1 hnew
  have hzero (c : Nat) (hlo : v + 8 ≤ c) (hhi : c < v + z + 4) :
      copy s'.mem (v + 8) (fun _ => 0) (csz - 4) c = 0 := by
    rcases Nat.lt_or_ge c (v + csz + 4) with hc | hc
    · rw [copy, if_pos (by omega)]
    · rw [copy_of_ge (by omega)]
      exact hrest0 c hc hhi
  have hother (c : Nat) (hc : c < v + 8 ∨ v + z + 4 ≤ c) :
      copy s'.mem (v + 8) (fun _ => 0) (csz - 4) c = s'.mem c := by
    rw [copy, if_neg (by omega)]
  refine ⟨copy s'.mem (v + 8) (fun _ => 0) (csz - 4), ?_, ⟨?_, hfresh, z, ?_, hfit, hexact, ?_⟩, ?_⟩
  · rw [hrest.layout.chunksize_eq hplace]
    dsimp only
    rw [hcsz, sub32_of_le (by omega)]
    exact mallocZero_eq (by omega) (by omega) (by omega) (by omega)
  · exact hkept.trans (howns.keptPayload hin (Set.subset_insert _ _) hfresh hother)
  · exact howns.payload hin hother
  · intro c hbrk hlo hhi
    exact (hzero c hlo hhi).trans (hclear c hbrk).symm
  · intro c hlo hhi
    exact hzero c hlo (by omega)

theorem AtRest.calloc (h : AtRest av s P ts bins) (hbytes : n * e < 2147479525)
    (hfuel : 536870912 < fuel) (hclear : ∀ c, s.heap.memMallocBrk ≤ c → s.mem c = 0) :
    ∃ r s', NonOsLite.calloc av fuel s n e = some (r, s') ∧
      ((r = 0 ∧ Kept av (ofKind .used P ts) s s' ∧ ∃ V, ofKind .used P ts ⊆ V ∧ Owns av s' V) ∨
        ∃ v, r = v + 8 ∧ Handed av (request2size (n * e)) (ofKind .used P ts) s s' v ∧
          ∀ c, v + 8 ≤ c → c < v + 8 + n * e → s'.mem c = 0) := by
  obtain ⟨r, s', hrun, hcase⟩ := h.malloc hbytes hfuel
  obtain ⟨-, hroom, -⟩ := request2size_spec hbytes
  have hnull : Kept av (ofKind .used P ts) s s' ∧
      ∃ V, ofKind .used P ts ⊆ V ∧ Owns av s' V := by
    rcases hcase with ⟨-, hrefused, -⟩ | ⟨v, -, hkept, -, z, howns, -⟩
    · obtain ⟨bins', hrest⟩ := hrefused.atRest
      exact ⟨hrefused.kept, _, le_rfl, hrest.holds⟩
    · exact ⟨hkept, _, Set.subset_insert _ _, howns⟩
  unfold NonOsLite.calloc
  rw [u32_of_lt (by omega)]
  dsimp only
  rw [hrun]
  simp only [Option.bind_eq_bind, Option.bind_some]
  rcases lt_or_ge (toInt32 n) 0 with hneg | hpos
  · rw [if_pos hneg]
    exact ⟨0, s', rfl, .inl ⟨rfl, hnull⟩⟩
  · rw [if_neg (not_lt.mpr hpos)]
    rcases hcase with ⟨rfl, -⟩ | ⟨v, rfl, hhanded⟩
    · rw [if_pos rfl]
      exact ⟨0, s', rfl, .inl ⟨rfl, hnull⟩⟩
    · obtain ⟨mem', hmem, hhanded', hclean⟩ := hhanded.cleared h hclear hroom
      rw [if_neg (by omega), show mem2chunk (v + 8) = v from Nat.add_sub_cancel v 8]
      dsimp only at hmem
      rw [hmem]
      exact ⟨_, _, rfl, .inr ⟨v, rfl, hhanded', hclean⟩⟩

end NonOsLite
