import NonOsLite.Heap.Release

namespace NonOsLite
open ByteBuf Ring BoundaryTags

variable {av lo hi P a b n q x y z v c w fuel stop pad : Nat} {mem mem' : Buf}
  {ts pre post : List Tile} {bins bins' : Bins} {s s' : Arena} {heap : Heap}

theorem toInt32_trimExtra (hn : n < 2147483648) (hpad : pad < 2147479552) :
    toInt32 (trimExtra n pad) = (((n : Int) - pad + 4079) / 4096 - 1) * 4096 := by
  have hinner : (u32 (sub32 (sub32 n pad) minsize + (pagesize - 1)) : Int) =
      ((n : Int) - pad + 4079) % 4294967296 := by
    unfold u32 sub32 minsize pagesize
    split_ifs <;> omega
  rw [trimExtra]
  generalize u32 (sub32 (sub32 n pad) minsize + (pagesize - 1)) = x at hinner ⊢
  unfold toInt32 u32 sub32 pagesize
  split_ifs <;> omega

theorem morecore_zero (hrange : heap.InRange) (hbelow : heap.memMallocEnd < 4294967296)
    (hspan : heap.memMallocEnd < heap.memMallocStart + 2147483648) :
    morecore heap 0 = (heap.memMallocBrk, heap) := by
  have hup := morecore_up hrange hbelow hspan (n := 0) (by decide)
  rw [Nat.add_zero, if_pos hrange.upper] at hup
  exact hup

theorem morecore_down (hrange : heap.InRange) (hbelow : heap.memMallocEnd < 4294967296)
    (hpos : 0 < n) (hn : n < 2147483648) (hlo : heap.memMallocStart + n ≤ heap.memMallocBrk) :
    morecore heap (Int32.ofInt (-(n : Int))) = (heap.memMallocBrk,
      { heap with memMallocBrk := heap.memMallocBrk - n,
                  mem := memset heap.mem (heap.memMallocBrk - n) 0 n }) := by
  have hupper := hrange.upper
  have hint := toInt_giveBack hn
  have hnew : heap.newBrk (Int32.ofInt (-(n : Int))) = heap.memMallocBrk - n := by
    rw [Heap.newBrk, hint, toU32]
    omega
  have hacc : heap.Accepts (Int32.ofInt (-(n : Int))) := by
    rw [Heap.Accepts, hnew]
    omega
  have hmem : heap.clearedMem (Int32.ofInt (-(n : Int))) =
      memset heap.mem (heap.memMallocBrk - n) 0 n := by
    rw [Heap.clearedMem, hint, hnew, if_pos (by omega), neg_neg, toU32_ofNat (by omega)]
  rw [morecore_accepts hacc, hnew, hmem]

theorem memset_of_mem (hlo : a ≤ x) (hhi : x < a + n) (hbelow : x < 4294967296) :
    memset mem a 0 n x = 0 := by
  rw [memset, sub32, if_pos hlo, if_pos (by omega)]

theorem memset_of_notMem (ha : a < 4294967296) (hend : a + n ≤ 4294967296)
    (hout : x < a ∨ a + n ≤ x) : memset mem a 0 n x = mem x := by
  rw [memset, sub32]
  split_ifs
  all_goals first | rfl | omega

theorem changes_memset (mem : Buf) (ha : 4 ∣ a) (hn : 4 ∣ n) (hend : a + n ≤ 4294967296) (hpos : 0 < n) :
    Changes {w | a ≤ w ∧ w < a + n} mem (memset mem a 0 n) := by
  intro x hx
  refine memset_of_notMem (by omega) hend ?_
  simp only [Set.mem_ofPred_eq, not_and, not_lt] at hx
  omega

def Arena.lower (s : Arena) (n : Nat) (mem : Buf) : Arena :=
  { s with heap := { s.heap with memMallocBrk := s.heap.memMallocBrk - n, mem := mem } }

theorem Arena.withMem_down (s : Arena) (n : Nat) (mem mem' : Buf) :
    Arena.withMem ⟨{ s.heap with memMallocBrk := s.heap.memMallocBrk - n, mem := mem }, s.sbrkBase⟩
      mem' = s.lower n mem' :=
  rfl

section trim

variable (h : AtRest av s P (pre ++ [⟨z, .top⟩]) bins)

include h

theorem AtRest.top_eq : top av s.mem = P + total pre ∧
    (P + total pre, z) ∈ ofKind .top P (pre ++ [⟨z, .top⟩]) ∧
    P + total pre + z = s.heap.memMallocBrk ∧ 4096 ∣ s.heap.memMallocBrk ∧
    s.sbrkBase ≠ noSbrkBase := by
  obtain ⟨hpage, hbrk, hbase⟩ := h.page.resolve_left (by simp)
  refine ⟨h.layout.top_eq, mem_ofKind_append_cons, ?_, hbrk, hbase⟩
  rw [total_append, total_cons, total_nil, ← Nat.add_assoc] at hpage
  exact hpage

theorem AtRest.mallocTrim_eq (hpad : pad < 2147479552) : mallocTrim av s pad = (0, s) ∨
    ∃ n, 4096 ∣ n ∧ 0 < n ∧ n + pad + 16 ≤ z ∧ mallocTrim av s pad = (1, s.lower n
      (setHead (memset s.mem (s.heap.memMallocBrk - n) 0 n) (P + total pre) (z - n + 1))) := by
  obtain ⟨htop, hm, hbrk, hpage, hbase⟩ := h.top_eq
  have hbounds := h.layout.bounds hm
  have hsize := h.layout.tiled.size hm
  have hspan := h.layout.region.span
  have hbelow := h.layout.region.below
  have hextra := toInt32_trimExtra (n := z) (by omega) hpad
  have hzero := morecore_zero h.range hbelow hspan
  unfold mallocTrim
  dsimp only
  rw [htop, h.layout.chunksize_eq hm, hextra, hzero, pagesize]
  rcases lt_or_ge ((((z : Int) - pad + 4079) / 4096 - 1) * 4096) 4096 with hfew | hmany
  · exact .inl (if_pos hfew)
  · obtain ⟨n, hn⟩ := Int.eq_ofNat_of_zero_le (show 0 ≤ (((z : Int) - pad + 4079) / 4096 - 1) * 4096
      by omega)
    rw [hn]
    rw [hn] at hmany
    have hfit : 4096 ∣ n ∧ n + pad + 16 ≤ z := by omega
    have hdown := morecore_down h.range hbelow (n := n) (by omega) (by omega) (by omega)
    have hnofail : ¬s.heap.memMallocBrk = morecoreFailure := by
      rw [morecoreFailure]
      omega
    have hav4 := h.layout.region.array.aligned
    have hbehind := h.layout.region.behind
    have hclear : Changes {w | s.heap.memMallocBrk - n ≤ w ∧ w < s.heap.memMallocBrk - n + n} s.mem
        (memset s.mem (s.heap.memMallocBrk - n) 0 n) :=
      changes_memset _ (by omega) (by omega) (by omega) (by omega)
    have htop' : top av (memset s.mem (s.heap.memMallocBrk - n) 0 n) = P + total pre := by
      rw [top, hclear.le32 (by omega) (by simp only [Set.mem_ofPred_eq]; omega)]
      exact htop
    have hrest : z - n ||| 1 = z - n + 1 := or_one_of_dvd (by omega)
    refine .inr ⟨n, hfit.1, by omega, hfit.2, ?_⟩
    rw [if_neg (by omega)]
    dsimp only
    rw [if_neg (by omega), hdown]
    dsimp only
    rw [if_neg hnofail]
    change (1, Arena.withMem ⟨{ s.heap with
      memMallocBrk := s.heap.memMallocBrk - n,
      mem := memset s.mem (s.heap.memMallocBrk - n) 0 n }, s.sbrkBase⟩ (setHead (memset s.mem
        (s.heap.memMallocBrk - n) 0 n) (top av (memset s.mem (s.heap.memMallocBrk - n) 0 n))
        (sub32 z n ||| 1))) = _
    rw [htop', sub32_of_le (by omega), hrest, Arena.withMem_down]

end trim

def trimmed (q z n : Nat) : Set Nat := insert (q + 4) {w | q + (z - n) ≤ w ∧ w < q + z}

theorem trimmed_window (hfit : n + 16 ≤ z) (hw : w ∈ trimmed q z n) :
    q + 4 ≤ w ∧ w < q + z + 4 ∧ w ≠ q + 8 ∧ w ≠ q + 12 := by
  rcases hw with rfl | ⟨hlo, hhi⟩
  · omega
  · omega

section lowered

variable (h : AtRest av s P (pre ++ [⟨z, .top⟩]) bins) (hn : 4096 ∣ n) (hpos : 0 < n)
  (hfit : n + 16 ≤ z) (hmem : mem' =
    setHead (memset s.mem (s.heap.memMallocBrk - n) 0 n) (P + total pre) (z - n + 1))

include h hn hpos hfit hmem

theorem AtRest.trim_changes : Changes (trimmed (P + total pre) z n) s.mem mem' := by
  obtain ⟨-, hm, hbrk, hpage, -⟩ := h.top_eq
  have hbounds := h.layout.bounds hm
  have hbelow := h.layout.region.below
  have hnode := (h.layout.node hm).aligned
  have hsize := h.layout.tiled.size hm
  have hstart : s.heap.memMallocBrk - n = P + total pre + (z - n) := by omega
  have hend : P + total pre + (z - n) + n = P + total pre + z := by omega
  have hclear := changes_memset s.mem (a := P + total pre + (z - n)) (n := n) (by omega) (by omega)
    (by omega) hpos
  rw [hend] at hclear
  rw [hmem, hstart]
  exact (hclear.mono (Set.subset_insert _ _)).put (by omega) (.inl rfl)

theorem AtRest.trim_layout : Layout av s.heap.memMallocStart s.heap.memMallocEnd mem' P
      (pre ++ [⟨z - n, .top⟩]) bins ∧
    ofKind .used P (pre ++ [⟨z - n, .top⟩]) = ofKind .used P (pre ++ [⟨z, .top⟩]) := by
  obtain ⟨-, hm, hbrk, hpage, -⟩ := h.top_eq
  have hav := h.layout.region.array
  have hav4 := hav.aligned
  have hbehind := h.layout.region.behind
  have hbelow := h.layout.region.below
  have hbounds := h.layout.bounds hm
  have hsize := h.layout.tiled.size hm
  have hch := h.trim_changes hn hpos hfit hmem
  have hrings : Rings av mem' bins := by
    refine h.layout.rings.frame_words hav hch ?_
    intro w hw
    obtain ⟨hlo, hhi, hfd, hbk⟩ := trimmed_window hfit hw
    exact h.layout.not_listWord hm hlo hhi hfd hbk
  have hblocks : binblocks av mem' = binblocks av s.mem := by
    refine binblocks_of_changes hav hch fun hw => ?_
    have := trimmed_window hfit hw
    omega
  have hinner : Changes (inner av bins (P + total pre + 4) (P + total pre + z + 4)) s.mem mem' := by
    refine hch.mono fun w hw => ?_
    obtain ⟨hlo, hhi, -⟩ := trimmed_window hfit hw
    exact mem_inner_window hlo hhi
  have hhead : le32 mem' (P + total pre + 4) = z - n + 1 := by
    rw [hmem]
    exact le32_putLe32 (by omega)
  exact h.layout.resizeTop (by omega) (by omega) (by omega) le_rfl hinner hhead hrings
    (h.layout.marked.congr fun k hk => by rwa [hblocks])

theorem AtRest.trim_behind {c : Nat} (hc : s.heap.memMallocBrk - n ≤ c) :
    s.heap.memMallocBrk ≤ c ∧ mem' c = s.mem c ∨ mem' c = 0 := by
  obtain ⟨-, hm, hbrk, hpage, -⟩ := h.top_eq
  have hbounds := h.layout.bounds hm
  have hbelow := h.layout.region.below
  have hch := h.trim_changes hn hpos hfit hmem
  rcases Nat.lt_or_ge c s.heap.memMallocBrk with hgiven | hbeyond
  · refine .inr ?_
    rw [hmem, setHead, putLe32_of_ge (by omega)]
    exact memset_of_mem (by omega) (by omega) (by omega)
  · refine .inl ⟨hbeyond, hch c fun hw => ?_⟩
    rcases hw with hw | ⟨hlo, hhi⟩
    · omega
    · omega

theorem AtRest.trim_kept :
    Kept av (ofKind .used P (pre ++ [⟨z, .top⟩])) s (s.lower n mem') := by
  obtain ⟨-, hm, hbrk, hpage, -⟩ := h.top_eq
  have hbehind := h.layout.region.behind
  have hbounds := h.layout.bounds hm
  have hupper := h.range.upper
  have hch := h.trim_changes hn hpos hfit hmem
  refine ⟨rfl, rfl, ?_, ?_, fun c => h.trim_behind hn hpos hfit hmem⟩
  · rintro ⟨c, y⟩ hc x hlo hhi
    have hy := h.layout.tiled.size hc
    dsimp only at hlo hhi
    refine hch x fun hw => ?_
    have hword := trimmed_window hfit hw
    rcases h.layout.tiled.apart hm hc with ⟨-, -, hk⟩ | hside | hside
    · exact absurd hk (by decide)
    · omega
    · omega
  · intro c hc
    refine hch c fun hw => ?_
    rcases hw with hw | ⟨hlo, hhi⟩
    · omega
    · omega

theorem AtRest.lowered : AtRest av (s.lower n mem') P (pre ++ [⟨z - n, .top⟩]) bins ∧
    ofKind .used P (pre ++ [⟨z - n, .top⟩]) = ofKind .used P (pre ++ [⟨z, .top⟩]) ∧
    Kept av (ofKind .used P (pre ++ [⟨z, .top⟩])) s (s.lower n mem') := by
  obtain ⟨-, hm, hbrk, hpage, hbase⟩ := h.top_eq
  have hbounds := h.layout.bounds hm
  have hupper := h.range.upper
  obtain ⟨hlayout, hused⟩ := h.trim_layout hn hpos hfit hmem
  refine ⟨⟨hlayout, ⟨?_, ?_⟩, .inr ⟨?_, ?_, hbase⟩⟩, hused, h.trim_kept hn hpos hfit hmem⟩
  · change s.heap.memMallocStart ≤ s.heap.memMallocBrk - n
    omega
  · change s.heap.memMallocBrk - n ≤ s.heap.memMallocEnd
    omega
  · change _ = s.heap.memMallocBrk - n
    rw [total_append, total_cons, total_nil]
    dsimp only
    omega
  · change 4096 ∣ s.heap.memMallocBrk - n
    omega

end lowered

theorem AtRest.mallocTrim (h : AtRest av s P (pre ++ [⟨z, .top⟩]) bins) (pad : Nat)
    (hpad : pad < 2147479552) :
    Owns av (NonOsLite.mallocTrim av s pad).2 (ofKind .used P (pre ++ [⟨z, .top⟩])) ∧
      Kept av (ofKind .used P (pre ++ [⟨z, .top⟩])) s (NonOsLite.mallocTrim av s pad).2 := by
  rcases h.mallocTrim_eq hpad with hsame | ⟨n, hn, hpos, hfit, hrun⟩
  · rw [hsame]
    exact ⟨h.holds, Kept.refl s⟩
  · obtain ⟨hrest, hused, hkept⟩ := h.lowered hn hpos (by omega) rfl
    rw [hrun]
    exact ⟨⟨P, _, bins, hrest, hused⟩, hkept⟩

end NonOsLite
