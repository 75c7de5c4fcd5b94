import NonOsLite.Heap.Allocate

namespace NonOsLite
open ByteBuf Ring BoundaryTags

variable {av P n z nb fuel : Nat} {mem' : Buf} {ts pre : List Tile} {bins : Bins} {s s' : Arena}

-- The state between two calls; without tiles the heap has not been entered yet.
structure AtRest (av : Nat) (s : Arena) (P : Nat) (ts : List Tile) (bins : Bins) : Prop where
  layout : Layout av s.heap.memMallocStart s.heap.memMallocEnd s.mem P ts bins
  range : s.heap.InRange
  page : ts = [] ∨ P + total ts = s.heap.memMallocBrk ∧ 4096 ∣ s.heap.memMallocBrk ∧
    s.sbrkBase ≠ noSbrkBase

structure Grows (s s' : Arena) : Prop where
  start : s'.heap.memMallocStart = s.heap.memMallocStart
  stop : s'.heap.memMallocEnd = s.heap.memMallocEnd
  brk : s.heap.memMallocBrk ≤ s'.heap.memMallocBrk

theorem Grows.refl (s : Arena) : Grows s s := ⟨rfl, rfl, le_rfl⟩

theorem morecore_up {heap : Heap} (hrange : heap.InRange) (hbelow : heap.memMallocEnd < 4294967296)
    (hspan : heap.memMallocEnd < heap.memMallocStart + 2147483648) (hn : n < 2147483648) :
    morecore heap (Int32.ofNat n) =
      if heap.memMallocBrk + n ≤ heap.memMallocEnd then
        (heap.memMallocBrk, { heap with memMallocBrk := heap.memMallocBrk + n })
      else (morecoreFailure, heap) := by
  obtain ⟨hlower, hupper⟩ := hrange
  have hint := toInt_more hn
  have hmem : heap.clearedMem (Int32.ofNat n) = heap.mem := by
    rw [Heap.clearedMem, hint, if_neg (by omega)]
  have hnew : heap.newBrk (Int32.ofNat n) = u32 (heap.memMallocBrk + n) := by
    rw [Heap.newBrk, hint, toU32, u32]
    omega
  split_ifs with hfits
  · have hexact : heap.newBrk (Int32.ofNat n) = heap.memMallocBrk + n := by
      rw [hnew, u32_of_lt (by omega)]
    have hacc : heap.Accepts (Int32.ofNat n) := by
      rw [Heap.Accepts, hexact]
      omega
    rw [morecore_accepts hacc, hexact, hmem]
  · have hacc : ¬heap.Accepts (Int32.ofNat n) := by
      rw [Heap.Accepts, hnew, u32]
      omega
    rw [morecore_refuses hacc, hmem]

def Arena.raise (s : Arena) (n : Nat) (mem : Buf) : Arena :=
  { s with heap := { s.heap with memMallocBrk := s.heap.memMallocBrk + n, mem := mem } }

theorem Arena.withMem_up (s : Arena) (n : Nat) (mem : Buf) :
    Arena.withMem ⟨{ s.heap with memMallocBrk := s.heap.memMallocBrk + n }, s.sbrkBase⟩ mem =
      s.raise n mem :=
  rfl

theorem Arena.mem_up (s : Arena) (n : Nat) :
    Arena.mem ⟨{ s.heap with memMallocBrk := s.heap.memMallocBrk + n }, s.sbrkBase⟩ = s.mem :=
  rfl

theorem Arena.raise_mem (s : Arena) (n : Nat) (mem : Buf) : (s.raise n mem).mem = mem := rfl

theorem Grows.raise (s : Arena) (n : Nat) (mem : Buf) : Grows s (s.raise n mem) :=
  ⟨rfl, rfl, Nat.le_add_right _ _⟩

theorem AtRest.raise {Q : Nat} {tiles : List Tile} {lists : Bins} (h : s.heap.InRange)
    (hfits : s.heap.memMallocBrk + n ≤ s.heap.memMallocEnd)
    (hlayout : Layout av s.heap.memMallocStart s.heap.memMallocEnd mem' Q tiles lists)
    (hpage : Q + total tiles = s.heap.memMallocBrk + n) (hbrk : 4096 ∣ s.heap.memMallocBrk + n)
    (hbase : s.sbrkBase ≠ noSbrkBase) : AtRest av (s.raise n mem') Q tiles lists :=
  ⟨hlayout, ⟨h.lower.trans (Nat.le_add_right _ _), hfits⟩, .inr ⟨hpage, hbrk, hbase⟩⟩

theorem AtRest.fresh (h : AtRest av s P ts bins) (hts : ts = []) : top av s.mem = av ∧
    chunksize s.mem av = 0 ∧ binblocks av s.mem = 0 ∧ ∀ i, bins i = [] := by
  subst hts
  obtain ⟨-, htop, hblocks⟩ := h.layout.topped.resolve_right (by simp)
  refine ⟨htop, ?_, hblocks, ?_⟩
  · rw [binblocks] at hblocks
    rw [chunksize, size, hblocks]
  · intro i
    refine List.eq_nil_iff_forall_not_mem.mpr ?_
    intro a ha
    obtain ⟨z, hz⟩ := h.layout.free_of_listed ha
    exact absurd hz (Set.notMem_empty _)

def firstTop (brk : Nat) : Nat := (brk + 7) / 8 * 8

def firstEnd (brk take : Nat) : Nat := (firstTop brk + take + 4095) / 4096 * 4096

theorem lead_eq (brk : Nat) : (if 0 < chunk2mem brk % 8 then 8 - chunk2mem brk % 8 else 0) =
    firstTop brk - brk := by
  rw [chunk2mem, firstTop]
  split_ifs <;> omega

theorem lead_add (brk : Nat) :
    brk + (if 0 < chunk2mem brk % 8 then 8 - chunk2mem brk % 8 else 0) = firstTop brk := by
  rw [lead_eq, firstTop]
  omega

theorem page_rest (x : Nat) :
    sub32 (u32 (u32 x + (pagesize - 1)) / pagesize * pagesize) (u32 x) =
      (x + 4095) / 4096 * 4096 - x := by
  unfold sub32 u32 pagesize
  split_ifs <;> omega

theorem correction_eq (brk : Nat) {take : Nat} (htake8 : 8 ∣ take) :
    u32 ((if 0 < chunk2mem brk % 8 then 8 - chunk2mem brk % 8 else 0) +
      sub32 (u32 (u32 (firstTop brk + take) + (pagesize - 1)) / pagesize * pagesize)
        (u32 (firstTop brk + take))) = firstEnd brk take - (brk + take) := by
  rw [lead_eq, page_rest, u32_of_lt (by unfold firstTop; omega)]
  unfold firstEnd firstTop
  omega

theorem AtRest.enter {q : Nat} (h : AtRest av s P [] bins) (hq : s.heap.memMallocStart ≤ q)
    (hq8 : 8 ∣ q) (hn : 16 ≤ n) (hn8 : 8 ∣ n) (hend : q + n ≤ s.heap.memMallocEnd) :
    Layout av s.heap.memMallocStart s.heap.memMallocEnd
        (setHead (setTop av s.mem q) q (n + 1)) q [⟨n, .top⟩] bins ∧
      top av (setHead (setTop av s.mem q) q (n + 1)) = q ∧
      Changes {av + 8, q + 4} s.mem (setHead (setTop av s.mem q) q (n + 1)) := by
  have hav := h.layout.region.array
  have hav4 := hav.aligned
  have hbehind := h.layout.region.behind
  have hbelow := h.layout.region.below
  obtain ⟨htop, -, hblocks, hbins⟩ := h.fresh rfl
  have hch : Changes {av + 8, q + 4} s.mem (setHead (setTop av s.mem q) q (n + 1)) :=
    ((Changes.refl _ s.mem).put (by omega) (.inl rfl)).put (by omega) (.inr rfl)
  have htop' : top av (setHead (setTop av s.mem q) q (n + 1)) = q := by
    rw [top, setHead, le32_putLe32_ne (by omega) (by omega) (by omega)]
    exact le32_putLe32 (by omega)
  have hrings : Rings av (setHead (setTop av s.mem q) q (n + 1)) bins := by
    refine h.layout.rings.frame hav hch ?_
    intro j x hj hj' hx
    rw [hbins, List.mem_singleton] at hx
    rw [hx, binAt]
    simp only [Set.mem_insert_iff, Set.mem_singleton_iff]
    omega
  have hmarked : Marked av (setHead (setTop av s.mem q) q (n + 1)) bins :=
    fun i _ hne => absurd (hbins i) hne
  have hstocked : Stocked bins (ofKind .free q [⟨n, .top⟩]) := by
    rw [ofKind_cons_ne (by simp), ofKind_nil]
    exact h.layout.stocked
  refine ⟨⟨h.layout.region, .inr ⟨hq, by simpa using hend⟩, hq8, ?_, hrings, hstocked, hmarked,
    .inr ⟨n, ?_⟩⟩, htop', hch⟩
  · rw [tiled_cons]
    refine ⟨⟨.inl rfl, hn, hn8, ?_, fun hfree => by simp at hfree⟩, tiled_nil⟩
    exact le32_putLe32 (by omega)
  · rw [htop', ofKind_cons_self]
    exact .inl rfl

theorem AtRest.extendElsewhere_eq {brk take : Nat} (h : AtRest av s P [] bins)
    (hbrk : s.heap.memMallocBrk = brk + take) (hlo : s.heap.memMallocStart ≤ brk) (htake : 16 ≤ take)
    (htake8 : 8 ∣ take) :
    extendElsewhere av fuel s brk take av 0 =
      if firstEnd brk take ≤ s.heap.memMallocEnd then
        pageEnd av (s.raise (firstEnd brk take - (brk + take)) (setHead (setTop av s.mem
          (firstTop brk)) (firstTop brk) (firstEnd brk take - firstTop brk + 1)))
            (firstEnd brk take - firstTop brk)
      else some s := by
  have hbehind := h.layout.region.behind
  have hbelow := h.layout.region.below
  have hspan := h.layout.region.span
  have hupper := h.range.upper
  have hinit : initialTop av = av := Nat.add_zero av
  have hreach : brk + take ≤ firstEnd brk take ∧ firstEnd brk take < brk + take + 4104 ∧
      firstTop brk + take ≤ firstEnd brk take ∧ brk ≤ firstTop brk ∧ firstTop brk < brk + 8 ∧
      8 ∣ firstTop brk ∧ 8 ∣ firstEnd brk take := by
    unfold firstEnd firstTop
    omega
  have hsbrk := morecore_up h.range hbelow hspan (n := firstEnd brk take - (brk + take)) (by omega)
  have hnew := correction_eq brk htake8
  unfold extendElsewhere
  dsimp only
  rw [lead_add, hnew]
  rcases Nat.lt_or_ge s.heap.memMallocEnd (firstEnd brk take) with hout | hfits
  · rw [if_neg (by omega)] at hsbrk
    rw [hsbrk]
    dsimp only
    rw [if_pos rfl, if_neg (by omega)]
  · have hnofail : ¬s.heap.memMallocBrk = morecoreFailure := by
      rw [morecoreFailure]
      omega
    have hsize : u32 (sub32 s.heap.memMallocBrk (firstTop brk) +
        (firstEnd brk take - (brk + take))) = firstEnd brk take - firstTop brk := by
      rw [sub32, if_pos (by omega), u32_of_lt (by omega)]
      omega
    have hn8 : 8 ∣ firstEnd brk take - firstTop brk := by omega
    rw [if_pos (by omega)] at hsbrk
    rw [hsbrk, if_pos hfits]
    dsimp only
    rw [if_neg hnofail, if_pos hinit.symm, hsize, or_one_of_dvd hn8, Arena.withMem_up,
      Arena.mem_up]

section extend

variable (h : AtRest av s P ts bins) (hreq : Padded nb)

include h hreq

theorem AtRest.extendTop_eq (hts : ts = pre ++ [⟨z, .top⟩]) : mallocExtendTop av fuel s nb =
    if s.heap.memMallocBrk + (nb + 4111) / 4096 * 4096 ≤ s.heap.memMallocEnd then
      pageEnd av (s.raise ((nb + 4111) / 4096 * 4096) (setHead s.mem (P + total pre)
        ((nb + 4111) / 4096 * 4096 + z + 1))) ((nb + 4111) / 4096 * 4096 + z)
    else some s := by
  subst hts
  have htop := h.layout.top_eq
  obtain ⟨hpage, hbrk, hbase⟩ := h.page.resolve_left (by simp)
  have hm : (P + total pre, z) ∈ ofKind .top P (pre ++ [⟨z, .top⟩]) := mem_ofKind_append_cons
  obtain ⟨hleast, hnb8, hnb⟩ := hreq
  have hregion := h.layout.region
  have hbehind := hregion.behind
  have hbelow := hregion.below
  have hspan := hregion.span
  have hbounds := h.layout.bounds hm
  have hsize := h.layout.tiled.size hm
  rw [total_append, total_cons, total_nil] at hpage
  dsimp only at hpage
  have hwanted : u32 (u32 (nb + topPad + minsize) + (pagesize - 1)) / pagesize * pagesize =
      (nb + 4111) / 4096 * 4096 := by
    have hpad : u32 (nb + topPad + minsize) = nb + 16 := u32_of_lt (by
      unfold topPad minsize
      omega)
    have hround : nb + 16 + (4096 - 1) = nb + 4111 := by omega
    unfold pagesize
    rw [hpad, hround, u32_of_lt (by omega)]
  have hend : P + total pre + z = s.heap.memMallocBrk := by omega
  have hsbrk := morecore_up h.range hbelow hspan (n := (nb + 4111) / 4096 * 4096) (by omega)
  generalize hmore : (nb + 4111) / 4096 * 4096 = more at hsbrk hwanted ⊢
  rcases Nat.lt_or_ge s.heap.memMallocEnd (s.heap.memMallocBrk + more) with hout | hfits
  · rw [if_neg (by omega)] at hsbrk ⊢
    simp only [mallocExtendTop, htop, h.layout.chunksize_eq hm, if_neg hbase, hwanted, hsbrk,
      true_or, if_true]
  · rw [if_pos hfits] at hsbrk ⊢
    have hnofail : ¬(s.heap.memMallocBrk = morecoreFailure ∨
        s.heap.memMallocBrk < P + total pre + z ∧ P + total pre ≠ initialTop av) := by
      rw [morecoreFailure]
      omega
    have hsum : u32 (more + z) = more + z := u32_of_lt (by omega)
    have hn8 : 8 ∣ more + z := by omega
    simp only [mallocExtendTop, htop, h.layout.chunksize_eq hm, if_neg hbase, hwanted, hsbrk,
      if_neg hnofail, if_pos hend.symm, hsum, or_one_of_dvd hn8]
    rw [Arena.withMem_up, Arena.mem_up]

theorem AtRest.extend_more (hts : ts = pre ++ [⟨z, .top⟩]) (fuel : Nat) :
    (mallocExtendTop av fuel s nb = some s ∧
        s.heap.memMallocEnd < s.heap.memMallocBrk + nb + 4112) ∨
      ∃ s' n, mallocExtendTop av fuel s nb = some s' ∧ Grows s s' ∧
        AtRest av s' P (pre ++ [⟨n, .top⟩]) bins ∧ nb + 16 ≤ n ∧
        ofKind .used P (pre ++ [⟨n, .top⟩]) = ofKind .used P ts ∧
        top av s'.mem = top av s.mem ∧ Changes {P + total pre + 4} s.mem s'.mem := by
  rw [h.extendTop_eq hreq hts]
  subst hts
  have htop := h.layout.top_eq
  obtain ⟨hpage, hbrk, hbase⟩ := h.page.resolve_left (by simp)
  have hm : (P + total pre, z) ∈ ofKind .top P (pre ++ [⟨z, .top⟩]) := mem_ofKind_append_cons
  obtain ⟨hleast, hnb8, hnb⟩ := hreq
  have hbelow := h.layout.region.below
  have hsize := h.layout.tiled.size hm
  rw [total_append, total_cons, total_nil] at hpage
  dsimp only at hpage
  generalize hmore : (nb + 4111) / 4096 * 4096 = more
  split_ifs with hfits
  · obtain ⟨hlayout, hused, htop', hch⟩ := h.layout.retagTop (n := more + z) (by omega) (by omega)
      (by omega)
    have hpage' : P + total (pre ++ [⟨more + z, .top⟩]) = s.heap.memMallocBrk + more := by
      rw [total_append, total_cons, total_nil]
      dsimp only
      omega
    have htops : u32 (top av (setHead s.mem (P + total pre) (more + z + 1)) + (more + z)) =
        s.heap.memMallocBrk + more := by
      rw [htop', htop, u32_of_lt (by omega)]
      omega
    have hexit : pageEnd av (s.raise more (setHead s.mem (P + total pre) (more + z + 1)))
        (more + z) = some (s.raise more (setHead s.mem (P + total pre) (more + z + 1))) := by
      unfold pageEnd pagesize
      rw [Arena.raise_mem, htops, if_pos (by omega)]
    refine .inr ⟨_, more + z, hexit, Grows.raise _ _ _, ?_, by omega, hused, ?_, ?_⟩
    · exact AtRest.raise h.range hfits hlayout hpage' (by omega) hbase
    · rw [Arena.raise_mem]
      exact htop'
    · rw [Arena.raise_mem]
      exact hch
  · exact .inl ⟨rfl, by omega⟩

end extend

theorem extendTop_fresh_eq (h : AtRest av s P [] bins) {take : Nat}
    (hwanted : (if s.sbrkBase = noSbrkBase then u32 (nb + topPad + minsize) else
      u32 (u32 (nb + topPad + minsize) + (pagesize - 1)) / pagesize * pagesize) = take)
    (hleast : 16 ≤ take) (htake : take < 2147483648) :
    mallocExtendTop av fuel s nb =
      if s.heap.memMallocBrk + take ≤ s.heap.memMallocEnd then
        extendElsewhere av fuel ⟨{ s.heap with memMallocBrk := s.heap.memMallocBrk + take },
          if s.sbrkBase = noSbrkBase then s.heap.memMallocBrk else s.sbrkBase⟩
          s.heap.memMallocBrk take av 0
      else some s := by
  obtain ⟨htop, hsize, -, -⟩ := h.fresh rfl
  have hbehind := h.layout.region.behind
  have hlower := h.range.lower
  have hsbrk := morecore_up h.range h.layout.region.below h.layout.region.span htake
  have hinit : initialTop av = av := Nat.add_zero av
  unfold mallocExtendTop
  dsimp only
  rw [hwanted, htop, hsize]
  rcases Nat.lt_or_ge s.heap.memMallocEnd (s.heap.memMallocBrk + take) with hout | hfits
  · rw [if_neg (by omega)] at hsbrk
    rw [hsbrk]
    dsimp only
    rw [if_pos (.inl rfl), if_neg (by omega)]
  · have hbelow := h.layout.region.below
    have hnofail : ¬(s.heap.memMallocBrk = morecoreFailure ∨
        s.heap.memMallocBrk < av + 0 ∧ av ≠ initialTop av) := by
      rw [morecoreFailure]
      rintro (hfail | ⟨-, hne⟩)
      · omega
      · exact hne hinit.symm
    rw [if_pos (by omega)] at hsbrk
    rw [hsbrk, if_pos hfits]
    dsimp only
    rw [if_neg hnofail, if_neg (by omega)]

theorem AtRest.elsewhere (h : AtRest av s P [] bins) {take base : Nat}
    (hfits : s.heap.memMallocBrk + take ≤ s.heap.memMallocEnd) (hroom : nb + 16 ≤ take)
    (hmost : take ≤ nb + 4111) (htake8 : 8 ∣ take) (hbase : base ≠ noSbrkBase) :
    ∃ s', extendElsewhere av fuel ⟨{ s.heap with memMallocBrk := s.heap.memMallocBrk + take }, base⟩
        s.heap.memMallocBrk take av 0 = some s' ∧ Grows s s' ∧
      (AtRest av s' P [] bins ∧ s'.mem = s.mem ∧
          s.heap.memMallocEnd < s.heap.memMallocBrk + nb + 8216 ∨
        ∃ q n, AtRest av s' q [⟨n, .top⟩] bins ∧ nb + 16 ≤ n ∧ s.heap.memMallocBrk ≤ q ∧
          top av s'.mem = q ∧ Changes {av + 8, q + 4} s.mem s'.mem) := by
  have hlower := h.range.lower
  have hbelow := h.layout.region.below
  have hraised : AtRest av ⟨{ s.heap with memMallocBrk := s.heap.memMallocBrk + take }, base⟩ P []
      bins := ⟨h.layout, ⟨hlower.trans (Nat.le_add_right _ _), hfits⟩, .inl rfl⟩
  have hstart : 8 ∣ firstTop s.heap.memMallocBrk ∧ s.heap.memMallocBrk ≤ firstTop s.heap.memMallocBrk ∧
      firstTop s.heap.memMallocBrk < s.heap.memMallocBrk + 8 := by
    unfold firstTop
    omega
  have hpage : 4096 ∣ firstEnd s.heap.memMallocBrk take ∧
      firstTop s.heap.memMallocBrk + take ≤ firstEnd s.heap.memMallocBrk take ∧
      firstEnd s.heap.memMallocBrk take < firstTop s.heap.memMallocBrk + take + 4096 := by
    unfold firstEnd
    omega
  rw [hraised.extendElsewhere_eq rfl hlower (by omega) htake8]
  generalize hq : firstTop s.heap.memMallocBrk = q at hstart hpage
  generalize hstop : firstEnd s.heap.memMallocBrk take = stop at hpage
  obtain ⟨hq8, hq', hq''⟩ := hstart
  obtain ⟨hpage, hlong, hshort⟩ := hpage
  split_ifs with hdone
  · change stop ≤ s.heap.memMallocEnd at hdone
    obtain ⟨hlayout, htop, hch⟩ := h.enter (q := q) (n := stop - q) (by omega) hq8 (by omega)
      (by omega) (by omega)
    have hsum : s.heap.memMallocBrk + take + (stop - (s.heap.memMallocBrk + take)) = stop := by
      omega
    have hexit (u : Arena) (hmem : u.mem = setHead (setTop av s.mem q) q (stop - q + 1)) :
        pageEnd av u (stop - q) = some u := by
      have hend : u32 (q + (stop - q)) % 4096 = 0 := by
        rw [u32_of_lt (by omega)]
        omega
      unfold pageEnd pagesize
      rw [hmem, htop, if_pos hend]
    refine ⟨_, hexit _ (Arena.raise_mem _ _ _), ⟨rfl, rfl, ?_⟩, .inr ⟨q, stop - q, ?_, by omega, hq',
      htop, hch⟩⟩
    · exact (Nat.le_add_right _ take).trans (Nat.le_add_right _ _)
    · refine AtRest.raise hraised.range ?_ hlayout ?_ ?_ hbase
      · change s.heap.memMallocBrk + take + (stop - (s.heap.memMallocBrk + take)) ≤ _
        rwa [hsum]
      · change _ = s.heap.memMallocBrk + take + (stop - (s.heap.memMallocBrk + take))
        rw [hsum, total_cons, total_nil]
        dsimp only
        omega
      · change 4096 ∣ s.heap.memMallocBrk + take + (stop - (s.heap.memMallocBrk + take))
        rwa [hsum]
  · refine ⟨_, rfl, ⟨rfl, rfl, Nat.le_add_right _ _⟩, .inl ⟨hraised, rfl, ?_⟩⟩
    change ¬stop ≤ s.heap.memMallocEnd at hdone
    omega

theorem AtRest.extend_fresh (h : AtRest av s P [] bins) (hreq : Padded nb) (fuel : Nat) :
    ∃ s', mallocExtendTop av fuel s nb = some s' ∧ Grows s s' ∧
      (AtRest av s' P [] bins ∧ s'.mem = s.mem ∧
          s.heap.memMallocEnd < s.heap.memMallocBrk + nb + 8216 ∨
        ∃ q n, AtRest av s' q [⟨n, .top⟩] bins ∧ nb + 16 ≤ n ∧ s.heap.memMallocBrk ≤ q ∧
          top av s'.mem = q ∧ Changes {av + 8, q + 4} s.mem s'.mem) := by
  obtain ⟨hleast, hnb8, hnb⟩ := hreq
  have hpad : u32 (nb + topPad + minsize) = nb + 16 := u32_of_lt (by
    unfold topPad minsize
    omega)
  obtain ⟨take, hwanted, htake⟩ : ∃ take, (if s.sbrkBase = noSbrkBase then
      u32 (nb + topPad + minsize) else
        u32 (u32 (nb + topPad + minsize) + (pagesize - 1)) / pagesize * pagesize) = take ∧
      nb + 16 ≤ take ∧ take ≤ nb + 4111 ∧ 8 ∣ take := by
    refine ⟨_, rfl, ?_⟩
    rw [hpad]
    unfold pagesize u32
    split_ifs <;> omega
  obtain ⟨hroom, hmost, htake8⟩ := htake
  have hlower := h.range.lower
  have hbelow := h.layout.region.below
  rw [extendTop_fresh_eq h hwanted (by omega) (by omega)]
  split_ifs with hfits hbase
  · refine h.elsewhere hfits hroom hmost htake8 ?_
    rw [noSbrkBase]
    omega
  · exact h.elsewhere hfits hroom hmost htake8 hbase
  · exact ⟨s, rfl, Grows.refl s, .inl ⟨h, rfl, by omega⟩⟩

end NonOsLite
