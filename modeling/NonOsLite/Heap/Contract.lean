import NonOsLite.Heap.Extend

namespace NonOsLite
open ByteBuf Ring BoundaryTags

def Owns (av : Nat) (s : Arena) (U : Set (Nat × Nat)) : Prop :=
  ∃ P ts bins, AtRest av s P ts bins ∧ ofKind .used P ts = U

structure Kept (av : Nat) (U : Set (Nat × Nat)) (s s' : Arena) : Prop where
  start : s'.heap.memMallocStart = s.heap.memMallocStart
  stop : s'.heap.memMallocEnd = s.heap.memMallocEnd
  used : ∀ x ∈ U, ∀ c, x.1 + 8 ≤ c → c < x.1 + x.2 + 4 → s'.mem c = s.mem c
  outside : ∀ c, c < s.heap.memMallocStart ∧ (c < av ∨ av + 1032 ≤ c) ∨ s.heap.memMallocEnd ≤ c →
    s'.mem c = s.mem c
  behind : ∀ c, s'.heap.memMallocBrk ≤ c →
    s.heap.memMallocBrk ≤ c ∧ s'.mem c = s.mem c ∨ s'.mem c = 0

-- The chunk v of at least nb bytes is new; what was behind the break is still as it was.
structure Handed (av nb : Nat) (U : Set (Nat × Nat)) (s s' : Arena) (v : Nat) : Prop where
  kept : Kept av U s s'
  fresh : ∀ y, (v, y) ∉ U
  holds : ∃ z, Owns av s' (insert (v, z) U) ∧ nb ≤ z ∧ z < nb + 16 ∧
    ∀ c, s.heap.memMallocBrk ≤ c → v + 8 ≤ c → c < v + z + 4 → s'.mem c = s.mem c

variable {av lo hi P a b n z v w nb fuel idx bytes : Nat} {mem mem' mem'' mem₁ : Buf}
  {ts ts' pre : List Tile} {bins bins' bins₁ : Bins} {i j p : Nat} {xs ys : List Nat}
  {U V F : Set (Nat × Nat)} {k : Kind} {s s' s'' : Arena}

theorem Kept.refl (s : Arena) : Kept av U s s :=
  ⟨rfl, rfl, fun _ _ _ _ _ => rfl, fun _ _ => rfl, fun _ hc => .inl ⟨hc, rfl⟩⟩

theorem Kept.trans (h : Kept av U s s') (h' : Kept av U s' s'') : Kept av U s s'' := by
  refine ⟨h'.start.trans h.start, h'.stop.trans h.stop, ?_, ?_, ?_⟩
  · intro x hx c hlo hhi
    exact (h'.used x hx c hlo hhi).trans (h.used x hx c hlo hhi)
  · intro c hc
    refine (h'.outside c ?_).trans (h.outside c hc)
    rwa [h.start, h.stop]
  · intro c hc
    rcases h'.behind c hc with ⟨hbrk, heq⟩ | hzero
    · rw [heq]
      exact h.behind c hbrk
    · exact .inr hzero

theorem Frames.kept (h : Frames av s.heap.memMallocStart s'.heap.memMallocBrk U s.mem s'.mem)
    (hgrows : Grows s s') (hrange : s'.heap.memMallocBrk ≤ s.heap.memMallocEnd) :
    Kept av U s s' := by
  refine ⟨hgrows.start, hgrows.stop, h.used, ?_, ?_⟩
  · intro c hc
    refine h.outside c (hc.imp_right ?_)
    omega
  · intro c hc
    exact .inl ⟨hgrows.brk.trans hc, h.outside c (.inr hc)⟩

theorem Layout.top_size (h : Layout av lo hi mem P (pre ++ [⟨z, .top⟩]) bins)
    (hn : (n, i) ∈ ofKind .top P (pre ++ [⟨z, .top⟩])) : i = z := by
  obtain ⟨xs, ys, hsplit, -⟩ := mem_ofKind_split hn
  have htiled := h.tiled
  rw [hsplit] at htiled
  obtain rfl := top_last htiled
  have hlast := (List.append_inj' hsplit rfl).2
  simp only [List.cons.injEq, Tile.mk.injEq, and_true] at hlast
  exact hlast.symm

section atRest

variable (h : AtRest av s P ts bins)

include h

theorem AtRest.holds : Owns av s (ofKind .used P ts) := ⟨P, ts, bins, h, rfl⟩

theorem AtRest.withMem (hlayout : Layout av s.heap.memMallocStart s.heap.memMallocEnd mem' P ts' bins')
    (htotal : total ts' = total ts) (hts : ts ≠ []) : AtRest av (s.withMem mem') P ts' bins' := by
  refine ⟨hlayout, ⟨h.range.lower, h.range.upper⟩, .inr ?_⟩
  rw [htotal]
  exact h.page.resolve_left hts

theorem AtRest.brk (hts : ts ≠ []) : 4 ∣ s.heap.memMallocBrk ∧
    P + total ts = s.heap.memMallocBrk := by
  obtain ⟨hpage, hbrk, -⟩ := h.page.resolve_left hts
  exact ⟨by omega, hpage⟩

theorem AtRest.kept (hframes : Frames av s.heap.memMallocStart s.heap.memMallocBrk
    U s.mem mem') : Kept av U s (s.withMem mem') :=
  Frames.kept hframes ⟨rfl, rfl, le_rfl⟩ h.range.upper

theorem AtRest.handed (hts : ts ≠ []) (hserved : Served av s.heap.memMallocStart
    s.heap.memMallocEnd s.heap.memMallocBrk P nb s.mem mem' ts v) :
    Handed av nb (ofKind .used P ts) s (s.withMem mem') v := by
  obtain ⟨⟨z, ts', bins', hlayout, hused, hfit, hexact, htotal⟩, hnew, hframes⟩ := hserved
  refine ⟨h.kept hframes, hnew, z, ⟨P, ts', bins', h.withMem hlayout htotal hts, hused⟩, hfit,
    hexact, ?_⟩
  intro c hc _ _
  exact hframes.outside c (.inr hc)

theorem AtRest.cutTop (hreq : Padded nb) (hts : ts = pre ++ [⟨z, .top⟩]) (hrest : nb + 16 ≤ z) :
    top av s.mem = P + total pre ∧
      Kept av (ofKind .used P ts) s (s.withMem (cutTop av s.mem nb)) ∧
      Owns av (s.withMem (cutTop av s.mem nb)) (insert (P + total pre, nb) (ofKind .used P ts)) ∧
      ∀ c, P + total pre + 8 ≤ c → c < P + total pre + nb + 4 →
        NonOsLite.cutTop av s.mem nb c = s.mem c := by
  obtain ⟨hbrk4, hbrk⟩ := h.brk (by simp [hts])
  subst hts
  obtain ⟨htop, ⟨ts', hlayout, hused, htotal⟩, hframes, hpayload⟩ :=
    h.layout.cutTop hreq hrest hbrk4 hbrk.le
  exact ⟨htop, h.kept hframes, ⟨P, ts', bins, h.withMem hlayout htotal (by simp), hused⟩, hpayload⟩

theorem AtRest.topRemainder (pre : List Tile) (hreq : Padded nb) (hts : ts = pre ++ [⟨z, .top⟩]) :
    remainderSize s.mem (top av s.mem) nb < minsize ↔ z < nb + 16 := by
  have hnb := hreq.below
  subst hts
  have hm : (P + total pre, z) ∈ ofKind .top P (pre ++ [⟨z, .top⟩]) := mem_ofKind_append_cons
  rw [h.layout.top_eq, h.layout.remainderSize_eq hm (by omega), minsize]
  omega

theorem AtRest.freshRemainder (hreq : Padded nb) (hts : ts = []) :
    remainderSize s.mem (top av s.mem) nb < minsize := by
  obtain ⟨htop, hsize, -, -⟩ := h.fresh hts
  have hnb := hreq.below
  have hleast := hreq.least
  rw [remainderSize, htop, hsize, toInt32, sub32, u32, minsize]
  split_ifs <;> omega

end atRest

structure Refused (av nb : Nat) (P : Nat) (ts : List Tile) (s s' : Arena) : Prop where
  kept : Kept av (ofKind .used P ts) s s'
  atRest : ∃ bins, AtRest av s' P ts bins
  top : ∀ x ∈ ofKind .top P ts, x.2 < nb + 16
  behind : s.heap.memMallocEnd < s.heap.memMallocBrk + nb + 8216

theorem AtRest.keptByTop (h : AtRest av s' P (pre ++ [⟨z, .top⟩]) bins) (hgrows : Grows s s')
    (hch : Changes {av + 8, P + total pre + 4} s.mem s'.mem) :
    Kept av (ofKind .used P (pre ++ [⟨z, .top⟩])) s s' := by
  have hm : (P + total pre, z) ∈ ofKind .top P (pre ++ [⟨z, .top⟩]) := mem_ofKind_append_cons
  obtain ⟨hbrk4, hbrk⟩ := h.brk (by simp)
  have hav := h.layout.region.array.aligned
  have hbehind := h.layout.region.behind
  have hbounds := h.layout.bounds hm
  have hnode := (h.layout.node hm).aligned
  have hsize := h.layout.tiled.size hm
  have hupper := h.range.upper
  have hstart := hgrows.start
  have hstop := hgrows.stop
  refine Frames.kept ⟨?_, ?_⟩ hgrows (by omega)
  · rintro ⟨c, y⟩ hc x hlo hhi
    have hused := h.layout.bounds hc
    have hside := h.layout.tiled.apart hm hc
    refine hch x ?_
    simp only [Set.mem_insert_iff, Set.mem_singleton_iff]
    rcases hside with ⟨-, -, hk⟩ | hside | hside
    · exact absurd hk (by decide)
    · omega
    · dsimp only at hlo hhi
      omega
  · intro c hc
    refine hch c ?_
    simp only [Set.mem_insert_iff, Set.mem_singleton_iff]
    omega

theorem AtRest.useExtended (pre : List Tile) (h : AtRest av s' P (pre ++ [⟨z, .top⟩]) bins)
    (hreq : Padded nb) (hrest : nb + 16 ≤ z) (hgrows : Grows s s')
    (hused : ofKind .used P (pre ++ [⟨z, .top⟩]) = U)
    (hch : Changes {av + 8, P + total pre + 4} s.mem s'.mem) :
    chunk2mem (top av s'.mem) = P + total pre + 8 ∧
      Handed av nb U s (s'.withMem (NonOsLite.cutTop av s'.mem nb)) (P + total pre) := by
  have hm : (P + total pre, z) ∈ ofKind .top P (pre ++ [⟨z, .top⟩]) := mem_ofKind_append_cons
  have hkept := h.keptByTop hgrows hch
  have hnode := (h.layout.node hm).aligned
  have hbounds := h.layout.bounds hm
  have hbehind := h.layout.region.behind
  obtain ⟨htop, hcut, hholds, hpayload⟩ := h.cutTop hreq rfl hrest
  rw [hused] at hcut hholds hkept
  refine ⟨by rw [htop, chunk2mem], hkept.trans hcut, hused ▸ h.layout.not_used hm (by decide), nb,
    hholds, le_rfl, by omega, ?_⟩
  intro c hbrk hlo hhi
  refine (hpayload c hlo hhi).trans (hch c ?_)
  simp only [Set.mem_insert_iff, Set.mem_singleton_iff]
  omega

theorem AtRest.useTop (h : AtRest av s P ts bins) (hreq : Padded nb) (fuel : Nat) :
    ∃ r s', useTop av fuel s nb = some (r, s') ∧
      (r = 0 ∧ Refused av nb P ts s s' ∨
        ∃ v, r = v + 8 ∧ Handed av nb (ofKind .used P ts) s s' v) := by
  unfold NonOsLite.useTop
  rcases eq_or_ne ts [] with rfl | hts
  · obtain ⟨s', hrun, hgrows, hcase⟩ := h.extend_fresh hreq fuel
    rw [if_pos (h.freshRemainder hreq rfl), hrun]
    simp only [Option.bind_eq_bind, Option.bind_some]
    rcases hcase with ⟨hrest, hmem, hend⟩ | ⟨q, n, hrest, hroom, hq, htop, hch⟩
    · rw [if_pos (hrest.freshRemainder hreq rfl)]
      have hupper := hrest.range.upper
      rw [hgrows.stop] at hupper
      refine ⟨0, s', rfl, .inl ⟨rfl, Frames.kept ?_ hgrows hupper, ⟨bins, hrest⟩, by simp, hend⟩⟩
      rw [hmem]
      exact Frames.refl s.mem
    · have hbig := (hrest.topRemainder [] hreq rfl).not.mpr (by omega)
      obtain ⟨hptr, hhanded⟩ := hrest.useExtended [] hreq hroom hgrows
        (ofKind_cons_ne (by simp)) hch
      rw [if_neg hbig, hptr]
      exact ⟨_, _, rfl, .inr ⟨_, rfl, hhanded⟩⟩
  · obtain ⟨pre, z, rfl, htop⟩ := h.layout.at_top hts
    rcases Nat.lt_or_ge z (nb + 16) with hsmall | hbig
    · rw [if_pos ((h.topRemainder pre hreq rfl).mpr hsmall)]
      rcases h.extend_more hreq rfl fuel with
        ⟨hrun, hend⟩ | ⟨s', n, hrun, hgrows, hrest, hroom, hused, -, hch⟩
      · rw [hrun]
        simp only [Option.bind_eq_bind, Option.bind_some]
        rw [if_pos ((h.topRemainder pre hreq rfl).mpr hsmall)]
        refine ⟨0, s, rfl, .inl ⟨rfl, Kept.refl s, ⟨bins, h⟩, ?_, by omega⟩⟩
        rintro ⟨c, y⟩ hc
        rwa [h.layout.top_size hc]
      · rw [hrun]
        simp only [Option.bind_eq_bind, Option.bind_some]
        have hbig := (hrest.topRemainder pre hreq rfl).not.mpr (by omega)
        obtain ⟨hptr, hhanded⟩ := hrest.useExtended pre hreq hroom hgrows hused
          (hch.mono (Set.subset_insert _ _))
        rw [if_neg hbig, hptr]
        exact ⟨_, _, rfl, .inr ⟨_, rfl, hhanded⟩⟩
    · obtain ⟨-, hkept, hholds, hpayload⟩ := h.cutTop hreq rfl hbig
      rw [if_neg ((h.topRemainder pre hreq rfl).not.mpr (by omega)), htop, chunk2mem]
      exact ⟨_, _, rfl, .inr ⟨_, rfl, hkept,
        h.layout.not_used mem_ofKind_append_cons (by decide), nb, hholds, le_rfl, by omega,
        fun c _ hlo hhi => hpayload c hlo hhi⟩⟩

theorem Layout.noFit (h : Layout av lo hi mem P ts bins) (hempty : bins 1 = [])
    (hno : NoFit (ofKind .free P ts) bins nb) : ∀ x ∈ ofKind .free P ts, x.2 < nb := by
  rintro ⟨a, z⟩ hz
  obtain ⟨i, hi⟩ := h.stocked.found _ hz
  have hrange := h.rings.range i a hi
  refine hno i a z ?_ hi hz
  rcases Nat.eq_or_lt_of_le hrange.1 with rfl | hlt
  · rw [hempty] at hi
    exact absurd hi List.not_mem_nil
  · exact hlt

section before

variable (h : AtRest av s P ts bins) (hframes : Frames av s.heap.memMallocStart s.heap.memMallocBrk
  (ofKind .used P ts) s.mem mem')

include h hframes

theorem Refused.before (hr : Refused av nb P ts (s.withMem mem') s') : Refused av nb P ts s s' :=
  ⟨(h.kept hframes).trans hr.kept, hr.atRest, hr.top, hr.behind⟩

theorem Handed.before (hh : Handed av nb (ofKind .used P ts) (s.withMem mem') s' v) :
    Handed av nb (ofKind .used P ts) s s' v := by
  obtain ⟨hkept, hfresh, z, hholds, hfit, hexact, hpayload⟩ := hh
  refine ⟨(h.kept hframes).trans hkept, hfresh, z, hholds, hfit, hexact, ?_⟩
  intro c hbrk hlo hhi
  exact (hpayload c hbrk hlo hhi).trans (hframes.outside c (.inr hbrk))

end before

theorem Layout.exactFit (h : Layout av lo hi mem P ts bins) (hreq : Padded nb)
    (hfuel : 536870912 < fuel) :
    (∃ v, exactFit av fuel mem nb = some (.inl v) ∧ ExactAt (ofKind .free P ts) bins nb v) ∨
      ∃ idx, exactFit av fuel mem nb = some (.inr idx) ∧
        (binIndex nb < idx ∨ binIndex nb = idx ∧ bins idx ≠ []) ∧
        SearchFrom (ofKind .free P ts) bins nb idx := by
  rcases Nat.lt_or_ge nb 504 with hsmall | hlarge
  · exact h.exactFit_small hreq hsmall
  · exact h.exactFit_large hreq (not_lt.mpr hlarge) hfuel

theorem AtRest.fresh_search (h : AtRest av s P [] bins) (fuel nb idx : Nat) :
    useLastRemainder av fuel s.mem nb = some (s.mem, none) ∧
      searchBins av fuel s.mem nb idx = some (s.mem, none) := by
  obtain ⟨-, -, hblocks, -⟩ := h.fresh rfl
  have hempty : fd s.mem (lastRemainder av) = lastRemainder av := by
    rcases h.layout.fd_lastRemainder with ⟨-, hfd⟩ | ⟨v, z, -, -, -, hm⟩
    · exact hfd
    · exact absurd hm (Set.notMem_empty _)
  have hpos : ¬2 ^ (idx / 4) ≤ 0 := not_le.mpr (by positivity)
  rw [NonOsLite.useLastRemainder, searchBins, idx2binblock, hblocks]
  dsimp only
  rw [if_pos hempty, if_neg hpos]
  exact ⟨rfl, rfl⟩

theorem AtRest.malloc (h : AtRest av s P ts bins) (hbytes : bytes < 2147479525)
    (hfuel : 536870912 < fuel) : ∃ r s', malloc av fuel s bytes = some (r, s') ∧
      (r = 0 ∧ Refused av (request2size bytes) P ts s s' ∧
          (∀ x ∈ ofKind .free P ts, x.2 < request2size bytes) ∨
        ∃ v, r = v + 8 ∧ Handed av (request2size bytes) (ofKind .used P ts) s s' v) := by
  obtain ⟨hreq, -, -⟩ := request2size_spec hbytes
  have hbehind := h.layout.region.behind
  have hstarted : ¬(s.heap.memMallocStart = 0 ∧ s.heap.memMallocEnd = 0) := by omega
  have hpos : ¬toInt32 bytes < 0 := by
    rw [toInt32, u32]
    split_ifs <;> omega
  unfold NonOsLite.malloc
  rw [if_neg hstarted, if_neg hpos]
  dsimp only
  rcases h.layout.exactFit hreq hfuel with ⟨v, hrun, hexact⟩ | ⟨idx, hrun, hidx, hfrom⟩
  · have hts : ts ≠ [] := by
      rintro rfl
      obtain ⟨z, i, xs, ys, -, hm, -⟩ := hexact
      exact absurd hm (Set.notMem_empty _)
    obtain ⟨hbrk4, hbrk⟩ := h.brk hts
    have hserved := h.layout.takeExact hexact hbrk4 hbrk.le
    rw [hrun]
    exact ⟨_, _, rfl, .inr ⟨v, rfl, h.handed hts hserved⟩⟩
  · rw [hrun]
    simp only [Option.bind_eq_bind, Option.bind_some]
    rcases eq_or_ne ts [] with rfl | hts
    · obtain ⟨hlast, hsearch⟩ := h.fresh_search fuel (request2size bytes) idx
      rw [hlast]
      simp only [Option.bind_some]
      rw [hsearch]
      obtain ⟨r, s', hrun, hcase⟩ := h.useTop hreq fuel
      refine ⟨r, s', hrun, hcase.imp_left ?_⟩
      rintro ⟨hr, hrefused⟩
      exact ⟨hr, hrefused, by simp⟩
    · obtain ⟨hbrk4, hbrk⟩ := h.brk hts
      rcases h.layout.useLastRemainder hts hreq hfrom hidx hfuel hbrk4 hbrk.le with
        ⟨mem', bins', hlast, hlayout, hempty, hfrom', hframes⟩ | ⟨mem', v, hlast, hserved⟩
      · rw [hlast]
        simp only [Option.bind_some]
        obtain ⟨mem'', r, hsearch, hlayout', hframes', hfound, hnone⟩ :=
          hlayout.searchBins hreq hfuel hts hbrk4 hbrk.le hfrom'
        rw [hsearch]
        simp only [Option.bind_some]
        have hboth := hframes.trans hframes'
        have hmid := h.withMem hlayout' rfl hts
        cases r with
        | some v =>
          have hserved := hlayout'.useFit hreq hempty (hfound v rfl) hbrk4 hbrk.le
          exact ⟨_, _, rfl, .inr ⟨v, rfl, Handed.before h hboth (hmid.handed hts hserved)⟩⟩
        | none =>
          obtain ⟨r, s', hrun, hcase⟩ := hmid.useTop hreq fuel
          refine ⟨r, s', hrun, ?_⟩
          rcases hcase with ⟨hr, hrefused⟩ | ⟨v, hr, hhanded⟩
          · exact .inl ⟨hr, hrefused.before h hboth, hlayout'.noFit hempty (hnone rfl)⟩
          · exact .inr ⟨v, hr, hhanded.before h hboth⟩
      · rw [hlast]
        exact ⟨_, _, rfl, .inr ⟨v, rfl, h.handed hts hserved⟩⟩

end NonOsLite
