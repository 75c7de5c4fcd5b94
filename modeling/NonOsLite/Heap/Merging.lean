import NonOsLite.Heap.Contract

namespace NonOsLite
open ByteBuf Ring BoundaryTags

-- A chunk of z bytes at q that is in the last remainder's list, or in none; F are the others.
structure Merging (av : Nat) (bins : Bins) (F : Set (Nat × Nat)) (q z : Nat) (m : Merge) : Prop where
  p : m.p = q
  sz : m.sz = z
  rings : Rings av m.mem bins
  marked : Marked av m.mem bins
  last : m.islr = true → q ∈ bins 1 ∧ ∃ y, Stocked bins (insert (q, y) F)
  new : m.islr = false → Stocked bins F ∧ ∀ j, q ∉ bins j

variable {av q x y z v c fuel : Nat} {mem mem' : Buf} {bins bins' : Bins} {F : Set (Nat × Nat)}
  {m : Merge} {i : Nat} {xs ys : List Nat}

theorem Rings.fd_eq_last (h : Rings av mem bins) (hs : Stocked bins F) (hp : v ∈ bins i) :
    fd mem v = lastRemainder av ↔ v ∈ bins 1 := by
  obtain ⟨hi, hi'⟩ := h.range i v hp
  obtain ⟨xs, ys, hsplit⟩ := List.append_of_mem hp
  have hfd := h.fd_eq hi hi' hsplit
  constructor
  · intro heq
    rw [heq] at hfd
    cases ys with
    | nil =>
      rw [after_nil] at hfd
      obtain rfl : 1 = i := binAt_injective hfd
      exact hp
    | cons y ys =>
      rw [after_cons] at hfd
      have hy : y ∈ bins i := by simp [hsplit]
      exact absurd hfd.symm ((h.node i y hy).ne_binAt (by decide))
  · intro hone
    obtain rfl := h.once i 1 v hp hone
    rw [hs.eq_of_single hone] at hsplit
    cases xs with
    | nil =>
      rw [hfd, (List.cons.inj hsplit).2.symm, after_nil]
      rfl
    | cons a as => simp at hsplit

theorem Rings.marked_unlink (h : Rings av mem bins) (hm : Marked av mem bins) (hav : AvFits av)
    (hp : bins i = xs ++ v :: ys) :
    Marked av (NonOsLite.unlink mem v) (Function.update bins i (xs ++ ys)) := by
  have hv : v ∈ bins i := by simp [hp]
  obtain ⟨hi, hi'⟩ := h.range i v hv
  refine (hm.remove hp).congr ?_
  intro k hk
  rwa [binblocks_of_changes hav (h.unlink_changes hav hi hi' hp)]
  intro hw
  exact not_mem_linkWords h (h.node i v hv) (.inl rfl) (.inl hw)

section merging

variable (hav : AvFits av)

include hav

theorem Merging.backward (hm : Merging av bins (insert (q, x) F) v z m) (hislr : m.islr = false)
    (hprev : prevSize m.mem v = x) (hq : q + x = v) (hF : ∀ c ∈ F, c.1 ≠ q)
    (hsum : z + x < 4294967296) :
    ∃ bins', Merging av bins' F q (z + x) (consolidateBackward av m) ∧
      Changes (listWords av bins) m.mem (consolidateBackward av m).mem ∧
      listWords av bins' ⊆ listWords av bins := by
  obtain ⟨hstocked, -⟩ := hm.new hislr
  obtain ⟨i, hi⟩ := hstocked.found _ (Set.mem_insert _ _)
  obtain ⟨xs, ys, hsplit⟩ := List.append_of_mem hi
  obtain ⟨hi1, hi'⟩ := hm.rings.range i q hi
  have hplace : v - x = q := by omega
  unfold consolidateBackward
  dsimp only
  rw [hm.p, hm.sz, hprev, hplace, u32_of_lt hsum]
  split_ifs with hlast
  · have hone := (hm.rings.fd_eq_last hstocked hi).mp hlast
    refine ⟨bins, ⟨rfl, rfl, hm.rings, hm.marked, fun _ => ⟨hone, x, hstocked⟩, ?_⟩, Changes.refl _ _,
      subset_rfl⟩
    intro hfalse
    simp at hfalse
  · refine ⟨_, ⟨rfl, rfl, hm.rings.unlink hav hi1 hi' hsplit,
      hm.rings.marked_unlink hm.marked hav hsplit, ?_, fun _ => ⟨?_, ?_⟩⟩,
      hm.rings.unlink_changes hav hi1 hi' hsplit, listWords_update_subset ?_⟩
    · intro htrue
      simp [hislr] at htrue
    · exact hstocked.remove hm.rings hF hsplit
    · intro j hj
      exact ((hm.rings.mem_remove hsplit).mp hj).2 rfl
    · intro a ha
      rw [hsplit]
      simp only [List.mem_append, List.mem_cons] at ha ⊢
      tauto

theorem Merging.forward (hm : Merging av bins (insert (c, y) F) q z m) (hnode : IsNode av q)
    (hne : c ≠ q) (hF : ∀ a ∈ F, a.1 ≠ c) (hsum : z + y < 4294967296) :
    ∃ bins', Merging av bins' F q (z + y) (consolidateForward av m c y) ∧
      Changes (listWords av bins ∪ {q + 8, q + 12}) m.mem (consolidateForward av m c y).mem ∧
      listWords av bins' ⊆ listWords av bins ∪ {q + 8, q + 12} := by
  have hstocked : ∃ G, Stocked bins (insert (c, y) G) := by
    cases hislr : m.islr with
    | true =>
      obtain ⟨-, x, hs⟩ := hm.last hislr
      rw [Set.insert_comm] at hs
      exact ⟨_, hs⟩
    | false => exact ⟨F, (hm.new hislr).1⟩
  obtain ⟨G, hG⟩ := hstocked
  obtain ⟨i, hi⟩ := hG.found _ (Set.mem_insert _ _)
  obtain ⟨xs, ys, hsplit⟩ := List.append_of_mem hi
  obtain ⟨hi1, hi'⟩ := hm.rings.range i c hi
  have hsub : listWords av (Function.update bins i (xs ++ ys)) ⊆ listWords av bins := by
    refine listWords_update_subset ?_
    intro a ha
    rw [hsplit]
    simp only [List.mem_append, List.mem_cons] at ha ⊢
    tauto
  unfold consolidateForward
  dsimp only
  rw [hm.p, hm.sz, u32_of_lt hsum]
  split_ifs with hcase
  · obtain ⟨hislr, hlast⟩ := hcase
    obtain ⟨hs, hnew⟩ := hm.new hislr
    have hone := (hm.rings.fd_eq_last hs hi).mp hlast
    have hnil : bins 1 = [] ++ c :: [] := hs.eq_of_single hone
    have hremoved := (hs.remove hm.rings hF hnil).insertLast (p := q) (z := z + y) (by simp)
    rw [List.nil_append, Function.update_idem] at hremoved
    have hch := linkLastRemainder_changes m.mem bins hav hnode
    refine ⟨Function.update bins 1 [q], ⟨rfl, rfl,
      hm.rings.linkLastRemainder hav hnode fun j _ => hnew j, ?_, fun _ => ⟨by simp, _, hremoved⟩, ?_⟩,
      hch, ?_⟩
    · refine (hm.marked.update_last [q]).congr ?_
      intro k hk
      rwa [binblocks_of_changes hav hch (not_mem_linkWords hm.rings hnode (.inl rfl))]
    · intro hfalse
      simp at hfalse
    · rintro w (hin | ⟨j, a, ha, hlink⟩)
      · exact .inl (.inl hin)
      · rcases eq_or_ne j 1 with rfl | hj
        · rw [Function.update_self, List.mem_singleton] at ha
          rw [ha] at hlink
          exact .inr hlink
        · rw [Function.update_of_ne hj] at ha
          exact .inl (.inr ⟨j, a, ha, hlink⟩)
  · refine ⟨_, ⟨rfl, rfl, hm.rings.unlink hav hi1 hi' hsplit,
      hm.rings.marked_unlink hm.marked hav hsplit, ?_, ?_⟩,
      (hm.rings.unlink_changes hav hi1 hi' hsplit).mono Set.subset_union_left,
      hsub.trans Set.subset_union_left⟩
    · intro htrue
      obtain ⟨hone, x, hs⟩ := hm.last htrue
      rw [Set.insert_comm] at hs
      refine ⟨(hm.rings.mem_remove hsplit).mpr ⟨hone, hne.symm⟩, x, hs.remove hm.rings ?_ hsplit⟩
      rintro a (rfl | ha)
      · exact hne.symm
      · exact hF a ha
    · intro hfalse
      obtain ⟨hs, hnew⟩ := hm.new hfalse
      exact ⟨hs.remove hm.rings hF hsplit, fun j hj => hnew j ((hm.rings.mem_remove hsplit).mp hj).1⟩

theorem Merging.finish (hm : Merging av bins F q z m) (hnode : IsNode av q) (hbehind : av + 1032 ≤ q)
    (hz : 16 ≤ z) (hz8 : 8 ∣ z) (hend : q + z < 4294967296) (hF : ∀ a ∈ F, a.1 ≠ q)
    (hhead : q + 4 ∉ listWords av bins) (hfoot : q + z ∉ listWords av bins)
    (hfuel : 536870912 < fuel) :
    ∃ mem' bins', (if m.islr then some (setFoot (setHead m.mem m.p (m.sz ||| 1)) m.p m.sz) else
        frontlink av fuel (setFoot (setHead m.mem m.p (m.sz ||| 1)) m.p m.sz) m.p m.sz) = some mem' ∧
      Rings av mem' bins' ∧ Marked av mem' bins' ∧ Stocked bins' (insert (q, z) F) ∧
      Changes (listWords av bins ∪ {av + 4, q + 4, q + 8, q + 12, q + z}) m.mem mem' ∧
      le32 mem' (q + 4) = z + 1 ∧ le32 mem' (q + z) = z := by
  have halign := hav.aligned
  have hq8 := hnode.aligned
  rw [hm.p, hm.sz, or_one_of_dvd hz8]
  have hput : Changes {q + 4, q + z} m.mem (setFoot (setHead m.mem q (z + 1)) q z) :=
    ((Changes.refl _ m.mem).put (by omega) (.inl rfl)).put (by omega) (.inr rfl)
  have hword : le32 (setFoot (setHead m.mem q (z + 1)) q z) (q + 4) = z + 1 := by
    rw [setFoot, le32_putLe32_ne (by omega) (by omega) (by omega)]
    exact le32_putLe32 (by omega)
  have hfootword : le32 (setFoot (setHead m.mem q (z + 1)) q z) (q + z) = z :=
    le32_putLe32 (by omega)
  generalize setFoot (setHead m.mem q (z + 1)) q z = mem₁ at hput hword hfootword ⊢
  have hrings : Rings av mem₁ bins := by
    refine hm.rings.frame hav hput ?_
    intro i x hi hi' hx
    have hfd := mem_listWords_fd hi hi' hx
    have hbk := mem_listWords_bk hi hi' hx
    simp only [Set.mem_insert_iff, Set.mem_singleton_iff, not_or]
    exact ⟨⟨fun heq => hhead (heq ▸ hfd), fun heq => hfoot (heq ▸ hfd)⟩,
      fun heq => hhead (heq ▸ hbk), fun heq => hfoot (heq ▸ hbk)⟩
  have hblocks : binblocks av mem₁ = binblocks av m.mem := by
    refine binblocks_of_changes hav hput ?_
    simp only [Set.mem_insert_iff, Set.mem_singleton_iff]
    omega
  have hmarked : Marked av mem₁ bins := hm.marked.congr fun k hk => by rwa [hblocks]
  cases hislr : m.islr with
  | true =>
    obtain ⟨hone, y, hs⟩ := hm.last hislr
    refine ⟨mem₁, bins, rfl, hrings, hmarked, hs.resize hrings hone hF z, hput.mono ?_, hword,
      hfootword⟩
    rintro w (rfl | rfl)
    · exact .inr (.inr (.inl rfl))
    · exact .inr (.inr (.inr (.inr (.inr rfl))))
  | false =>
    obtain ⟨hs, hnew⟩ := hm.new hislr
    obtain ⟨mem', zs, zs', hrun, hf⟩ := hrings.frontlink hav hnode hnew hz hfuel
    have hclass := le_binIndex hz
    have hch : Changes (listWords av bins ∪ {av + 4, q + 8, q + 12}) mem₁ mem' := hf.changes
    refine ⟨mem', _, by simpa using hrun, hf.rings, hmarked.frontlink hf,
      hs.insert hf.split rfl (by omega), ?_, ?_, ?_⟩
    · refine (hput.mono ?_).trans (hch.mono ?_)
      · rintro w (rfl | rfl)
        · exact .inr (.inr (.inl rfl))
        · exact .inr (.inr (.inr (.inr (.inr rfl))))
      · refine Set.union_subset_union_right _ ?_
        rintro w (rfl | rfl | rfl)
        · exact .inl rfl
        · exact .inr (.inr (.inl rfl))
        · exact .inr (.inr (.inr (.inl rfl)))
    · rw [hch.le32 (by omega) ?_, hword]
      rintro (hw | hw)
      · exact hhead hw
      · simp only [Set.mem_insert_iff, Set.mem_singleton_iff] at hw
        omega
    · rw [hch.le32 (by omega) ?_, hfootword]
      rintro (hw | hw)
      · exact hfoot hw
      · simp only [Set.mem_insert_iff, Set.mem_singleton_iff] at hw
        omega

end merging

end NonOsLite
