import NonOsLite.Heap.Malloc
import NonOsLite.Lib.Ring

namespace NonOsLite
open ByteBuf Ring

-- The chunks of every list, in the order of their fd links; the lists are 1 to 127.
abbrev Bins := Nat → List Nat

structure IsNode (av a : Nat) : Prop where
  aligned : 8 ∣ a
  below : a + 16 ≤ 4294967296
  outside : a + 16 ≤ av ∨ av + 1032 ≤ a

structure AvFits (av : Nat) : Prop where
  aligned : 4 ∣ av
  below : av + 1032 ≤ 4294967296

structure Rings (av : Nat) (mem : Buf) (bins : Bins) : Prop where
  ring : ∀ i, 1 ≤ i → i < 128 → IsRing (fd mem) (bk mem) (binAt av i) (bins i)
  nodup : ∀ i, (bins i).Nodup
  once : ∀ i j a, a ∈ bins i → a ∈ bins j → i = j
  range : ∀ i a, a ∈ bins i → 1 ≤ i ∧ i < 128
  node : ∀ i a, a ∈ bins i → IsNode av a

def Ref (av x : Nat) : Prop := (∃ i, 1 ≤ i ∧ i < 128 ∧ x = binAt av i) ∨ IsNode av x

def listWords (av : Nat) (bins : Bins) : Set Nat :=
  {w | av + 16 ≤ w ∧ w < av + 1032 ∨ ∃ i, ∃ a ∈ bins i, w = a + 8 ∨ w = a + 12}

variable {av : Nat} {mem mem' : Buf} {bins : Bins} {i j p v x y : Nat} {xs ys zs : List Nat}

theorem binAt_injective (h : binAt av i = binAt av j) : i = j := by
  rw [binAt, binAt] at h
  omega

theorem IsNode.ne_binAt (h : IsNode av p) (hi : i < 128) : p ≠ binAt av i := by
  have := h.outside
  rw [binAt]
  omega

theorem Ref.aligned (hav : AvFits av) (h : Ref av x) : 4 ∣ x := by
  have := hav.aligned
  rcases h with ⟨i, -, -, rfl⟩ | hnode
  · rw [binAt]
    omega
  · exact Nat.dvd_trans (by decide) hnode.aligned

theorem Ref.lt (hav : AvFits av) (h : Ref av x) : x < 4294967296 := by
  have := hav.below
  rcases h with ⟨i, -, hi, rfl⟩ | hnode
  · rw [binAt]
    omega
  · have := hnode.below
    omega

theorem Ref.fd_ne_bk (hx : Ref av x) (hy : Ref av y) : x + 8 ≠ y + 12 := by
  rcases hx with ⟨i, hi, hi', rfl⟩ | hx
  · rcases hy with ⟨j, hj, hj', rfl⟩ | hy
    · rw [binAt, binAt]
      omega
    · have := hy.outside
      rw [binAt]
      omega
  · rcases hy with ⟨j, hj, hj', rfl⟩ | hy
    · have := hx.outside
      rw [binAt]
      omega
    · have := hx.aligned
      have := hy.aligned
      omega

theorem fd_setFd_self (hv : v < 4294967296) : fd (setFd mem x v) x = v := le32_putLe32 hv

theorem bk_setBk_self (hv : v < 4294967296) : bk (setBk mem x v) x = v := le32_putLe32 hv

theorem fd_setFd_ne (hav : AvFits av) (hx : Ref av x) (hy : Ref av y) (hne : y ≠ x) :
    fd (setFd mem x v) y = fd mem y :=
  le32_putLe32_ne (by have := hx.aligned hav; omega) (by have := hy.aligned hav; omega) (by omega)

theorem bk_setBk_ne (hav : AvFits av) (hx : Ref av x) (hy : Ref av y) (hne : y ≠ x) :
    bk (setBk mem x v) y = bk mem y :=
  le32_putLe32_ne (by have := hx.aligned hav; omega) (by have := hy.aligned hav; omega) (by omega)

theorem fd_setBk (hav : AvFits av) (hx : Ref av x) (hy : Ref av y) :
    fd (setBk mem x v) y = fd mem y :=
  le32_putLe32_ne (by have := hx.aligned hav; omega) (by have := hy.aligned hav; omega)
    (hy.fd_ne_bk hx)

theorem bk_setFd (hav : AvFits av) (hx : Ref av x) (hy : Ref av y) :
    bk (setFd mem x v) y = bk mem y :=
  le32_putLe32_ne (by have := hx.aligned hav; omega) (by have := hy.aligned hav; omega)
    (hx.fd_ne_bk hy).symm

theorem Rings.ref (h : Rings av mem bins) (hi : 1 ≤ i) (hi' : i < 128)
    (hx : x ∈ binAt av i :: bins i) : Ref av x := by
  rcases List.mem_cons.mp hx with rfl | hmem
  · exact .inl ⟨i, hi, hi', rfl⟩
  · exact .inr (h.node i x hmem)

theorem Rings.refs_disjoint (h : Rings av mem bins) (hi : i < 128) (hj : j < 128) (hne : j ≠ i)
    (hx : x ∈ binAt av i :: bins i) (hy : y ∈ binAt av j :: bins j) : y ≠ x := by
  rintro rfl
  rcases List.mem_cons.mp hx with rfl | hx
  · rcases List.mem_cons.mp hy with heq | hy
    · exact hne (binAt_injective heq.symm)
    · exact (h.node j _ hy).ne_binAt hi rfl
  · rcases List.mem_cons.mp hy with rfl | hy
    · exact (h.node i _ hx).ne_binAt hj rfl
    · exact hne (h.once j i _ hy hx)

theorem Rings.nodup_ring (h : Rings av mem bins) (hi : i < 128) : (binAt av i :: bins i).Nodup := by
  refine List.nodup_cons.mpr ⟨?_, h.nodup i⟩
  intro hmem
  exact (h.node i _ hmem).ne_binAt hi rfl

theorem Rings.update (h : Rings av mem bins) (hi : 1 ≤ i) (hi' : i < 128)
    (hring : IsRing (fd mem') (bk mem') (binAt av i) zs) (hnodup : zs.Nodup)
    (hnode : ∀ a ∈ zs, IsNode av a ∧ ∀ j, j ≠ i → a ∉ bins j)
    (hsame : ∀ j, 1 ≤ j → j < 128 → j ≠ i → ∀ x ∈ binAt av j :: bins j,
      fd mem' x = fd mem x ∧ bk mem' x = bk mem x) :
    Rings av mem' (Function.update bins i zs) := by
  constructor
  · intro j hj hj'
    rcases eq_or_ne j i with rfl | hne
    · rwa [Function.update_self]
    · rw [Function.update_of_ne hne]
      exact (h.ring j hj hj').congr (fun a ha => (hsame j hj hj' hne a ha).1)
        fun a ha => (hsame j hj hj' hne a ha).2
  · intro j
    rcases eq_or_ne j i with rfl | hne
    · rwa [Function.update_self]
    · rw [Function.update_of_ne hne]
      exact h.nodup j
  · intro j k a hj hk
    rcases eq_or_ne j i with rfl | hji
    · rcases eq_or_ne k j with rfl | hki
      · rfl
      · rw [Function.update_self] at hj
        rw [Function.update_of_ne hki] at hk
        exact absurd hk ((hnode a hj).2 k hki)
    · rw [Function.update_of_ne hji] at hj
      rcases eq_or_ne k i with rfl | hki
      · rw [Function.update_self] at hk
        exact absurd hj ((hnode a hk).2 j hji)
      · rw [Function.update_of_ne hki] at hk
        exact h.once j k a hj hk
  · intro j a ha
    rcases eq_or_ne j i with rfl | hne
    · exact ⟨hi, hi'⟩
    · rw [Function.update_of_ne hne] at ha
      exact h.range j a ha
  · intro j a ha
    rcases eq_or_ne j i with rfl | hne
    · rw [Function.update_self] at ha
      exact (hnode a ha).1
    · rw [Function.update_of_ne hne] at ha
      exact h.node j a ha

theorem Rings.frame {W : Set Nat} (hav : AvFits av) (h : Rings av mem bins)
    (hch : Changes W mem mem')
    (hW : ∀ i x, 1 ≤ i → i < 128 → x ∈ binAt av i :: bins i → x + 8 ∉ W ∧ x + 12 ∉ W) :
    Rings av mem' bins := by
  refine ⟨?_, h.nodup, h.once, h.range, h.node⟩
  intro i hi hi'
  refine (h.ring i hi hi').congr ?_ ?_
  · intro a ha
    have halign := (h.ref hi hi' ha).aligned hav
    exact hch.le32 (by omega) (hW i a hi hi' ha).1
  · intro a ha
    have halign := (h.ref hi hi' ha).aligned hav
    exact hch.le32 (by omega) (hW i a hi hi' ha).2

theorem mem_listWords_fd (hi : 1 ≤ i) (hi' : i < 128) (hx : x ∈ binAt av i :: bins i) :
    x + 8 ∈ listWords av bins := by
  rcases List.mem_cons.mp hx with rfl | hmem
  · refine .inl ?_
    rw [binAt]
    omega
  · exact .inr ⟨i, x, hmem, .inl rfl⟩

theorem mem_listWords_bk (hi : 1 ≤ i) (hi' : i < 128) (hx : x ∈ binAt av i :: bins i) :
    x + 12 ∈ listWords av bins := by
  rcases List.mem_cons.mp hx with rfl | hmem
  · refine .inl ?_
    rw [binAt]
    omega
  · exact .inr ⟨i, x, hmem, .inr rfl⟩

theorem Rings.frame_words {W : Set Nat} (hav : AvFits av) (h : Rings av mem bins)
    (hch : Changes W mem mem') (hW : ∀ w ∈ W, w ∉ listWords av bins) : Rings av mem' bins := by
  refine h.frame hav hch ?_
  intro i x hi hi' hx
  exact ⟨fun hw => hW _ hw (mem_listWords_fd hi hi' hx),
    fun hw => hW _ hw (mem_listWords_bk hi hi' hx)⟩

theorem Rings.front_not_listWord (h : Rings av mem bins) {k : Nat} (hk : k = 4 ∨ k = 8) :
    av + k ∉ listWords av bins := by
  rintro (hin | ⟨i, a, ha, hlink⟩)
  · omega
  · have := (h.node i a ha).outside
    omega

theorem before_mem_split (av : Nat) (h : bins i = xs ++ ys) :
    before (binAt av i) xs ∈ binAt av i :: bins i := by
  rw [h]
  rcases List.mem_cons.mp (before_mem (binAt av i) xs) with heq | hmem
  · rw [heq]
    exact List.mem_cons_self
  · exact List.mem_cons_of_mem _ (List.mem_append_left _ hmem)

theorem after_mem_split (av : Nat) (h : bins i = xs ++ ys) :
    after (binAt av i) ys ∈ binAt av i :: bins i := by
  rw [h]
  rcases List.mem_append.mp (after_mem (binAt av i) ys) with hmem | heq
  · exact List.mem_cons_of_mem _ (List.mem_append_right _ hmem)
  · rw [List.mem_singleton.mp heq]
    exact List.mem_cons_self

section unlink

variable (hav : AvFits av) (h : Rings av mem bins) (hi : 1 ≤ i) (hi' : i < 128)
  (hp : bins i = xs ++ p :: ys)

include h hi hi' hp

theorem Rings.bk_eq : bk mem p = before (binAt av i) xs := by
  have hring := h.ring i hi hi'
  rw [hp] at hring
  exact hring.prev_at

theorem Rings.fd_eq : fd mem p = after (binAt av i) ys := by
  have hring := h.ring i hi hi'
  rw [hp] at hring
  exact hring.next_at

include hav

theorem Rings.unlink : Rings av (unlink mem p) (Function.update bins i (xs ++ ys)) := by
  have hbefore := before_mem_split av hp
  have hafter := after_mem_split av (hp.trans (List.append_cons xs p ys))
  have hrefb := h.ref hi hi' hbefore
  have hrefa := h.ref hi hi' hafter
  have hall := h.nodup_ring hi'
  rw [NonOsLite.unlink, h.bk_eq hi hi' hp, h.fd_eq hi hi' hp]
  rw [hp] at hall
  have hnodup : (binAt av i :: (xs ++ ys)).Nodup :=
    hall.sublist (((List.sublist_cons_self p ys).append_left xs).cons_cons _)
  have hsub (a : Nat) (ha : a ∈ binAt av i :: (xs ++ ys)) : a ∈ binAt av i :: bins i := by
    rw [hp]
    simp only [List.mem_cons, List.mem_append] at ha ⊢
    tauto
  refine h.update hi hi' ?_ hnodup.of_cons ?_ ?_
  · have hring := h.ring i hi hi'
    rw [hp] at hring
    refine hring.remove hnodup ?_ ?_ ?_ ?_
    · intro a ha hne
      rw [fd_setFd_ne hav hrefb (h.ref hi hi' (hsub a ha)) hne,
        fd_setBk hav hrefa (h.ref hi hi' (hsub a ha))]
    · intro a ha hne
      rw [bk_setFd hav hrefb (h.ref hi hi' (hsub a ha)),
        bk_setBk_ne hav hrefa (h.ref hi hi' (hsub a ha)) hne]
    · exact fd_setFd_self (hrefa.lt hav)
    · rw [bk_setFd hav hrefb hrefa, bk_setBk_self (hrefb.lt hav)]
  · intro a ha
    have hmem : a ∈ bins i := by
      rw [hp]
      simp only [List.mem_cons, List.mem_append] at ha ⊢
      tauto
    exact ⟨h.node i a hmem, fun j hne hj => hne (h.once j i a hj hmem)⟩
  · intro j hj hj' hne x hx
    have hrefx := h.ref hj hj' hx
    constructor
    · rw [fd_setFd_ne hav hrefb hrefx (h.refs_disjoint hi' hj' hne hbefore hx),
        fd_setBk hav hrefa hrefx]
    · rw [bk_setFd hav hrefb hrefx,
        bk_setBk_ne hav hrefa hrefx (h.refs_disjoint hi' hj' hne hafter hx)]

theorem Rings.unlink_changes : Changes (listWords av bins) mem (NonOsLite.unlink mem p) := by
  have hbefore := before_mem_split av hp
  have hafter := after_mem_split av (hp.trans (List.append_cons xs p ys))
  have halignb := (h.ref hi hi' hbefore).aligned hav
  have haligna := (h.ref hi hi' hafter).aligned hav
  rw [NonOsLite.unlink, h.bk_eq hi hi' hp, h.fd_eq hi hi' hp]
  exact ((Changes.refl _ mem).put (by omega) (mem_listWords_bk hi hi' hafter)).put (by omega)
    (mem_listWords_fd hi hi' hbefore)

end unlink

section link

variable (hav : AvFits av) (h : Rings av mem bins) (hi : 1 ≤ i) (hi' : i < 128)
  (hsplit : bins i = xs ++ ys) (hp : IsNode av p) (hnew : ∀ j, p ∉ bins j)

include h hi hi' hsplit hp hnew hav

theorem Rings.link : Rings av
    (linkBetween mem p (before (binAt av i) xs) (after (binAt av i) ys))
    (Function.update bins i (xs ++ p :: ys)) := by
  have hbefore := before_mem_split av hsplit
  have hafter := after_mem_split av hsplit
  have hrefb := h.ref hi hi' hbefore
  have hrefa := h.ref hi hi' hafter
  have hrefp : Ref av p := .inr hp
  have hneq (j x : Nat) (hj : j < 128) (hx : x ∈ binAt av j :: bins j) : x ≠ p := by
    rintro rfl
    rcases List.mem_cons.mp hx with heq | hmem
    · exact hp.ne_binAt hj heq
    · exact hnew j hmem
  have hnodup := h.nodup_ring hi'
  rw [linkBetween]
  rw [hsplit] at hnodup
  have hmem (a : Nat) (ha : a ∈ binAt av i :: (xs ++ ys)) : a ∈ binAt av i :: bins i := by
    rwa [hsplit]
  refine h.update hi hi' ?_ ?_ ?_ ?_
  · have hring := h.ring i hi hi'
    rw [hsplit] at hring
    refine hring.insert hnodup ?_ ?_ ?_ ?_ ?_ ?_
    · intro a ha hne
      have hrefx := h.ref hi hi' (hmem a ha)
      rw [fd_setBk hav hrefa hrefx, fd_setFd_ne hav hrefb hrefx hne,
        fd_setFd_ne hav hrefp hrefx (hneq i a hi' (hmem a ha)), fd_setBk hav hrefp hrefx]
    · intro a ha hne
      have hrefx := h.ref hi hi' (hmem a ha)
      rw [bk_setBk_ne hav hrefa hrefx hne, bk_setFd hav hrefb hrefx, bk_setFd hav hrefp hrefx,
        bk_setBk_ne hav hrefp hrefx (hneq i a hi' (hmem a ha))]
    · rw [fd_setBk hav hrefa hrefb, fd_setFd_self (hrefp.lt hav)]
    · rw [bk_setBk_ne hav hrefa hrefp (hneq i _ hi' hafter).symm, bk_setFd hav hrefb hrefp,
        bk_setFd hav hrefp hrefp, bk_setBk_self (hrefb.lt hav)]
    · rw [fd_setBk hav hrefa hrefp, fd_setFd_ne hav hrefb hrefp (hneq i _ hi' hbefore).symm,
        fd_setFd_self (hrefa.lt hav)]
    · exact bk_setBk_self (hrefp.lt hav)
  · have hxy := hnodup.of_cons
    have hpnew := hnew i
    rw [hsplit] at hpnew
    exact (List.nodup_middle.mpr (List.nodup_cons.mpr ⟨hpnew, hxy⟩))
  · intro a ha
    rcases eq_or_ne a p with rfl | hap
    · exact ⟨hp, fun j _ => hnew j⟩
    · have hin : a ∈ bins i := by
        rw [hsplit]
        simp only [List.mem_append, List.mem_cons, hap, false_or] at ha ⊢
        exact ha
      exact ⟨h.node i a hin, fun j hne hj => hne (h.once j i a hj hin)⟩
  · intro j hj hj' hne x hx
    have hrefx := h.ref hj hj' hx
    have hxb := h.refs_disjoint hi' hj' hne hbefore hx
    have hxa := h.refs_disjoint hi' hj' hne hafter hx
    have hxp := hneq j x hj' hx
    constructor
    · rw [fd_setBk hav hrefa hrefx, fd_setFd_ne hav hrefb hrefx hxb,
        fd_setFd_ne hav hrefp hrefx hxp, fd_setBk hav hrefp hrefx]
    · rw [bk_setBk_ne hav hrefa hrefx hxa, bk_setFd hav hrefb hrefx, bk_setFd hav hrefp hrefx,
        bk_setBk_ne hav hrefp hrefx hxp]

omit hnew in
theorem Rings.link_changes : Changes (listWords av bins ∪ {p + 8, p + 12}) mem
    (linkBetween mem p (before (binAt av i) xs) (after (binAt av i) ys)) := by
  have hbefore := before_mem_split av hsplit
  have hafter := after_mem_split av hsplit
  have halignb := (h.ref hi hi' hbefore).aligned hav
  have haligna := (h.ref hi hi' hafter).aligned hav
  have halignp := hp.aligned
  refine ((((Changes.refl _ mem).put ?_ (.inr (.inr rfl))).put ?_ (.inr (.inl rfl))).put ?_
    (.inl (mem_listWords_fd hi hi' hbefore))).put ?_ (.inl (mem_listWords_bk hi hi' hafter))
  all_goals omega

end link

theorem Ref.not_front (hx : Ref av x) : x + 8 ∉ ({av + 4, av + 8} : Set Nat) ∧
    x + 12 ∉ ({av + 4, av + 8} : Set Nat) := by
  simp only [Set.mem_insert_iff, Set.mem_singleton_iff]
  rcases hx with ⟨i, hi, hi', rfl⟩ | hnode
  · rw [binAt]
    omega
  · have := hnode.outside
    omega

theorem Rings.put_front (hav : AvFits av) (h : Rings av mem bins) {w : Nat}
    (hw : w ∈ ({av + 4, av + 8} : Set Nat)) : Rings av (putLe32 mem w v) bins := by
  have halign := hav.aligned
  have hw4 : 4 ∣ w := by
    rcases hw with rfl | rfl
    · omega
    · omega
  refine h.frame hav ((changes_putLe32 hw4).mono (Set.singleton_subset_iff.mpr hw)) ?_
  intro i x hi hi' hx
  exact (h.ref hi hi' hx).not_front

section lastRemainder

variable (hav : AvFits av) (h : Rings av mem bins)

include hav h

theorem Rings.linkLastRemainder (hp : IsNode av p) (hnew : ∀ j, j ≠ 1 → p ∉ bins j) :
    Rings av (linkLastRemainder av mem p) (Function.update bins 1 [p]) := by
  have hrefl : Ref av (lastRemainder av) := .inl ⟨1, by decide, by decide, rfl⟩
  have hrefp : Ref av p := .inr hp
  have hne : p ≠ lastRemainder av := hp.ne_binAt (by decide)
  rw [NonOsLite.linkLastRemainder]
  refine h.update (by decide) (by decide) ?_ (List.nodup_singleton p) ?_ ?_
  · refine isRing_singleton.mpr ⟨⟨?_, ?_⟩, ?_, ?_⟩
    · change fd _ (lastRemainder av) = p
      rw [fd_setFd_ne hav hrefp hrefl hne.symm, fd_setBk hav hrefp hrefl,
        fd_setFd_self (hrefp.lt hav)]
    · rw [bk_setFd hav hrefp hrefp]
      exact bk_setBk_self (hrefl.lt hav)
    · exact fd_setFd_self (hrefl.lt hav)
    · change bk _ (lastRemainder av) = p
      rw [bk_setFd hav hrefp hrefl, bk_setBk_ne hav hrefp hrefl hne.symm,
        bk_setFd hav hrefl hrefl, bk_setBk_self (hrefp.lt hav)]
  · intro a ha
    rw [List.mem_singleton.mp ha]
    exact ⟨hp, hnew⟩
  · intro j hj hj' hne1 x hx
    have hrefx := h.ref hj hj' hx
    have hxl : x ≠ lastRemainder av :=
      h.refs_disjoint (by decide) hj' hne1 List.mem_cons_self hx
    have hxp : x ≠ p := by
      rintro rfl
      rcases List.mem_cons.mp hx with heq | hmem
      · exact hp.ne_binAt hj' heq
      · exact hnew j hne1 hmem
    constructor
    · rw [fd_setFd_ne hav hrefp hrefx hxp, fd_setBk hav hrefp hrefx,
        fd_setFd_ne hav hrefl hrefx hxl, fd_setBk hav hrefl hrefx]
    · rw [bk_setFd hav hrefp hrefx, bk_setBk_ne hav hrefp hrefx hxp, bk_setFd hav hrefl hrefx,
        bk_setBk_ne hav hrefl hrefx hxl]

theorem Rings.clearLastRemainder :
    Rings av (clearLastRemainder av mem) (Function.update bins 1 []) := by
  have hrefl : Ref av (lastRemainder av) := .inl ⟨1, by decide, by decide, rfl⟩
  rw [NonOsLite.clearLastRemainder]
  refine h.update (by decide) (by decide) ?_ List.nodup_nil (by simp) ?_
  · refine isRing_nil.mpr ⟨fd_setFd_self (hrefl.lt hav), ?_⟩
    change bk _ (lastRemainder av) = lastRemainder av
    rw [bk_setFd hav hrefl hrefl, bk_setBk_self (hrefl.lt hav)]
  · intro j hj hj' hne1 x hx
    have hrefx := h.ref hj hj' hx
    have hxl : x ≠ lastRemainder av :=
      h.refs_disjoint (by decide) hj' hne1 List.mem_cons_self hx
    constructor
    · rw [fd_setFd_ne hav hrefl hrefx hxl, fd_setBk hav hrefl hrefx]
    · rw [bk_setFd hav hrefl hrefx, bk_setBk_ne hav hrefl hrefx hxl]

end lastRemainder

theorem linkLastRemainder_changes (mem : Buf) (bins : Bins) (hav : AvFits av) (hp : IsNode av p) :
    Changes (listWords av bins ∪ {p + 8, p + 12}) mem (linkLastRemainder av mem p) := by
  have halignp := hp.aligned
  have halign := hav.aligned
  refine ((((Changes.refl _ mem).put ?_ (.inl (.inl ?_))).put ?_ (.inl (.inl ?_))).put ?_
    (.inr (.inr rfl))).put ?_ (.inr (.inl rfl))
  all_goals
    try rw [lastRemainder, binAt]
    omega

theorem clearLastRemainder_changes (mem : Buf) (bins : Bins) (hav : AvFits av) :
    Changes (listWords av bins) mem (clearLastRemainder av mem) := by
  have halign := hav.aligned
  refine ((Changes.refl _ mem).put ?_ (.inl ?_)).put ?_ (.inl ?_)
  all_goals
    rw [lastRemainder, binAt]
    omega

section walks

variable (h : Rings av mem bins) (hi : 1 ≤ i) (hi' : i < 128)

include h hi hi'

theorem Rings.firstFit (nb : Nat) {fuel : Nat} (hsplit : bins i = xs ++ ys)
    (hfuel : xs.length < fuel) :
    (firstFit mem nb (binAt av i) fuel (before (binAt av i) xs) = some none ∧
        ∀ a ∈ xs, remainderSize mem a nb < 0) ∨
      ∃ zs v zs', xs = zs ++ v :: zs' ∧
        firstFit mem nb (binAt av i) fuel (before (binAt av i) xs) = some (some v) ∧
        0 ≤ remainderSize mem v nb ∧ ∀ a ∈ zs', remainderSize mem a nb < 0 := by
  induction xs using List.reverseRecOn generalizing ys fuel with
  | nil =>
    obtain ⟨fuel, rfl⟩ := Nat.exists_eq_succ_of_ne_zero (Nat.ne_zero_of_lt hfuel)
    refine .inl ⟨?_, by simp⟩
    rw [before_nil, NonOsLite.firstFit, if_pos rfl]
  | append_singleton xs x ih =>
    obtain ⟨fuel, rfl⟩ := Nat.exists_eq_succ_of_ne_zero (Nat.ne_zero_of_lt hfuel)
    have hsplit' : bins i = xs ++ x :: ys := by rw [hsplit, List.append_assoc, List.singleton_append]
    have hx : x ∈ bins i := by simp [hsplit']
    rw [before_append, NonOsLite.firstFit, if_neg ((h.node i x hx).ne_binAt hi')]
    split_ifs with hfit
    · exact .inr ⟨xs, x, [], rfl, rfl, hfit, by simp⟩
    · rw [h.bk_eq hi hi' hsplit']
      rw [List.length_append, List.length_singleton] at hfuel
      have hlen : xs.length < fuel := by omega
      rcases ih hsplit' hlen with ⟨hnone, hsmall⟩ | ⟨zs, v, zs', rfl, hfound, hv, hsmall⟩
      · refine .inl ⟨hnone, ?_⟩
        intro a ha
        rcases List.mem_append.mp ha with hin | hlast
        · exact hsmall a hin
        · rw [List.mem_singleton.mp hlast]
          exact not_le.mp hfit
      · refine .inr ⟨zs, v, zs' ++ [x], by simp, hfound, hv, ?_⟩
        intro a ha
        rcases List.mem_append.mp ha with hin | hlast
        · exact hsmall a hin
        · rw [List.mem_singleton.mp hlast]
          exact not_le.mp hfit

theorem Rings.frontlinkWalk (s : Nat) {fuel : Nat} (hsplit : bins i = xs ++ ys)
    (hfuel : ys.length < fuel) : ∃ zs ys', ys = zs ++ ys' ∧
      frontlinkWalk mem s (binAt av i) fuel (after (binAt av i) ys) =
        some (after (binAt av i) ys') ∧
      bk mem (after (binAt av i) ys') = before (binAt av i) (xs ++ zs) ∧
      (∀ a ∈ zs, s < chunksize mem a) ∧ ∀ y ∈ ys'.head?, chunksize mem y ≤ s := by
  induction ys generalizing xs fuel with
  | nil =>
    obtain ⟨fuel, rfl⟩ := Nat.exists_eq_succ_of_ne_zero (Nat.ne_zero_of_lt hfuel)
    have hback := (h.ring i hi hi').prev_head
    rw [hsplit] at hback
    refine ⟨[], [], rfl, ?_, hback, by simp, by simp⟩
    rw [after_nil, NonOsLite.frontlinkWalk, if_neg (fun hne => hne.1 rfl)]
  | cons y ys ih =>
    obtain ⟨fuel, rfl⟩ := Nat.exists_eq_succ_of_ne_zero (Nat.ne_zero_of_lt hfuel)
    have hy : y ∈ bins i := by simp [hsplit]
    have hne := (h.node i y hy).ne_binAt hi'
    rw [List.length_cons] at hfuel
    rw [after_cons, NonOsLite.frontlinkWalk]
    split_ifs with hbig
    · have hlen : ys.length < fuel := by omega
      rw [h.fd_eq hi hi' hsplit]
      obtain ⟨zs, ys', rfl, hrun, hback, hzs, hhead⟩ :=
        ih (hsplit.trans (List.append_cons xs y ys)) hlen
      refine ⟨y :: zs, ys', rfl, hrun, ?_, ?_, hhead⟩
      · rw [hback, ← List.append_cons]
      · intro a ha
        rcases List.mem_cons.mp ha with rfl | hin
        · exact hbig.2
        · exact hzs a hin
    · refine ⟨[], y :: ys, rfl, rfl, ?_, by simp, ?_⟩
      · rw [after_cons, h.bk_eq hi hi' hsplit, List.append_nil]
      · intro a ha
        rw [List.head?_cons, Option.mem_some_iff] at ha
        rw [← ha]
        exact not_lt.mp fun hlt => hbig ⟨hne, hlt⟩

end walks

theorem binIndex_mono {a b : Nat} (h : a ≤ b) : binIndex a ≤ binIndex b := by
  unfold binIndex
  split_ifs <;> omega

theorem le_binIndex {s : Nat} (h : 16 ≤ s) : 2 ≤ binIndex s := binIndex_mono (a := 16) h

theorem binIndex_lt (s : Nat) : binIndex s < 127 := by
  unfold binIndex
  split_ifs <;> omega

theorem binIndex_small {s : Nat} (h : s < 512) : binIndex s = s / 8 := by
  rw [binIndex, if_pos (by omega)]

theorem small_of_binIndex {s : Nat} (h : binIndex s < 64) : binIndex s = s / 8 := by
  unfold binIndex at h ⊢
  split_ifs at h ⊢ <;> omega

theorem Rings.length_le (h : Rings av mem bins) (i : Nat) : (bins i).length ≤ 536870912 := by
  have hnodup : ((bins i).map (· / 8)).Nodup := by
    refine List.Nodup.map_on ?_ (h.nodup i)
    intro a ha b hb heq
    have haligna := (h.node i a ha).aligned
    have halignb := (h.node i b hb).aligned
    omega
  have hsub : (bins i).map (· / 8) ⊆ List.range 536870912 := by
    intro q hq
    obtain ⟨a, ha, rfl⟩ := List.mem_map.mp hq
    have := (h.node i a ha).below
    rw [List.mem_range]
    omega
  have hle := (hnodup.subperm hsub).length_le
  rwa [List.length_map, List.length_range] at hle

theorem binblocks_markBinblock {ii : Nat} (hii : ii < 128) :
    binblocks av (markBinblock av mem ii) = binblocks av mem ||| 2 ^ (ii / 4) := by
  refine le32_putLe32 ?_
  have hbit : 2 ^ (ii / 4) < 2 ^ 32 := Nat.pow_lt_pow_right (by decide) (by omega)
  exact Nat.or_lt_two_pow (le32_lt mem (av + 4)) hbit

structure Frontlinked (av : Nat) (mem mem' : Buf) (bins : Bins) (p s : Nat) (xs ys : List Nat) :
    Prop where
  split : bins (binIndex s) = xs ++ ys
  rings : Rings av mem' (Function.update bins (binIndex s) (xs ++ p :: ys))
  changes : Changes (listWords av bins ∪ {av + 4, p + 8, p + 12}) mem mem'
  marked : bins (binIndex s) = [] → (binblocks av mem').testBit (binIndex s / 4)
  kept : ∀ k, (binblocks av mem).testBit k → (binblocks av mem').testBit k
  larger : ∀ a ∈ xs, s < chunksize mem a
  smaller : 512 ≤ s → ∀ a ∈ ys.head?, chunksize mem a ≤ s

theorem binblocks_of_changes {W : Set Nat} (hav : AvFits av) (hch : Changes W mem mem')
    (hW : av + 4 ∉ W) : binblocks av mem' = binblocks av mem :=
  hch.le32 (by have := hav.aligned; omega) hW

theorem not_mem_linkWords {k : Nat} (h : Rings av mem bins) (hp : IsNode av p)
    (hk : k = 4 ∨ k = 8) : av + k ∉ listWords av bins ∪ {p + 8, p + 12} := by
  have hout := hp.outside
  rintro ((hin | ⟨i, a, ha, hlink⟩) | hlink)
  · omega
  · have := (h.node i a ha).outside
    omega
  · simp only [Set.mem_insert_iff, Set.mem_singleton_iff] at hlink
    omega

theorem Rings.frontlink_marked (hav : AvFits av) (h : Rings av mem bins) (hp : IsNode av p)
    (hnew : ∀ j, p ∉ bins j) {s : Nat} (hs : 16 ≤ s) (hempty : 512 ≤ s → bins (binIndex s) = []) :
    Frontlinked av mem (linkBetween (markBinblock av mem (binIndex s)) p (binAt av (binIndex s))
      (after (binAt av (binIndex s)) (bins (binIndex s)))) bins p s [] (bins (binIndex s)) := by
  have hlo := le_binIndex hs
  have hhi := binIndex_lt s
  have hmark : Rings av (markBinblock av mem (binIndex s)) bins := h.put_front hav (.inl rfl)
  have hlink := hmark.link (i := binIndex s) hav (by omega) (by omega) (List.nil_append _).symm hp hnew
  have hch := hmark.link_changes (i := binIndex s) hav (by omega) (by omega)
    (List.nil_append _).symm hp
  rw [before_nil] at hlink hch
  have hblocks : binblocks av (linkBetween (markBinblock av mem (binIndex s)) p
      (binAt av (binIndex s)) (after (binAt av (binIndex s)) (bins (binIndex s)))) =
      binblocks av mem ||| 2 ^ (binIndex s / 4) := by
    rw [binblocks_of_changes hav hch (not_mem_linkWords h hp (.inl rfl)),
      binblocks_markBinblock (by omega)]
  refine ⟨(List.nil_append _).symm, hlink, ?_, ?_, ?_, by simp, ?_⟩
  · have halign := hav.aligned
    have hbits : Changes {av + 4} mem (markBinblock av mem (binIndex s)) :=
      changes_putLe32 (by omega)
    refine (hbits.mono (by simp)).trans (hch.mono ?_)
    exact Set.union_subset_union_right _ (Set.subset_insert _ _)
  · intro _
    rw [hblocks, Nat.testBit_or, Nat.testBit_two_pow_self, Bool.or_true]
  · intro k hk
    rw [hblocks, Nat.testBit_or, hk, Bool.true_or]
  · intro hbig a ha
    rw [hempty hbig] at ha
    exact absurd ha (by simp)

theorem Rings.frontlink (hav : AvFits av) (h : Rings av mem bins) (hp : IsNode av p)
    (hnew : ∀ j, p ∉ bins j) {s fuel : Nat} (hs : 16 ≤ s) (hfuel : 536870912 < fuel) :
    ∃ mem' xs ys, frontlink av fuel mem p s = some mem' ∧
      Frontlinked av mem mem' bins p s xs ys := by
  have hlo := le_binIndex hs
  have hhi := binIndex_lt s
  rw [NonOsLite.frontlink]
  dsimp only
  split_ifs with hsmall hsame
  · have hidx : smallbinIndex s = binIndex s := (binIndex_small hsmall).symm
    have hmark : Rings av (markBinblock av mem (binIndex s)) bins := h.put_front hav (.inl rfl)
    have hfirst := (hmark.ring (binIndex s) (by omega) (by omega)).next_head
    rw [hidx, hfirst]
    exact ⟨_, [], _, rfl, h.frontlink_marked hav hp hnew hs (fun hbig => by omega)⟩
  · have hfirst := (h.ring (binIndex s) (by omega) (by omega)).next_head
    rw [hfirst] at hsame ⊢
    have hempty : bins (binIndex s) = [] := by
      cases hbin : bins (binIndex s) with
      | nil => rfl
      | cons y ys =>
        rw [hbin, after_cons] at hsame
        have hy : y ∈ bins (binIndex s) := hbin ▸ List.mem_cons_self
        exact absurd hsame ((h.node _ y hy).ne_binAt (by omega))
    exact ⟨_, [], _, rfl, h.frontlink_marked hav hp hnew hs (fun _ => hempty)⟩
  · have hfirst := (h.ring (binIndex s) (by omega) (by omega)).next_head
    rw [hfirst] at hsame ⊢
    have hlen := h.length_le (binIndex s)
    obtain ⟨zs, ys, hsplit, hwalk, hback, hlarger, hsmaller⟩ :=
      h.frontlinkWalk (by omega) (by omega) s (List.nil_append (bins (binIndex s))).symm
        (hlen.trans_lt hfuel)
    simp only [hwalk, Option.bind_eq_bind, Option.bind_some, hback, List.nil_append]
    have hlink := h.link hav (by omega) (by omega) hsplit hp hnew
    have hch := h.link_changes hav (by omega) (by omega) hsplit hp
    refine ⟨_, zs, ys, rfl, hsplit, hlink, ?_, ?_, ?_, hlarger, fun _ => hsmaller⟩
    · exact hch.mono (Set.union_subset_union_right _ (Set.subset_insert _ _))
    · intro hempty
      rw [hempty, after_nil] at hsame
      exact absurd rfl hsame
    · intro k hk
      rwa [binblocks_of_changes hav hch (not_mem_linkWords h hp (.inl rfl))]

end NonOsLite
