import NonOsLite.Heap.Bins
import NonOsLite.Lib.BoundaryTags

namespace NonOsLite
open ByteBuf Ring BoundaryTags

-- The free chunks stand in the lists, each in the one for its size or in the last remainder's.
structure Stocked (bins : Bins) (F : Set (Nat × Nat)) : Prop where
  listed : ∀ i a, a ∈ bins i → ∃ z, (a, z) ∈ F ∧ (i = 1 ∨ binIndex z = i)
  found : ∀ x ∈ F, ∃ i, x.1 ∈ bins i
  single : (bins 1).length ≤ 1

def Marked (av : Nat) (mem : Buf) (bins : Bins) : Prop :=
  ∀ i, 2 ≤ i → bins i ≠ [] → (binblocks av mem).testBit (i / 4)

-- The heap lies behind the array, as the linker script has it.
structure Region (av lo hi : Nat) : Prop where
  array : AvFits av
  behind : av + 1032 ≤ lo
  below : hi < 4294967296
  span : hi < lo + 2147483648

structure Layout (av lo hi : Nat) (mem : Buf) (P : Nat) (ts : List Tile) (bins : Bins) : Prop where
  region : Region av lo hi
  inside : ts = [] ∨ lo ≤ P ∧ P + total ts ≤ hi
  aligned : 8 ∣ P
  tiled : Tiled (le32 mem) P .used ts
  rings : Rings av mem bins
  stocked : Stocked bins (ofKind .free P ts)
  marked : Marked av mem bins
  topped : ts = [] ∧ top av mem = av ∧ binblocks av mem = 0 ∨
    ∃ z, (top av mem, z) ∈ ofKind .top P ts

def inner (av : Nat) (bins : Bins) (a b : Nat) : Set Nat :=
  insert (av + 4) ({w | a ≤ w ∧ w < b} ∪ listWords av bins)

def touched (av : Nat) (bins : Bins) (a b : Nat) : Set Nat := insert (av + 8) (inner av bins a b)

variable {av lo hi P a b n z w : Nat} {mem mem' : Buf} {ts pre mid mid' post : List Tile}
  {bins : Bins} {i j p s : Nat} {k : Kind} {xs ys : List Nat} {F : Set (Nat × Nat)}

section stocked

variable (hr : Rings av mem bins)

include hr

theorem Rings.mem_remove (hsplit : bins i = xs ++ p :: ys) {j x : Nat} :
    x ∈ Function.update bins i (xs ++ ys) j ↔ x ∈ bins j ∧ x ≠ p := by
  have hp : p ∈ bins i := by simp [hsplit]
  rcases eq_or_ne j i with rfl | hne
  · have hnodup := hr.nodup j
    rw [hsplit, List.nodup_middle, List.nodup_cons] at hnodup
    rw [Function.update_self, hsplit]
    constructor
    · intro hx
      refine ⟨?_, ?_⟩
      · simp only [List.mem_append, List.mem_cons] at hx ⊢
        tauto
      · rintro rfl
        exact hnodup.1 hx
    · rintro ⟨hx, hne⟩
      simp only [List.mem_append, List.mem_cons] at hx ⊢
      tauto
  · rw [Function.update_of_ne hne]
    refine ⟨fun hx => ⟨hx, ?_⟩, fun hx => hx.1⟩
    rintro rfl
    exact hne (hr.once j i x hx hp)

theorem Stocked.remove (h : Stocked bins (insert (p, z) F)) (hF : ∀ x ∈ F, x.1 ≠ p)
    (hsplit : bins i = xs ++ p :: ys) : Stocked (Function.update bins i (xs ++ ys)) F := by
  constructor
  · intro j x hx
    obtain ⟨hmem, hne⟩ := (hr.mem_remove hsplit).mp hx
    obtain ⟨y, hy, hclass⟩ := h.listed j x hmem
    rcases hy with heq | hy
    · exact absurd (congrArg Prod.fst heq) hne
    · exact ⟨y, hy, hclass⟩
  · intro x hx
    obtain ⟨j, hj⟩ := h.found x (Set.mem_insert_of_mem _ hx)
    exact ⟨j, (hr.mem_remove hsplit).mpr ⟨hj, hF x hx⟩⟩
  · rcases eq_or_ne 1 i with rfl | hne
    · have hsingle := h.single
      rw [hsplit] at hsingle
      rw [Function.update_self]
      simp only [List.length_append, List.length_cons] at hsingle ⊢
      omega
    · rw [Function.update_of_ne hne]
      exact h.single

end stocked

theorem mem_insert (hsplit : bins i = xs ++ ys) {x : Nat} :
    x ∈ Function.update bins i (xs ++ p :: ys) j ↔ x ∈ bins j ∨ j = i ∧ x = p := by
  rcases eq_or_ne j i with rfl | hne
  · rw [Function.update_self, hsplit]
    simp only [List.mem_append, List.mem_cons, true_and]
    tauto
  · rw [Function.update_of_ne hne]
    simp [hne]

theorem Stocked.insert (h : Stocked bins F) (hsplit : bins i = xs ++ ys)
    (hclass : binIndex z = i) (hi : i ≠ 1) :
    Stocked (Function.update bins i (xs ++ p :: ys)) (insert (p, z) F) := by
  constructor
  · intro j x hx
    rcases (mem_insert hsplit).mp hx with hmem | ⟨rfl, rfl⟩
    · obtain ⟨y, hy, hj⟩ := h.listed j x hmem
      exact ⟨y, .inr hy, hj⟩
    · exact ⟨z, .inl rfl, .inr hclass⟩
  · rintro x (rfl | hx)
    · exact ⟨i, (mem_insert hsplit).mpr (.inr ⟨rfl, rfl⟩)⟩
    · obtain ⟨j, hj⟩ := h.found x hx
      exact ⟨j, (mem_insert hsplit).mpr (.inl hj)⟩
  · rw [Function.update_of_ne hi.symm]
    exact h.single

theorem Stocked.insertLast (h : Stocked bins F) (hempty : bins 1 = []) :
    Stocked (Function.update bins 1 [p]) (Insert.insert (p, z) F) := by
  have hsplit : bins 1 = [] ++ [] := hempty
  constructor
  · intro j x hx
    rcases (mem_insert (p := p) hsplit).mp hx with hmem | ⟨rfl, rfl⟩
    · obtain ⟨y, hy, hj⟩ := h.listed j x hmem
      exact ⟨y, .inr hy, hj⟩
    · exact ⟨z, .inl rfl, .inl rfl⟩
  · rintro x (rfl | hx)
    · exact ⟨1, (mem_insert (p := p) hsplit).mpr (.inr ⟨rfl, rfl⟩)⟩
    · obtain ⟨j, hj⟩ := h.found x hx
      exact ⟨j, (mem_insert (p := p) hsplit).mpr (.inl hj)⟩
  · rw [Function.update_self]
    exact le_rfl

theorem Stocked.resize (h : Stocked bins (Insert.insert (p, z) F)) (hr : Rings av mem bins)
    (hp : p ∈ bins 1) (hF : ∀ x ∈ F, x.1 ≠ p) (y : Nat) :
    Stocked bins (Insert.insert (p, y) F) := by
  constructor
  · intro j x hx
    obtain ⟨v, hv, hclass⟩ := h.listed j x hx
    rcases hv with heq | hv
    · obtain ⟨rfl, rfl⟩ := Prod.mk.injEq .. ▸ heq
      exact ⟨y, .inl rfl, .inl (hr.once j 1 x hx hp)⟩
    · exact ⟨v, .inr hv, hclass⟩
  · rintro x (rfl | hx)
    · exact ⟨1, hp⟩
    · exact h.found x (Set.mem_insert_of_mem _ hx)
  · exact h.single

theorem Stocked.eq_of_single (h : Stocked bins F) (hp : p ∈ bins 1) : bins 1 = [p] := by
  have hsingle := h.single
  obtain ⟨xs, ys, hsplit⟩ := List.append_of_mem hp
  rw [hsplit] at hsingle ⊢
  simp only [List.length_append, List.length_cons] at hsingle
  rw [List.length_eq_zero_iff.mp (show xs.length = 0 by omega),
    List.length_eq_zero_iff.mp (show ys.length = 0 by omega), List.nil_append]

theorem Marked.congr (h : Marked av mem bins) (hbits : ∀ k, (binblocks av mem).testBit k →
    (binblocks av mem').testBit k) : Marked av mem' bins :=
  fun i hi hne => hbits _ (h i hi hne)

theorem Marked.remove (h : Marked av mem bins) (hsplit : bins i = xs ++ p :: ys) :
    Marked av mem (Function.update bins i (xs ++ ys)) := by
  intro j hj hne
  refine h j hj ?_
  rcases eq_or_ne j i with rfl | hji
  · simp [hsplit]
  · rwa [Function.update_of_ne hji] at hne

theorem Marked.update_last (h : Marked av mem bins) (zs : List Nat) :
    Marked av mem (Function.update bins 1 zs) := by
  intro j hj hne
  rw [Function.update_of_ne (by omega)] at hne
  exact h j hj hne

theorem Marked.frontlink (h : Marked av mem bins)
    (hf : Frontlinked av mem mem' bins p s xs ys) :
    Marked av mem' (Function.update bins (binIndex s) (xs ++ p :: ys)) := by
  intro j hj hne
  rcases eq_or_ne j (binIndex s) with rfl | hji
  · rcases eq_or_ne (bins (binIndex s)) [] with hempty | hfull
    · exact hf.marked hempty
    · exact hf.kept _ (h _ hj hfull)
  · rw [Function.update_of_ne hji] at hne
    exact hf.kept _ (h j hj hne)

theorem ofKind_around : ofKind k P (pre ++ mid ++ post) =
    ofKind k (P + total pre) mid ∪
      (ofKind k P pre ∪ ofKind k (P + total pre + total mid) post) := by
  rw [ofKind_append, ofKind_append, total_append, ← Nat.add_assoc]
  ext x
  simp only [Set.mem_union]
  tauto

section layout

variable (h : Layout av lo hi mem P ts bins)

include h

theorem Layout.bounds (hm : (n, z) ∈ ofKind k P ts) :
    lo ≤ P ∧ P ≤ n ∧ n + z ≤ P + total ts ∧ P + total ts ≤ hi := by
  have hbounds := mem_ofKind_bounds hm
  rcases h.inside with rfl | ⟨hlo, hhi⟩
  · exact absurd hm (Set.notMem_empty _)
  · exact ⟨hlo, hbounds.1, hbounds.2, hhi⟩

theorem Layout.not_used (hm : (n, z) ∈ ofKind k P ts) (hk : k ≠ .used) (y : Nat) :
    (n, y) ∉ ofKind .used P ts := by
  intro hy
  have hz := h.tiled.size hm
  have hy' := h.tiled.size hy
  rcases h.tiled.apart hm hy with ⟨-, -, heq⟩ | hside | hside
  · exact hk heq
  · omega
  · omega

theorem Layout.node (hm : (n, z) ∈ ofKind k P ts) : IsNode av n := by
  have hbounds := h.bounds hm
  have hsize := h.tiled.size hm
  have hpos := h.aligned
  have hbehind := h.region.behind
  have hbelow := h.region.below
  exact ⟨by omega, by omega, .inr (by omega)⟩

theorem Layout.free_of_listed (ha : a ∈ bins i) : ∃ z, (a, z) ∈ ofKind .free P ts := by
  obtain ⟨z, hz, -⟩ := h.stocked.listed i a ha
  exact ⟨z, hz⟩

theorem Layout.not_link (hn : (n, z) ∈ ofKind k P ts) (hlo : n + 4 ≤ w) (hhi : w < n + z + 4)
    (hfd : w ≠ n + 8) (hbk : w ≠ n + 12) {x : Nat} (hi : i < 128)
    (hx : x ∈ binAt av i :: bins i) : w ≠ x + 8 ∧ w ≠ x + 12 := by
  have hbounds := h.bounds hn
  have hbehind := h.region.behind
  rcases List.mem_cons.mp hx with rfl | hmem
  · rw [binAt]
    omega
  · obtain ⟨y, hy⟩ := h.free_of_listed hmem
    have hsize := h.tiled.size hy
    rcases h.tiled.apart hn hy with ⟨rfl, -, -⟩ | hfront | hback
    · exact ⟨hfd, hbk⟩
    · omega
    · omega

theorem Layout.not_link_other (hn : (n, z) ∈ ofKind k P ts) (hlo : n + 4 ≤ w)
    (hhi : w < n + z + 4) {x : Nat} (hi : i < 128) (hx : x ∈ binAt av i :: bins i)
    (hne : x ≠ n) : w ≠ x + 8 ∧ w ≠ x + 12 := by
  have hbounds := h.bounds hn
  have hbehind := h.region.behind
  rcases List.mem_cons.mp hx with rfl | hmem
  · rw [binAt]
    omega
  · obtain ⟨y, hy⟩ := h.free_of_listed hmem
    have hsize := h.tiled.size hy
    rcases h.tiled.apart hn hy with ⟨rfl, -, -⟩ | hfront | hback
    · exact absurd rfl hne
    · omega
    · omega

theorem Layout.used_kept (hch : Changes (touched av bins a b) mem mem')
    (hn : (n, z) ∈ ofKind .used P ts) (hout : n + z + 4 ≤ a ∨ b ≤ n + 8) {x : Nat}
    (hlo : n + 8 ≤ x) (hhi : x < n + z + 4) : mem' x = mem x := by
  have hbounds := h.bounds hn
  have hbehind := h.region.behind
  have hnode := (h.node hn).aligned
  have hsize := h.tiled.size hn
  refine hch x ?_
  rintro (hin | hin | hin | hin | ⟨i, c, hc, hlink⟩)
  · omega
  · omega
  · simp only [Set.mem_ofPred_eq] at hin
    omega
  · omega
  · obtain ⟨y, hy⟩ := h.free_of_listed hc
    have hfree := (h.node hy).aligned
    have hysize := h.tiled.size hy
    rcases h.tiled.apart hn hy with ⟨-, -, hkind⟩ | hfront | hback
    · exact absurd hkind (by decide)
    · omega
    · omega

theorem Layout.outside_kept {stop x : Nat} (hch : Changes (touched av bins a b) mem mem')
    (hx : x < lo ∧ (x < av ∨ av + 1032 ≤ x) ∨ stop ≤ x) (hstop : 4 ∣ stop) (hlo : lo ≤ stop)
    (hend : P + total ts ≤ stop) (ha : lo ≤ a) (hb : b ≤ stop) : mem' x = mem x := by
  have hav := h.region.array.aligned
  have hbehind := h.region.behind
  refine hch x ?_
  rintro (hin | hin | hin | hin | ⟨i, c, hc, hlink⟩)
  · omega
  · omega
  · simp only [Set.mem_ofPred_eq] at hin
    omega
  · omega
  · obtain ⟨y, hy⟩ := h.free_of_listed hc
    have hbounds := h.bounds hy
    have hsize := h.tiled.size hy
    omega

end layout

theorem Layout.sides (h : Layout av lo hi mem P (pre ++ mid ++ post) bins)
    (hch : Changes (touched av bins a b) mem mem') (ha : P + total pre + 4 ≤ a)
    (hb : b ≤ P + total pre + total mid + 4) :
    Tiled (le32 mem') P .used pre ∧
      Tiled (le32 mem') (P + total pre + total mid) (lastKind .used (pre ++ mid)) post := by
  have hbehind := h.region.behind
  have haligned := h.aligned
  have htiled := h.tiled
  rw [tiled_append, tiled_append] at htiled
  obtain ⟨⟨hpre, hmid⟩, hpost⟩ := htiled
  have hpre8 := hpre.aligned
  have hmid8 := hmid.aligned
  have hword (w : Nat) (hw : 4 ∣ w) (hlo : P + 4 ≤ w)
      (hside : w < P + total pre + 4 ∨ P + total pre + total mid + 4 ≤ w)
      (hlinks : w ∉ links (ofKind .free P (pre ++ mid ++ post))) (hfull : lo ≤ P) :
      le32 mem' w = le32 mem w := by
    refine hch.le32 hw ?_
    rintro (hin | hin | hin | hin | ⟨i, c, hc, hlink⟩)
    · omega
    · omega
    · simp only [Set.mem_ofPred_eq] at hin
      omega
    · omega
    · obtain ⟨y, hy⟩ := h.free_of_listed hc
      exact hlinks ⟨(c, y), hy, hlink⟩
  constructor
  · rcases eq_or_ne pre [] with rfl | hne
    · exact tiled_nil
    · have hfull : lo ≤ P := h.inside.elim (fun hnil => absurd hnil (by simp [hne])) And.left
      refine hpre.frame (by omega) ?_
      intro w hw hlo hhi hlinks
      refine hword w hw hlo (.inl hhi) ?_ hfull
      rw [ofKind_around]
      rintro ⟨⟨c, y⟩, hmem, hlink⟩
      dsimp only at hlink
      rcases hmem with hin | hin | hin
      · have := mem_ofKind_bounds hin
        omega
      · exact hlinks ⟨(c, y), hin, hlink⟩
      · have := mem_ofKind_bounds hin
        omega
  · rcases eq_or_ne post [] with rfl | hne
    · exact tiled_nil
    · have hfull : lo ≤ P := h.inside.elim (fun hnil => absurd hnil (by simp [hne])) And.left
      rw [total_append, ← Nat.add_assoc] at hpost
      refine hpost.frame (by omega) ?_
      intro w hw hlo hhi hlinks
      refine hword w hw (by omega) (.inr hlo) ?_ hfull
      rw [ofKind_around]
      rintro ⟨⟨c, y⟩, hmem, hlink⟩
      dsimp only at hlink
      rcases hmem with hin | hin | hin
      · have hbounds := mem_ofKind_bounds hin
        have hsize := hmid.size hin
        omega
      · have hbounds := mem_ofKind_bounds hin
        have hsize := hpre.size hin
        omega
      · exact hlinks ⟨(c, y), hin, hlink⟩

end NonOsLite
