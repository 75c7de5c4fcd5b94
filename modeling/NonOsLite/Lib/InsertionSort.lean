import Mathlib.Tactic

-- Rows of elements sorted in place by exchanges; an insertion has one place out of order.
namespace InsertionSort

variable {α : Type*} {le : α → α → Prop} {f g h : Nat → α} {i j k m n : Nat}

def exchange (f : Nat → α) (i j : Nat) : Nat → α := f ∘ Equiv.swap i j

def Rearranges (n : Nat) (f g : Nat → α) : Prop :=
  ∃ σ : Equiv.Perm Nat, (∀ i, n ≤ i → σ i = i) ∧ g = f ∘ σ

def Sorted (le : α → α → Prop) (n : Nat) (f : Nat → α) : Prop :=
  ∀ a b, a < b → b < n → le (f a) (f b)

def SortedBut (le : α → α → Prop) (j n : Nat) (f : Nat → α) : Prop :=
  ∀ a b, a < b → b < n → b ≠ j → le (f a) (f b)

theorem exchange_left : exchange f i j i = f j := by
  rw [exchange, Function.comp_apply, Equiv.swap_apply_left]

theorem exchange_right : exchange f i j j = f i := by
  rw [exchange, Function.comp_apply, Equiv.swap_apply_right]

theorem exchange_other (hi : k ≠ i) (hj : k ≠ j) : exchange f i j k = f k := by
  rw [exchange, Function.comp_apply, Equiv.swap_apply_of_ne_of_ne hi hj]

theorem Rearranges.refl (n : Nat) (f : Nat → α) : Rearranges n f f :=
  ⟨Equiv.refl Nat, fun _ _ => rfl, rfl⟩

theorem Rearranges.trans (hf : Rearranges n f g) (hg : Rearranges n g h) : Rearranges n f h := by
  obtain ⟨σ, hσ, rfl⟩ := hf
  obtain ⟨τ, hτ, rfl⟩ := hg
  refine ⟨τ.trans σ, ?_, rfl⟩
  intro i hi
  rw [Equiv.trans_apply, hτ i hi, hσ i hi]

theorem rearranges_exchange (hi : i < n) (hj : j < n) : Rearranges n f (exchange f i j) := by
  refine ⟨Equiv.swap i j, ?_, rfl⟩
  intro k hk
  exact Equiv.swap_apply_of_ne_of_ne (by omega) (by omega)

theorem Rearranges.perm (hf : Rearranges n f g) : ((List.range n).map g).Perm ((List.range n).map f) := by
  obtain ⟨σ, hσ, rfl⟩ := hf
  have hrange : ((List.range n).map σ).Perm (List.range n) := by
    refine (List.perm_ext_iff_of_nodup (List.nodup_range.map σ.injective) List.nodup_range).mpr ?_
    intro a
    simp only [List.mem_map, List.mem_range]
    constructor
    · rintro ⟨b, hb, rfl⟩
      by_contra hout
      have hfix : σ (σ b) = σ b := hσ _ (by omega)
      have hsame : σ b = b := σ.injective hfix
      omega
    · intro ha
      refine ⟨σ.symm a, ?_, σ.apply_symm_apply a⟩
      by_contra hout
      have hfix : σ (σ.symm a) = σ.symm a := hσ _ (by omega)
      rw [σ.apply_symm_apply] at hfix
      omega
  have hmap := hrange.map f
  rwa [List.map_map] at hmap

theorem Sorted.pairwise (hf : Sorted le n f) : ((List.range n).map f).Pairwise le := by
  rw [List.pairwise_map]
  refine List.Pairwise.imp_of_mem ?_ List.pairwise_lt_range
  intro a b _ hb hab
  exact hf a b hab (List.mem_range.mp hb)

theorem sorted_one : Sorted le 1 f := by
  intro a b hab hb
  omega

theorem Sorted.next (hf : Sorted le n f) : SortedBut le n (n + 1) f :=
  fun a b hab hb hne => hf a b hab (by omega)

theorem SortedBut.front (hf : SortedBut le 0 n f) : Sorted le n f :=
  fun a b hab hb => hf a b hab hb (by omega)

theorem SortedBut.stays (htrans : ∀ x y z, le x y → le y z → le x z) (hf : SortedBut le (j + 1) n f)
    (hle : le (f j) (f (j + 1))) : Sorted le n f := by
  intro a b hab hb
  rcases eq_or_ne b (j + 1) with rfl | hbj
  · rcases eq_or_ne a j with rfl | haj
    · exact hle
    · exact htrans _ _ _ (hf a j (by omega) (by omega) (by omega)) hle
  · exact hf a b hab hb hbj

theorem SortedBut.moves (hf : SortedBut le (j + 1) n f) (hle : le (f (j + 1)) (f j)) (hj : j + 1 < n) :
    SortedBut le j n (exchange f j (j + 1)) := by
  intro a b hab hb hne
  rcases eq_or_ne b (j + 1) with rfl | hbj
  · rw [exchange_right]
    rcases eq_or_ne a j with rfl | haj
    · rwa [exchange_left]
    · rw [exchange_other haj (by omega)]
      exact hf a j (by omega) (by omega) (by omega)
  · rw [exchange_other hne hbj]
    rcases eq_or_ne a j with rfl | haj
    · rw [exchange_left]
      exact hf (a + 1) b (by omega) hb hbj
    · rcases eq_or_ne a (j + 1) with rfl | haj'
      · rw [exchange_right]
        exact hf j b (by omega) hb hbj
      · rw [exchange_other haj haj']
        exact hf a b hab hb hbj

end InsertionSort
