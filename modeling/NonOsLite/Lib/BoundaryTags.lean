import Mathlib.Tactic

-- A stretch of memory cut into tiles. Each begins with a tag that holds its size and whether the
-- tile in front is used, and a free tile ends with its size.
namespace BoundaryTags

inductive Kind where
  | used
  | free
  | top
  deriving DecidableEq, Repr

structure Tile where
  size : Nat
  kind : Kind
  deriving DecidableEq, Repr

def total : List Tile → Nat
  | [] => 0
  | t :: ts => t.size + total ts

def lastKind : Kind → List Tile → Kind
  | k, [] => k
  | _, t :: ts => lastKind t.kind ts

def ofKind (k : Kind) : Nat → List Tile → Set (Nat × Nat)
  | _, [] => ∅
  | a, t :: ts => {x | x = (a, t.size) ∧ t.kind = k} ∪ ofKind k (a + t.size) ts

def bit (k : Kind) : Nat := if k = .used then 1 else 0

structure Tagged (word : Nat → Nat) (a : Nat) (k : Kind) (t : Tile) : Prop where
  joined : k = .used ∨ k = .free ∧ t.kind = .used
  size : 16 ≤ t.size
  aligned : 8 ∣ t.size
  head : word (a + 4) = t.size + bit k
  foot : t.kind = .free → word (a + t.size) = t.size

def Tiled (word : Nat → Nat) : Nat → Kind → List Tile → Prop
  | _, _, [] => True
  | a, k, t :: ts => Tagged word a k t ∧ Tiled word (a + t.size) t.kind ts

def links (F : Set (Nat × Nat)) : Set Nat := {w | ∃ x ∈ F, w = x.1 + 8 ∨ w = x.1 + 12}

variable {word word' : Nat → Nat} {a n z : Nat} {k k' : Kind} {t : Tile} {xs ys ts : List Tile}

@[simp] theorem total_nil : total [] = 0 := rfl

@[simp] theorem total_cons : total (t :: ts) = t.size + total ts := rfl

@[simp] theorem total_append : total (xs ++ ys) = total xs + total ys := by
  induction xs with
  | nil => simp
  | cons t xs ih => simp [ih, Nat.add_assoc]

@[simp] theorem lastKind_nil : lastKind k [] = k := rfl

@[simp] theorem lastKind_cons : lastKind k (t :: ts) = lastKind t.kind ts := rfl

@[simp] theorem lastKind_append : lastKind k (xs ++ ys) = lastKind (lastKind k xs) ys := by
  induction xs generalizing k with
  | nil => rfl
  | cons t xs ih => exact ih

@[simp] theorem ofKind_nil : ofKind k a [] = ∅ := rfl

theorem mem_ofKind_cons : (n, z) ∈ ofKind k a (t :: ts) ↔
    (n = a ∧ z = t.size ∧ t.kind = k) ∨ (n, z) ∈ ofKind k (a + t.size) ts := by
  simp [ofKind, and_assoc]

@[simp] theorem ofKind_cons_self :
    ofKind k a (⟨z, k⟩ :: ts) = insert (a, z) (ofKind k (a + z) ts) := by
  ext x
  simp [ofKind]

theorem ofKind_cons_ne (h : t.kind ≠ k) : ofKind k a (t :: ts) = ofKind k (a + t.size) ts := by
  ext x
  simp [ofKind, h]

theorem ofKind_append :
    ofKind k a (xs ++ ys) = ofKind k a xs ∪ ofKind k (a + total xs) ys := by
  induction xs generalizing a with
  | nil => simp
  | cons t xs ih => simp [ofKind, ih, Set.union_assoc, Nat.add_assoc]

@[simp] theorem bit_used : bit .used = 1 := rfl

@[simp] theorem bit_free : bit .free = 0 := rfl

theorem bit_le (k : Kind) : bit k ≤ 1 := by
  cases k <;> decide

@[simp] theorem tiled_nil : Tiled word a k [] := trivial

theorem tiled_cons : Tiled word a k (t :: ts) ↔
    Tagged word a k t ∧ Tiled word (a + t.size) t.kind ts := Iff.rfl

theorem tiled_append : Tiled word a k (xs ++ ys) ↔
    Tiled word a k xs ∧ Tiled word (a + total xs) (lastKind k xs) ys := by
  induction xs generalizing a k with
  | nil => simp
  | cons t xs ih =>
    rw [List.cons_append, tiled_cons, tiled_cons, ih, total_cons, lastKind_cons, Nat.add_assoc,
      and_assoc]

theorem mem_ofKind_bounds (h : (n, z) ∈ ofKind k a ts) : a ≤ n ∧ n + z ≤ a + total ts := by
  induction ts generalizing a with
  | nil => exact absurd h (Set.notMem_empty _)
  | cons t ts ih =>
    rw [total_cons]
    rcases mem_ofKind_cons.mp h with ⟨rfl, rfl, -⟩ | hrest
    · omega
    · have := ih hrest
      omega

theorem mem_ofKind_split (h : (n, z) ∈ ofKind k a ts) :
    ∃ xs ys, ts = xs ++ ⟨z, k⟩ :: ys ∧ n = a + total xs := by
  induction ts generalizing a with
  | nil => exact absurd h (Set.notMem_empty _)
  | cons t ts ih =>
    rcases mem_ofKind_cons.mp h with ⟨rfl, rfl, rfl⟩ | hrest
    · exact ⟨[], ts, rfl, rfl⟩
    · obtain ⟨xs, ys, rfl, rfl⟩ := ih hrest
      exact ⟨t :: xs, ys, rfl, by rw [total_cons, Nat.add_assoc]⟩

theorem mem_ofKind_append_cons : (a + total xs, z) ∈ ofKind k a (xs ++ ⟨z, k⟩ :: ys) := by
  rw [ofKind_append]
  exact .inr (mem_ofKind_cons.mpr (.inl ⟨rfl, rfl, rfl⟩))

theorem Tiled.size (h : Tiled word a k ts) {j : Kind} (hm : (n, z) ∈ ofKind j a ts) :
    16 ≤ z ∧ 8 ∣ z ∧ 8 ∣ n - a := by
  induction ts generalizing a k with
  | nil => exact absurd hm (Set.notMem_empty _)
  | cons t ts ih =>
    obtain ⟨htag, hrest⟩ := h
    rcases mem_ofKind_cons.mp hm with ⟨rfl, rfl, -⟩ | hmem
    · exact ⟨htag.size, htag.aligned, by simp⟩
    · obtain ⟨h16, h8, hn⟩ := ih hrest hmem
      have hle := (mem_ofKind_bounds hmem).1
      have ht := htag.aligned
      exact ⟨h16, h8, by omega⟩

theorem Tiled.aligned (h : Tiled word a k ts) : 8 ∣ total ts := by
  induction ts generalizing a k with
  | nil => exact dvd_zero 8
  | cons t ts ih => exact dvd_add h.1.aligned (ih h.2)

theorem Tiled.apart (h : Tiled word a k ts) {i j : Kind} {m y : Nat}
    (hn : (n, z) ∈ ofKind i a ts) (hm : (m, y) ∈ ofKind j a ts) :
    (n = m ∧ z = y ∧ i = j) ∨ n + z ≤ m ∨ m + y ≤ n := by
  induction ts generalizing a k with
  | nil => exact absurd hn (Set.notMem_empty _)
  | cons t ts ih =>
    rcases mem_ofKind_cons.mp hn with ⟨rfl, rfl, hi⟩ | hn'
    · rcases mem_ofKind_cons.mp hm with ⟨rfl, rfl, hj⟩ | hm'
      · exact .inl ⟨rfl, rfl, hi.symm.trans hj⟩
      · exact .inr (.inl (mem_ofKind_bounds hm').1)
    · rcases mem_ofKind_cons.mp hm with ⟨rfl, rfl, hj⟩ | hm'
      · exact .inr (.inr (mem_ofKind_bounds hn').1)
      · exact ih h.2 hn' hm'

theorem Tiled.frame (ha : 4 ∣ a) (h : Tiled word a k ts)
    (hsame : ∀ w, 4 ∣ w → a + 4 ≤ w → w < a + total ts + 4 → w ∉ links (ofKind .free a ts) →
      word' w = word w) : Tiled word' a k ts := by
  induction ts generalizing a k with
  | nil => exact tiled_nil
  | cons t ts ih =>
    obtain ⟨htag, hrest⟩ := h
    have h16 := htag.size
    have h8 := htag.aligned
    rw [total_cons] at hsame
    have hout (w : Nat) (hw : w = a + 4 ∨ w = a + t.size) :
        w ∉ links (ofKind .free a (t :: ts)) := by
      rintro ⟨⟨n, z⟩, hmem, hlink⟩
      dsimp only at hlink
      rcases mem_ofKind_cons.mp hmem with ⟨rfl, -, -⟩ | hmem'
      · omega
      · have hbounds := mem_ofKind_bounds hmem'
        omega
    refine tiled_cons.mpr ⟨⟨htag.joined, h16, h8, ?_, ?_⟩, ih (by omega) hrest ?_⟩
    · rw [hsame (a + 4) (by omega) (by omega) (by omega) (hout _ (.inl rfl))]
      exact htag.head
    · intro hfree
      rw [hsame (a + t.size) (by omega) (by omega) (by omega) (hout _ (.inr rfl))]
      exact htag.foot hfree
    · intro w hw hlo hhi hlinks
      refine hsame w hw (by omega) (by omega) ?_
      rintro ⟨⟨n, z⟩, hmem, hlink⟩
      dsimp only at hlink
      rcases mem_ofKind_cons.mp hmem with ⟨rfl, -, -⟩ | hmem'
      · omega
      · exact hlinks ⟨(n, z), hmem', hlink⟩

end BoundaryTags
