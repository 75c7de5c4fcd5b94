import Mathlib.Tactic

-- Circular doubly linked lists with a head: h, x₁, ..., xₙ and back to h.
namespace Ring

variable {α : Type*} {next prev next' prev' : α → α} {h p : α} {xs ys : List α}

def Joined (next prev : α → α) (a b : α) : Prop := next a = b ∧ prev b = a

def IsRing (next prev : α → α) (h : α) (xs : List α) : Prop :=
  List.IsChain (Joined next prev) (h :: (xs ++ [h]))

def before (h : α) (xs : List α) : α := (h :: xs).getLast (List.cons_ne_nil h xs)

def after (h : α) (ys : List α) : α := (ys ++ [h]).head (by simp)

@[simp] theorem before_nil : before h [] = h := rfl

@[simp] theorem after_nil : after h [] = h := rfl

@[simp] theorem after_cons (y : α) : after h (y :: ys) = y := rfl

@[simp] theorem before_append (x : α) : before h (xs ++ [x]) = x := by
  simp [before]

theorem before_mem (h : α) (xs : List α) : before h xs ∈ h :: xs := List.getLast_mem _

theorem after_mem (h : α) (ys : List α) : after h ys ∈ ys ++ [h] := List.head_mem _

theorem getLast?_before : (h :: xs).getLast? = some (before h xs) :=
  List.getLast?_eq_some_getLast _

theorem head?_after : (ys ++ [h]).head? = some (after h ys) := List.head?_eq_some_head _

theorem isRing_split : IsRing next prev h (xs ++ ys) ↔
    (h :: xs).IsChain (Joined next prev) ∧ (ys ++ [h]).IsChain (Joined next prev) ∧
      Joined next prev (before h xs) (after h ys) := by
  rw [IsRing, List.append_assoc, ← List.cons_append, List.isChain_append, getLast?_before,
    head?_after]
  simp only [Option.mem_some_iff, forall_eq']

theorem isRing_at : IsRing next prev h (xs ++ p :: ys) ↔
    (h :: xs).IsChain (Joined next prev) ∧ (ys ++ [h]).IsChain (Joined next prev) ∧
      Joined next prev (before h xs) p ∧ Joined next prev p (after h ys) := by
  have hback : (p :: (ys ++ [h])).IsChain (Joined next prev) ↔
      Joined next prev p (after h ys) ∧ (ys ++ [h]).IsChain (Joined next prev) := by
    rw [List.isChain_cons, head?_after]
    simp only [Option.mem_some_iff, forall_eq']
  rw [isRing_split, after_cons, List.cons_append, hback]
  constructor
  · rintro ⟨hxs, ⟨hp, hys⟩, hbefore⟩
    exact ⟨hxs, hys, hbefore, hp⟩
  · rintro ⟨hxs, hys, hbefore, hp⟩
    exact ⟨hxs, ⟨hp, hys⟩, hbefore⟩

theorem chain_congr {l : List α} (hl : l.IsChain (Joined next prev))
    (hnext : ∀ a ∈ l.dropLast, next' a = next a) (hprev : ∀ a ∈ l.tail, prev' a = prev a) :
    l.IsChain (Joined next' prev') := by
  induction l with
  | nil => exact .nil
  | cons a l ih =>
    cases l with
    | nil => exact .singleton a
    | cons b l =>
      rw [List.isChain_cons_cons] at hl ⊢
      obtain ⟨⟨hab, hba⟩, hrest⟩ := hl
      refine ⟨⟨(hnext a (by simp)).trans hab, (hprev b (by simp)).trans hba⟩, ih hrest ?_ ?_⟩
      · intro c hc
        exact hnext c (by simp [List.dropLast_cons_cons, hc])
      · intro c hc
        exact hprev c (by simp [List.mem_of_mem_tail hc])

theorem IsRing.congr (hr : IsRing next prev h xs) (hnext : ∀ a ∈ h :: xs, next' a = next a)
    (hprev : ∀ a ∈ h :: xs, prev' a = prev a) : IsRing next' prev' h xs := by
  refine chain_congr hr ?_ ?_
  · intro a ha
    refine hnext a ?_
    rw [← List.cons_append, List.dropLast_concat] at ha
    exact ha
  · intro a ha
    refine hprev a ?_
    simp only [List.tail_cons, List.mem_append, List.mem_singleton] at ha
    exact List.mem_cons.mpr ha.symm

section edits

variable (hnodup : (h :: (xs ++ ys)).Nodup)
  (hnext : ∀ a ∈ h :: (xs ++ ys), a ≠ before h xs → next' a = next a)
  (hprev : ∀ a ∈ h :: (xs ++ ys), a ≠ after h ys → prev' a = prev a)

include hnodup

theorem ne_before_of_mem_dropLast {a : α} (ha : a ∈ (h :: xs).dropLast) : a ≠ before h xs := by
  have hxs : (h :: xs).Nodup := hnodup.sublist ((List.sublist_append_left xs ys).cons_cons h)
  rw [← List.dropLast_append_getLast (List.cons_ne_nil h xs)] at hxs
  rintro rfl
  exact List.disjoint_of_nodup_append hxs ha (List.mem_singleton.mpr rfl)

theorem ne_after_of_mem {a : α} (ha : a ∈ xs) : a ≠ after h ys := by
  rintro rfl
  rw [List.nodup_cons, List.mem_append, not_or] at hnodup
  obtain ⟨⟨hxs, -⟩, happend⟩ := hnodup
  rcases List.mem_append.mp (after_mem h ys) with hys | hh
  · exact List.disjoint_of_nodup_append happend ha hys
  · exact hxs (List.mem_singleton.mp hh ▸ ha)

theorem ne_before_of_mem {a : α} (ha : a ∈ ys) : a ≠ before h xs := by
  rintro rfl
  rw [List.nodup_cons, List.mem_append, not_or] at hnodup
  obtain ⟨⟨-, hys⟩, happend⟩ := hnodup
  rcases List.mem_cons.mp (before_mem h xs) with hh | hxs
  · exact hys (hh ▸ ha)
  · exact List.disjoint_of_nodup_append happend hxs ha

theorem ne_after_of_mem_tail {a : α} (ha : a ∈ (ys ++ [h]).tail) : a ≠ after h ys := by
  have hys : (ys ++ [h]).Nodup := by
    rw [List.nodup_cons, List.mem_append, not_or] at hnodup
    refine List.nodup_append.mpr ⟨hnodup.2.of_append_right, List.nodup_singleton h, ?_⟩
    rintro b hb c hc rfl
    exact hnodup.1.2 (List.mem_singleton.mp hc ▸ hb)
  rw [← List.cons_head_tail (l := ys ++ [h]) (by simp), List.nodup_cons] at hys
  rintro rfl
  exact hys.1 ha

include hnext hprev

theorem chain_front (hchain : (h :: xs).IsChain (Joined next prev)) :
    (h :: xs).IsChain (Joined next' prev') := by
  refine chain_congr hchain ?_ ?_
  · intro a ha
    refine hnext a ?_ (ne_before_of_mem_dropLast hnodup ha)
    exact List.Sublist.mem (List.mem_of_mem_dropLast ha)
      ((List.sublist_append_left xs ys).cons_cons h)
  · intro a ha
    exact hprev a (by simp_all) (ne_after_of_mem hnodup ha)

theorem chain_back (hchain : (ys ++ [h]).IsChain (Joined next prev)) :
    (ys ++ [h]).IsChain (Joined next' prev') := by
  refine chain_congr hchain ?_ ?_
  · intro a ha
    rw [List.dropLast_concat] at ha
    exact hnext a (by simp [ha]) (ne_before_of_mem hnodup ha)
  · intro a ha
    refine hprev a ?_ (ne_after_of_mem_tail hnodup ha)
    have hmem := List.mem_of_mem_tail ha
    simp only [List.mem_append, List.mem_singleton] at hmem
    simp only [List.mem_cons, List.mem_append]
    exact hmem.elim (fun hys => .inr (.inr hys)) .inl

theorem IsRing.remove (hr : IsRing next prev h (xs ++ p :: ys))
    (hbefore : next' (before h xs) = after h ys) (hafter : prev' (after h ys) = before h xs) :
    IsRing next' prev' h (xs ++ ys) := by
  obtain ⟨hxs, hys, -, -⟩ := isRing_at.mp hr
  exact isRing_split.mpr ⟨chain_front hnodup hnext hprev hxs, chain_back hnodup hnext hprev hys,
    hbefore, hafter⟩

theorem IsRing.insert (hr : IsRing next prev h (xs ++ ys)) (hbefore : next' (before h xs) = p)
    (hback : prev' p = before h xs) (hfwd : next' p = after h ys)
    (hafter : prev' (after h ys) = p) : IsRing next' prev' h (xs ++ p :: ys) := by
  obtain ⟨hxs, hys, -⟩ := isRing_split.mp hr
  exact isRing_at.mpr ⟨chain_front hnodup hnext hprev hxs, chain_back hnodup hnext hprev hys,
    ⟨hbefore, hback⟩, hfwd, hafter⟩

end edits

theorem IsRing.next_at (hr : IsRing next prev h (xs ++ p :: ys)) : next p = after h ys :=
  (isRing_at.mp hr).2.2.2.1

theorem IsRing.prev_at (hr : IsRing next prev h (xs ++ p :: ys)) : prev p = before h xs :=
  (isRing_at.mp hr).2.2.1.2

theorem IsRing.next_head (hr : IsRing next prev h xs) : next h = after h xs := by
  have hsplit : IsRing next prev h ([] ++ xs) := hr
  exact (isRing_split.mp hsplit).2.2.1

theorem IsRing.prev_head (hr : IsRing next prev h xs) : prev h = before h xs := by
  have hsplit : IsRing next prev h (xs ++ []) := by rwa [List.append_nil]
  exact (isRing_split.mp hsplit).2.2.2

theorem isRing_nil : IsRing next prev h [] ↔ next h = h ∧ prev h = h := by
  simp [IsRing, Joined]

theorem isRing_singleton : IsRing next prev h [p] ↔
    (next h = p ∧ prev p = h) ∧ next p = h ∧ prev h = p := by
  simp [IsRing, Joined]

end Ring
