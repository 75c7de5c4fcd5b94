import Mathlib.Data.List.Nodup
import Mathlib.Tactic

namespace LinkedTable

structure Node where
  val : Nat
  next : Nat
  prev : Nat
deriving DecidableEq

-- A doubly linked list kept in a table, as the indices of its nodes and their values.
abbrev Table := Nat → Node

abbrev Chain := List (Nat × Nat)

def Chain.indices (hs : Chain) : List Nat := hs.map Prod.fst

def headIdx (n : Nat) : Chain → Nat
  | [] => n
  | (k, _) :: _ => k

def lastIdx (p : Nat) : Chain → Nat
  | [] => p
  | (k, _) :: hs => lastIdx k hs

def Seg (t : Table) : Nat → Chain → Nat → Prop
  | _, [], _ => True
  | p, (k, v) :: hs, n => t k = ⟨v, headIdx n hs, p⟩ ∧ Seg t k hs n

def setNode (t : Table) (k : Nat) (nd : Node) : Table := Function.update t k nd

def setVal (t : Table) (k v : Nat) : Table := setNode t k { t k with val := v }

def setNext (t : Table) (k v : Nat) : Table := setNode t k { t k with next := v }

def setPrev (t : Table) (k v : Nat) : Table := setNode t k { t k with prev := v }

def linkPrev (t : Table) (post : Chain) (v : Nat) : Table :=
  if post = [] then t else setPrev t (headIdx 0 post) v

def linkNext (t : Table) (pre : Chain) (v : Nat) : Table :=
  if pre = [] then t else setNext t (lastIdx 0 pre) v

variable {t t' : Table} {p n k v : Nat} {hs xs ys pre mid post : Chain} {nd : Node}

@[simp] theorem setNode_self (t : Table) (k : Nat) (nd : Node) : setNode t k nd k = nd :=
  Function.update_self _ _ _

theorem setNode_of_ne {j : Nat} (h : j ≠ k) : setNode t k nd j = t j :=
  Function.update_of_ne h _ _

@[simp] theorem headIdx_cons (h : Nat × Nat) : headIdx n (h :: hs) = h.1 := rfl

theorem headIdx_append : headIdx n (xs ++ ys) = headIdx (headIdx n ys) xs := by
  cases xs with
  | nil => rfl
  | cons h xs => rfl

theorem headIdx_of_ne_nil (h : hs ≠ []) (n n' : Nat) : headIdx n hs = headIdx n' hs := by
  obtain ⟨a, hs, rfl⟩ := List.exists_cons_of_ne_nil h
  rfl

theorem headIdx_append_cons (h : Nat × Nat) : headIdx n (xs ++ h :: ys) = headIdx h.1 xs :=
  headIdx_append

theorem headIdx_append_of_ne_nil (h : xs ≠ []) (ys zs : Chain) :
    headIdx n (xs ++ ys) = headIdx n (xs ++ zs) := by
  rw [headIdx_append, headIdx_append]
  exact headIdx_of_ne_nil h _ _

theorem lastIdx_append : lastIdx p (xs ++ ys) = lastIdx (lastIdx p xs) ys := by
  induction xs generalizing p with
  | nil => rfl
  | cons h xs ih => exact ih

theorem lastIdx_mem (h : hs ≠ []) : ∃ v, (lastIdx p hs, v) ∈ hs := by
  induction hs generalizing p with
  | nil => exact absurd rfl h
  | cons a hs ih =>
    obtain ⟨k, v⟩ := a
    cases hs with
    | nil => exact ⟨v, List.mem_cons_self⟩
    | cons b hs =>
      obtain ⟨w, hw⟩ := ih (p := k) (List.cons_ne_nil b hs)
      exact ⟨w, List.mem_cons_of_mem _ hw⟩

theorem seg_append :
    Seg t p (xs ++ ys) n ↔ Seg t p xs (headIdx n ys) ∧ Seg t (lastIdx p xs) ys n := by
  induction xs generalizing p with
  | nil => exact (and_iff_right trivial).symm
  | cons h xs ih =>
    obtain ⟨k, v⟩ := h
    rw [List.cons_append, Seg, Seg, headIdx_append, ih, and_assoc]
    rfl

theorem Seg.congr (h : Seg t p hs n) (ht : ∀ k ∈ hs.indices, t' k = t k) : Seg t' p hs n := by
  induction hs generalizing p with
  | nil => trivial
  | cons a hs ih =>
    obtain ⟨k, v⟩ := a
    refine ⟨(ht k List.mem_cons_self).trans h.1, ih h.2 ?_⟩
    intro j hj
    exact ht j (List.mem_cons_of_mem k hj)

theorem Seg.setNode (h : Seg t p hs n) (hk : k ∉ hs.indices) : Seg (setNode t k nd) p hs n := by
  refine h.congr ?_
  intro j hj
  exact setNode_of_ne (ne_of_mem_of_not_mem hj hk)

theorem Seg.mem (h : Seg t p hs n) (hk : (k, v) ∈ hs) : (t k).val = v := by
  induction hs generalizing p with
  | nil => cases hk
  | cons a hs ih =>
    obtain ⟨j, w⟩ := a
    rcases List.mem_cons.mp hk with heq | hk
    · cases heq
      rw [h.1]
    · exact ih h.2 hk

theorem Seg.relinkNext (h : Seg t p hs n) (hne : hs ≠ []) (hnodup : hs.indices.Nodup) (n' : Nat) :
    Seg (setNext t (lastIdx p hs) n') p hs n' := by
  induction hs generalizing p with
  | nil => exact absurd rfl hne
  | cons a hs ih =>
    obtain ⟨k, v⟩ := a
    obtain ⟨hhead, htail⟩ := h
    obtain ⟨hk, hnodup⟩ := List.nodup_cons.mp hnodup
    cases hs with
    | nil =>
      refine ⟨?_, trivial⟩
      change LinkedTable.setNode t k ⟨(t k).val, n', (t k).prev⟩ k = _
      rw [setNode_self, hhead]
      rfl
    | cons b hs =>
      obtain ⟨w, hw⟩ := lastIdx_mem (p := k) (List.cons_ne_nil b hs)
      have hlast : k ≠ lastIdx k (b :: hs) := by
        intro heq
        rw [← heq] at hw
        exact hk (List.mem_map.mpr ⟨_, hw, rfl⟩)
      refine ⟨?_, ih htail (List.cons_ne_nil b hs) hnodup⟩
      change LinkedTable.setNode t (lastIdx k (b :: hs)) _ k = _
      rw [setNode_of_ne hlast, hhead]
      rfl

theorem Seg.relinkPrev {h : Nat × Nat} (hseg : Seg t p (h :: hs) n)
    (hnodup : Chain.indices (h :: hs) |>.Nodup) (p' : Nat) :
    Seg (setPrev t h.1 p') p' (h :: hs) n := by
  obtain ⟨k, v⟩ := h
  obtain ⟨hhead, htail⟩ := hseg
  obtain ⟨hk, -⟩ := List.nodup_cons.mp hnodup
  refine ⟨?_, htail.setNode hk⟩
  change LinkedTable.setNode t k _ k = _
  rw [setNode_self, hhead]

theorem indices_append : Chain.indices (xs ++ ys) = xs.indices ++ ys.indices := List.map_append

theorem headIdx_mem (h : hs ≠ []) : headIdx n hs ∈ hs.indices := by
  obtain ⟨a, hs, rfl⟩ := List.exists_cons_of_ne_nil h
  exact List.mem_cons_self

theorem lastIdx_mem_indices (h : hs ≠ []) : lastIdx p hs ∈ hs.indices := by
  obtain ⟨v, hv⟩ := lastIdx_mem (p := p) h
  exact List.mem_map.mpr ⟨_, hv, rfl⟩

theorem linkPrev_apply {j : Nat} (h : j ∉ post.indices) : linkPrev t post v j = t j := by
  rw [linkPrev]
  split_ifs with hnil
  · rfl
  · exact setNode_of_ne (ne_of_mem_of_not_mem (headIdx_mem hnil) h).symm

theorem linkNext_apply {j : Nat} (h : j ∉ pre.indices) : linkNext t pre v j = t j := by
  rw [linkNext]
  split_ifs with hnil
  · rfl
  · exact setNode_of_ne (ne_of_mem_of_not_mem (lastIdx_mem_indices hnil) h).symm

theorem Seg.linkPrev (h : Seg t p post n) (hnodup : post.indices.Nodup) (v : Nat) :
    Seg (linkPrev t post v) v post n := by
  cases post with
  | nil => trivial
  | cons a post =>
    rw [LinkedTable.linkPrev, if_neg (List.cons_ne_nil a post)]
    exact h.relinkPrev hnodup v

theorem Seg.linkNext (h : Seg t 0 pre n) (hnodup : pre.indices.Nodup) (v : Nat) :
    Seg (linkNext t pre v) 0 pre v := by
  cases pre with
  | nil => trivial
  | cons a pre =>
    rw [LinkedTable.linkNext, if_neg (List.cons_ne_nil a pre)]
    exact h.relinkNext (List.cons_ne_nil a pre) hnodup v

theorem indices_disjoint (hnodup : (Chain.indices (xs ++ ys)).Nodup) (hk : k ∈ xs.indices) :
    k ∉ ys.indices := by
  rw [indices_append] at hnodup
  exact fun hk' => List.disjoint_of_nodup_append hnodup hk hk'

theorem Seg.splice (mid : Chain) (hpre : Seg t 0 pre (headIdx (headIdx 0 post) mid))
    (hmid : Seg t (lastIdx 0 pre) mid (headIdx 0 post)) (hpost : Seg t p post 0)
    (hnodup : (Chain.indices ((pre ++ mid) ++ post)).Nodup) :
    Seg (LinkedTable.linkPrev t post (lastIdx (lastIdx 0 pre) mid)) 0 ((pre ++ mid) ++ post) 0 := by
  have hparts := hnodup
  rw [indices_append] at hparts
  have hout (j : Nat) (hj : j ∈ Chain.indices (pre ++ mid)) :
      LinkedTable.linkPrev t post (lastIdx (lastIdx 0 pre) mid) j = t j :=
    linkPrev_apply (indices_disjoint hnodup hj)
  rw [indices_append] at hout
  rw [seg_append, seg_append, lastIdx_append]
  refine ⟨⟨hpre.congr fun j hj => hout j (List.mem_append_left _ hj),
    hmid.congr fun j hj => hout j (List.mem_append_right _ hj)⟩, ?_⟩
  exact hpost.linkPrev hparts.of_append_right _

theorem Seg.spliceBoth (mid : Chain) (hpre : Seg t 0 pre n)
    (hmid : Seg t (lastIdx 0 pre) mid (headIdx 0 post)) (hpost : Seg t p post 0)
    (hnodup : (Chain.indices ((pre ++ mid) ++ post)).Nodup) :
    Seg (LinkedTable.linkNext (LinkedTable.linkPrev t post (lastIdx (lastIdx 0 pre) mid)) pre
      (headIdx (headIdx 0 post) mid)) 0 ((pre ++ mid) ++ post) 0 := by
  have hparts := hnodup
  rw [indices_append] at hparts
  have hleft := hparts.of_append_left
  have hout (j : Nat) (hj : j ∈ Chain.indices (pre ++ mid)) :
      LinkedTable.linkPrev t post (lastIdx (lastIdx 0 pre) mid) j = t j :=
    linkPrev_apply (indices_disjoint hnodup hj)
  rw [indices_append] at hout
  have hpre' := hpre.congr fun j hj => hout j (List.mem_append_left _ hj)
  have hmid' := hmid.congr fun j hj => hout j (List.mem_append_right _ hj)
  have hpost' := hpost.linkPrev hparts.of_append_right (lastIdx (lastIdx 0 pre) mid)
  rw [seg_append, seg_append, lastIdx_append]
  rw [indices_append] at hleft
  refine ⟨⟨hpre'.linkNext hleft.of_append_left _, hmid'.congr ?_⟩, hpost'.congr ?_⟩
  · intro j hj
    refine linkNext_apply fun hpre => ?_
    exact List.disjoint_of_nodup_append hleft hpre hj
  · intro j hj
    refine linkNext_apply fun hpre => ?_
    refine List.disjoint_of_nodup_append hparts ?_ hj
    rw [indices_append]
    exact List.mem_append_left _ hpre

end LinkedTable
