import Mathlib.Tactic

namespace Terminated

variable {α : Type*} {z : α}

def encode (z : α) (fs : List (List α)) : List α := fs.flatMap (fun f => f ++ [z])

def pairs {β : Type*} : List β → List (β × β)
  | o :: v :: fs => (o, v) :: pairs fs
  | _ => []

theorem encode_cons (f : List α) (fs : List (List α)) :
    encode z (f :: fs) = f ++ z :: encode z fs := by
  simp [encode]

theorem mem_pairs {β : Type*} {fs : List β} {o v : β} (h : (o, v) ∈ pairs fs) :
    ∃ before after, fs = before ++ o :: v :: after := by
  induction fs using pairs.induct with
  | case1 o' v' fs ih =>
    rcases List.mem_cons.mp h with heq | h
    · cases heq
      exact ⟨[], fs, rfl⟩
    · obtain ⟨before, after, rfl⟩ := ih h
      exact ⟨o' :: v' :: before, after, rfl⟩
  | case2 fs hfs =>
    rw [pairs] at h
    · cases h
    · exact hfs

theorem encode_append (fs gs : List (List α)) : encode z (fs ++ gs) = encode z fs ++ encode z gs := by
  simp [encode]

variable [DecidableEq α]

def decode (z : α) : List α → List (List α) × List α
  | [] => ([], [])
  | a :: xs =>
      if a = z then ([] :: (decode z xs).1, (decode z xs).2)
      else
        match (decode z xs).1 with
        | [] => ([], a :: (decode z xs).2)
        | f :: fs => ((a :: f) :: fs, (decode z xs).2)

theorem decode_terminator (xs : List α) :
    decode z (z :: xs) = ([] :: (decode z xs).1, (decode z xs).2) := if_pos rfl

theorem decode_field {f : List α} (h : z ∉ f) (xs : List α) :
    decode z (f ++ z :: xs) = (f :: (decode z xs).1, (decode z xs).2) := by
  induction f with
  | nil => exact decode_terminator xs
  | cons a f ih =>
    have ha : a ≠ z := fun heq => h (heq ▸ List.mem_cons_self)
    have hf : z ∉ f := fun hmem => h (List.mem_cons_of_mem a hmem)
    rw [List.cons_append, decode, if_neg ha, ih hf]

theorem field_inj {f g xs ys : List α} (hf : z ∉ f) (hg : z ∉ g) (h : f ++ z :: xs = g ++ z :: ys) :
    f = g := by
  have hdecode := congrArg (decode z) h
  rw [decode_field hf, decode_field hg, Prod.mk.injEq, List.cons.injEq] at hdecode
  exact hdecode.1.1

theorem decode_suffix {g : List α} (hg : z ∉ g) (xs ys : List α) :
    ∃ before f, g <:+ f ∧
      decode z (xs ++ g ++ z :: ys) = (before ++ f :: (decode z ys).1, (decode z ys).2) := by
  induction xs with
  | nil => exact ⟨[], g, List.suffix_rfl, decode_field hg ys⟩
  | cons a xs ih =>
    obtain ⟨before, f, hsuffix, heq⟩ := ih
    rw [List.cons_append, List.cons_append, decode, heq]
    by_cases ha : a = z
    · exact ⟨[] :: before, f, hsuffix, if_pos ha⟩
    · rw [if_neg ha]
      cases before with
      | nil => exact ⟨[], a :: f, hsuffix.trans (List.suffix_cons a f), rfl⟩
      | cons b before => exact ⟨(a :: b) :: before, f, hsuffix, rfl⟩

theorem pairs_append {β : Type*} (fs gs : List β) (h : fs.length % 2 = 0) :
    pairs (fs ++ gs) = pairs fs ++ pairs gs := by
  induction fs using pairs.induct with
  | case1 o v fs ih =>
    have heven : fs.length % 2 = 0 := by
      simp only [List.length_cons] at h
      omega
    simp only [List.cons_append, pairs, ih heven]
  | case2 fs hfs =>
    cases fs with
    | nil => rfl
    | cons a fs =>
      cases fs with
      | nil => simp at h
      | cons b fs => exact absurd rfl (hfs a b fs)

theorem decode_encode {fs : List (List α)} (h : ∀ f ∈ fs, z ∉ f) (xs : List α) :
    decode z (encode z fs ++ xs) = (fs ++ (decode z xs).1, (decode z xs).2) := by
  induction fs with
  | nil => rfl
  | cons f fs ih =>
    have hfs := ih (fun g hg => h g (List.mem_cons_of_mem f hg))
    rw [encode_cons, List.append_assoc, List.cons_append, decode_field (h f List.mem_cons_self), hfs]
    rfl

theorem encode_decode (xs : List α) : encode z (decode z xs).1 ++ (decode z xs).2 = xs := by
  induction xs with
  | nil => rfl
  | cons a xs ih =>
    rw [decode]
    split
    · rename_i heq
      rw [encode_cons, List.nil_append, List.cons_append, ih, heq]
    · cases hfs : (decode z xs).1 with
      | nil =>
        rw [hfs] at ih
        exact congrArg (a :: ·) ih
      | cons f fs =>
        rw [hfs, encode_cons] at ih
        rw [encode_cons]
        exact congrArg (a :: ·) ih

end Terminated
