import Mathlib.Tactic

namespace BoundedSink

variable {α : Type*}

structure Sink (α : Type*) where
  pos : Nat
  limit : Nat
  writes : List (Nat × α)

def push (s : Sink α) (a : α) : Sink α where
  pos := s.pos + 1
  limit := s.limit
  writes := if s.pos < s.limit then s.writes ++ [(s.pos,a)] else s.writes

def pushAll (s : Sink α) (xs : List α) : Sink α := xs.foldl push s

def stamp : Nat → List α → List (Nat × α)
  | _, [] => []
  | n, x :: xs => (n,x) :: stamp (n + 1) xs

def applyWrites (f : Nat → α) (ws : List (Nat × α)) : Nat → α :=
  ws.foldl (fun f w => Function.update f w.1 w.2) f

variable {s : Sink α} {f : Nat → α}

@[simp] theorem pushAll_nil : pushAll s [] = s := rfl

@[simp] theorem pushAll_cons (x : α) (xs : List α) : pushAll s (x :: xs) = pushAll (push s x) xs := rfl

@[simp] theorem pushAll_append (xs ys : List α) :
    pushAll s (xs ++ ys) = pushAll (pushAll s xs) ys := by
  simp [pushAll, List.foldl_append]

@[simp] theorem pushAll_pos (xs : List α) : (pushAll s xs).pos = s.pos + xs.length := by
  induction xs generalizing s with
  | nil => rfl
  | cons x xs ih =>
    rw [pushAll_cons, ih, List.length_cons]
    simp only [push]
    omega

@[simp] theorem pushAll_limit (xs : List α) : (pushAll s xs).limit = s.limit := by
  induction xs generalizing s with
  | nil => rfl
  | cons x xs ih => rw [pushAll_cons, ih]; rfl

theorem pushAll_writes (xs : List α) :
    (pushAll s xs).writes = s.writes ++ stamp s.pos (xs.take (s.limit - s.pos)) := by
  induction xs generalizing s with
  | nil => simp [stamp]
  | cons x xs ih =>
    rw [pushAll_cons, ih]
    by_cases h : s.pos < s.limit
    · obtain ⟨k, hk⟩ : ∃ k, s.limit - s.pos = k + 1 := ⟨s.limit - s.pos - 1, by omega⟩
      have hk' : s.limit - (s.pos + 1) = k := by omega
      simp [push, h, hk, hk', stamp]
    · have h0 : s.limit - s.pos = 0 := by omega
      have h1 : s.limit - (s.pos + 1) = 0 := by omega
      simp [push, h, h0, h1, stamp]

theorem stamp_append (n : Nat) (xs ys : List α) :
    stamp n (xs ++ ys) = stamp n xs ++ stamp (n + xs.length) ys := by
  induction xs generalizing n with
  | nil => rfl
  | cons x xs ih =>
    have hlen : n + (x :: xs).length = n + 1 + xs.length := by
      rw [List.length_cons]
      omega
    rw [List.cons_append, stamp, ih, stamp, List.cons_append, hlen]

theorem mem_stamp {n : Nat} {xs : List α} {w : Nat × α} (h : w ∈ stamp n xs) :
    n ≤ w.1 ∧ w.1 < n + xs.length := by
  induction xs generalizing n with
  | nil => simp [stamp] at h
  | cons x xs ih =>
    simp only [stamp, List.mem_cons, List.length_cons] at h ⊢
    rcases h with rfl | h
    · simp
    · have := ih h
      omega

theorem forall_stamp_lt {n size : Nat} {xs : List α} (hn : n ≤ size) :
    (∀ w ∈ stamp n xs, w.1 < size) ↔ n + xs.length ≤ size := by
  induction xs generalizing n with
  | nil => exact iff_of_true (fun w hw => absurd hw List.not_mem_nil) hn
  | cons x xs ih =>
    rw [stamp, List.forall_mem_cons, List.length_cons]
    constructor
    · rintro ⟨hfirst, hrest⟩
      have := (ih hfirst).mp hrest
      omega
    · intro h
      have hfirst : n < size := by omega
      exact ⟨hfirst, (ih hfirst).mpr (by omega)⟩

theorem applyWrites_append (xs ys : List (Nat × α)) :
    applyWrites f (xs ++ ys) = applyWrites (applyWrites f xs) ys := by
  simp [applyWrites, List.foldl_append]

theorem applyWrites_stamp (n : Nat) (xs : List α) (i : Nat) :
    applyWrites f (stamp n xs) i = if n ≤ i then (xs[i - n]?).getD (f i) else f i := by
  induction xs generalizing n f with
  | nil => simp [stamp, applyWrites]
  | cons x xs ih =>
    have step : applyWrites f (stamp n (x :: xs)) =
        applyWrites (Function.update f n x) (stamp (n + 1) xs) := rfl
    rw [step, ih]
    rcases Nat.lt_trichotomy i n with h | rfl | h
    · rw [if_neg (by omega), if_neg (by omega), Function.update_of_ne (by omega)]
    · simp
    · obtain ⟨k, hk⟩ : ∃ k, i - n = k + 1 := ⟨i - n - 1, by omega⟩
      have hk' : i - (n + 1) = k := by omega
      rw [if_pos (by omega), if_pos (by omega), hk, hk', Function.update_of_ne (by omega)]
      simp

end BoundedSink
