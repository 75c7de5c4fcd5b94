import Mathlib.Data.List.TakeWhile
import Mathlib.Tactic

namespace Positional

variable {α : Type*} (digit : α → Option Nat) {base : Nat} {p q : α → Bool} {s t : List α}

def isDigit (base : Nat) (a : α) : Bool := (digit a).any (· < base)

def value (base : Nat) (s : List α) : Nat := s.foldl (fun n a => n * base + (digit a).getD 0) 0

def readDigits (base : Nat) (s : List α) : Nat × List α :=
  (value digit base (s.takeWhile (isDigit digit base)), s.dropWhile (isDigit digit base))

variable {digit} in
theorem value_map_reverse {char : Nat → α} {ds : List Nat} (h : ∀ d ∈ ds, digit (char d) = some d) :
    value digit base (ds.map char).reverse = Nat.ofDigits base ds := by
  rw [value, List.foldl_reverse, List.foldr_map]
  induction ds with
  | nil => rfl
  | cons d ds ih =>
    rw [List.foldr_cons, ih (fun e he => h e (List.mem_cons_of_mem d he)), h d List.mem_cons_self,
      Option.getD_some, Nat.ofDigits_cons]
    ring

theorem prefix_takeWhile (hts : t <+: s) (hp : ∀ a ∈ t, p a = true) : t <+: s.takeWhile p := by
  obtain ⟨r, rfl⟩ := hts
  rw [List.takeWhile_append_of_pos hp]
  exact List.prefix_append _ _

theorem dropWhile_eq_iff (h : ∀ a, p a = true → q a = true) :
    s.dropWhile p = s.dropWhile q ↔ ∀ a ∈ (s.dropWhile p).head?, q a = false := by
  induction s with
  | nil => simp
  | cons a s ih =>
    cases hp : p a with
    | true => rw [List.dropWhile_cons_of_pos hp, List.dropWhile_cons_of_pos (h a hp), ih]
    | false =>
      rw [List.dropWhile_cons_of_neg (by simp [hp])]
      cases hq : q a with
      | false => simp [hq]
      | true =>
        have hlen := (List.dropWhile_sublist q (l := s)).length_le
        have hne : a :: s ≠ s.dropWhile q := by
          intro heq
          have := congrArg List.length heq
          rw [List.length_cons] at this
          omega
        simp [hq, hne]

variable {digit} in
theorem readDigits_map {f : α → α} (h : ∀ a, digit (f a) = digit a) (s : List α) :
    readDigits digit base (s.map f) =
      ((readDigits digit base s).1, (readDigits digit base s).2.map f) := by
  have hdigit : isDigit digit base ∘ f = isDigit digit base := by
    funext a
    simp only [Function.comp_apply, isDigit, h]
  simp only [readDigits, List.takeWhile_map, List.dropWhile_map, hdigit, value, List.foldl_map, h]

theorem takeWhile_eq_of_dropWhile (h : s.dropWhile p = s.dropWhile q) :
    s.takeWhile p = s.takeWhile q := by
  have hp := List.takeWhile_append_dropWhile (p := p) (l := s)
  have hq := List.takeWhile_append_dropWhile (p := q) (l := s)
  rw [h] at hp
  exact List.append_cancel_right (hp.trans hq.symm)

theorem head_dropWhile {a : α} (h : a ∈ (s.dropWhile p).head?) : p a = false := by
  have hnot := List.head?_dropWhile_not p s
  rw [Option.mem_def] at h
  rw [h] at hnot
  exact hnot

end Positional
