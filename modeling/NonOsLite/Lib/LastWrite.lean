import NonOsLite.Lib.Machine

namespace LastWrite
open InputMachine

variable {S I β : Type*} {step : S → I → S} {s : S} {f : I → Option β} {asked : I → Option Bool}

def last (f : I → Option β) (xs : List I) : Option β := (xs.filterMap f).getLast?

@[simp] theorem last_nil (f : I → Option β) : last f [] = none := rfl

theorem last_concat (f : I → Option β) (xs : List I) (x : I) :
    last f (xs ++ [x]) = (f x).or (last f xs) := by
  rw [last, last, List.filterMap_append]
  cases hx : f x with
  | none => simp [hx]
  | some b => simp [hx]

theorem last_mem {xs : List I} {b : β} (h : last f xs = some b) : ∃ x ∈ xs, f x = some b :=
  List.mem_filterMap.mp (List.mem_of_getLast? h)

theorem run_or (obs : S → Bool) {sets : I → Bool}
    (h : ∀ s x, obs (step s x) = (obs s || sets x)) (xs : List I) :
    obs (run step s xs) = (obs s || xs.any sets) := by
  induction xs generalizing s with
  | nil => simp
  | cons x xs ih => rw [run_cons, ih, h, List.any_cons, Bool.or_assoc]

theorem sticky_iff (b : Bool) (xs : List I) :
    (b || xs.any (fun x => asked x == some true)) = (last asked xs).getD b ↔
      (last asked xs = some false → b = false ∧ ∀ x ∈ xs, asked x ≠ some true) := by
  cases hlast : last asked xs with
  | none =>
    have hnone : ∀ x ∈ xs, asked x = none := by
      rw [last, List.getLast?_eq_none_iff, List.filterMap_eq_nil_iff] at hlast
      exact hlast
    have hany : xs.any (fun x => asked x == some true) = false := by
      rw [List.any_eq_false]
      intro x hx
      simp [hnone x hx]
    simp [hany]
  | some v =>
    cases v with
    | true =>
      obtain ⟨x, hx, hasked⟩ := last_mem hlast
      have hany : xs.any (fun x => asked x == some true) = true :=
        List.any_eq_true.mpr ⟨x, hx, by simp [hasked]⟩
      simp [hany]
    | false => simp [List.any_eq_false]

end LastWrite
