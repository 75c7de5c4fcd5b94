import Mathlib.Tactic

namespace InputMachine

variable {S I O : Type*}

def run (step : S → I → S) (s : S) (xs : List I) : S := xs.foldl step s

def Meets (step : S → I → S) (ok : S → I → Prop) : S → List I → Prop
  | _, [] => True
  | s, x :: xs => ok s x ∧ Meets step ok (step s x) xs

instance decidableMeets (step : S → I → S) (ok : S → I → Prop) [∀ s x, Decidable (ok s x)] :
    (s : S) → (xs : List I) → Decidable (Meets step ok s xs)
  | _, [] => inferInstanceAs (Decidable True)
  | s, x :: xs =>
    have := decidableMeets step ok (step s x) xs
    inferInstanceAs (Decidable (ok s x ∧ Meets step ok (step s x) xs))

def outputs (step : S → I → S) (out : S → I → List O) : S → List I → List O
  | _, [] => []
  | s, x :: xs => out s x ++ outputs step out (step s x) xs

def Preserves (step : S → I → S) (ok : S → I → Prop) (inv : S → Prop) : Prop :=
  ∀ s x, ok s x → inv s → inv (step s x)

variable {step : S → I → S} {ok ok' : S → I → Prop} {inv : S → Prop} {s : S}

@[simp] theorem run_nil : run step s [] = s := rfl

@[simp] theorem run_cons (x : I) (xs : List I) :
    run step s (x :: xs) = run step (step s x) xs := rfl

@[simp] theorem run_append (xs ys : List I) :
    run step s (xs ++ ys) = run step (run step s xs) ys := by
  simp [run, List.foldl_append]

@[simp] theorem meets_cons {x : I} {xs : List I} :
    Meets step ok s (x :: xs) ↔ ok s x ∧ Meets step ok (step s x) xs := Iff.rfl

theorem meets_true (step : S → I → S) (s : S) (xs : List I) : Meets step (fun _ _ => True) s xs := by
  induction xs generalizing s with
  | nil => trivial
  | cons x xs ih => exact ⟨trivial, ih _⟩

theorem Meets.and {xs : List I} (h : Meets step ok s xs) (h' : Meets step ok' s xs) :
    Meets step (fun s x => ok s x ∧ ok' s x) s xs := by
  induction xs generalizing s with
  | nil => trivial
  | cons x xs ih => exact ⟨⟨h.1, h'.1⟩, ih h.2 h'.2⟩

theorem Preserves.meets {xs : List I} (hp : Preserves step ok inv)
    (hok : ∀ s x, ok s x → inv s → ok' s x) (hs : inv s) (h : Meets step ok s xs) :
    Meets step ok' s xs := by
  induction xs generalizing s with
  | nil => trivial
  | cons x xs ih => exact ⟨hok s x h.1 hs, ih (hp s x h.1 hs) h.2⟩

theorem Preserves.run {xs : List I} (hp : Preserves step ok inv) (hs : inv s)
    (h : Meets step ok s xs) : inv (run step s xs) := by
  induction xs generalizing s with
  | nil => exact hs
  | cons x xs ih => exact ih (hp s x h.1 hs) h.2

theorem forall_prefix_cons {P : List I → Prop} {x : I} {xs : List I} :
    (∀ ys, ys <+: x :: xs → P ys) ↔ P [] ∧ ∀ ys, ys <+: xs → P (x :: ys) := by
  constructor
  · exact fun h => ⟨h [] List.nil_prefix, fun ys hys => h _ ((List.prefix_cons_inj x).mpr hys)⟩
  · rintro ⟨hnil, hcons⟩ ys hys
    cases ys with
    | nil => exact hnil
    | cons y ys =>
      obtain ⟨rfl, htail⟩ := List.cons_prefix_cons.mp hys
      exact hcons ys htail

theorem prefixes_and_meets_iff (inv : S → Prop)
    (h : ∀ s x, inv s → (ok s x ∧ inv (step s x) ↔ ok' s x)) (hs : inv s) (xs : List I) :
    ((∀ ys, ys <+: xs → inv (run step s ys)) ∧ Meets step ok s xs) ↔ Meets step ok' s xs := by
  induction xs generalizing s with
  | nil =>
    refine ⟨fun _ => trivial, fun _ => ⟨fun ys hys => ?_, trivial⟩⟩
    rw [List.prefix_nil.mp hys]
    exact hs
  | cons x xs ih =>
    rw [forall_prefix_cons, meets_cons, meets_cons, ← h s x hs]
    constructor
    · rintro ⟨⟨-, hrest⟩, hok, hmeets⟩
      have hstep : inv (step s x) := hrest [] List.nil_prefix
      exact ⟨⟨hok, hstep⟩, (ih hstep).mp ⟨hrest, hmeets⟩⟩
    · rintro ⟨⟨hok, hstep⟩, hmeets⟩
      obtain ⟨hrest, hmeets⟩ := (ih hstep).mpr hmeets
      exact ⟨⟨hs, hrest⟩, hok, hmeets⟩

theorem prefixes_iff_meets (inv : S → Prop) (h : ∀ s x, inv s → (inv (step s x) ↔ ok s x))
    (hs : inv s) (xs : List I) :
    (∀ ys, ys <+: xs → inv (run step s ys)) ↔ Meets step ok s xs := by
  rw [← prefixes_and_meets_iff inv (fun s x hx => (and_iff_right trivial).trans (h s x hx)) hs xs]
  exact (and_iff_left (meets_true step s xs)).symm

theorem observe_insert_iff (obs : S → O) (xs : List I) (x : I) :
    (∀ ys, obs (run step s (xs ++ x :: ys)) = obs (run step s (xs ++ ys))) ↔
      ∀ ys, obs (run step (step (run step s xs) x) ys) = obs (run step (run step s xs) ys) := by
  simp

end InputMachine
