import Mathlib.Tactic

namespace History

variable {α β : Type*}

-- A history is a list with the newest event first.
def EachAfter (req : α → List α → Prop) : List α → Prop
  | [] => True
  | e :: es => req e es ∧ EachAfter req es

def since (p : α → Bool) (l : List α) : List α := l.takeWhile (fun e => !p e)

variable {req : α → List α → Prop} {p : α → Bool} {l : List α}

@[simp] theorem eachAfter_nil : EachAfter req [] := trivial

@[simp] theorem eachAfter_cons {e : α} {es : List α} :
    EachAfter req (e :: es) ↔ req e es ∧ EachAfter req es := Iff.rfl

theorem eachAfter_iff :
    EachAfter req l ↔ ∀ post e pre, l = post ++ e :: pre → req e pre := by
  induction l with
  | nil => simp
  | cons a l ih =>
    rw [eachAfter_cons, ih]
    constructor
    · rintro ⟨ha, hl⟩ post e pre heq
      cases post with
      | nil =>
        obtain ⟨rfl, rfl⟩ := List.cons.inj heq
        exact ha
      | cons b post => exact hl post e pre (List.cons.inj heq).2
    · intro h
      refine ⟨h [] a l rfl, ?_⟩
      intro post e pre heq
      exact h (a :: post) e pre (by rw [heq]; rfl)

theorem mem_of_mem_since {e : α} (h : e ∈ since p l) : e ∈ l :=
  (List.takeWhile_sublist _).mem h

theorem since_cons_of_false {e : α} (h : p e = false) : since p (e :: l) = e :: since p l := by
  simp [since, h]

theorem since_cons_of_true {e : α} (h : p e = true) : since p (e :: l) = [] := by
  simp [since, h]

theorem mem_since_cons {a e : α} (hp : p e = false) (h : a ∈ since p l) : a ∈ since p (e :: l) := by
  rw [since_cons_of_false hp]
  exact List.mem_cons_of_mem _ h

theorem since_filterMap {f : α → Option β} {q : β → Bool}
    (h : ∀ a, p a = true ↔ ∃ b, f a = some b ∧ q b = true) :
    since q (l.filterMap f) = (since p l).filterMap f := by
  induction l with
  | nil => rfl
  | cons a l ih =>
    cases hp : p a with
    | true =>
      obtain ⟨b, hf, hq⟩ := (h a).mp hp
      rw [since_cons_of_true hp, List.filterMap_cons_some hf, since_cons_of_true hq]
      rfl
    | false =>
      rw [since_cons_of_false hp]
      cases hf : f a with
      | none => rw [List.filterMap_cons_none hf, List.filterMap_cons_none hf, ih]
      | some b =>
        have hq : q b = false := by
          rw [← Bool.not_eq_true]
          intro hq
          exact absurd ((h a).mpr ⟨b, hf, hq⟩) (by simp [hp])
        rw [List.filterMap_cons_some hf, List.filterMap_cons_some hf, since_cons_of_false hq, ih]

end History
