import Mathlib.Data.List.TakeWhile
import Mathlib.Tactic

namespace Tokens

variable {α : Type*} {p : α → Bool} {a : α} {w l : List α}

def tokens (p : α → Bool) (l : List α) : List (List α) :=
  (l.splitOnP p).filter (fun w => !w.isEmpty)

@[simp] theorem tokens_nil : tokens p [] = [] := by simp [tokens]

theorem tokens_word_cons (hw : ∀ a ∈ w, p a = false) (hne : w ≠ []) (ha : p a = true) :
    tokens p (w ++ a :: l) = w :: tokens p l := by
  rw [tokens, List.splitOnP_append_cons_of_forall_mem hw a ha, List.filter_cons_of_pos (by simpa)]
  rfl

theorem tokens_word (hw : ∀ a ∈ w, p a = false) (hne : w ≠ []) : tokens p w = [w] := by
  rw [tokens, List.splitOnP_eq_singleton hw, List.filter_cons_of_pos (by simpa)]
  rfl

theorem tokens_delimiter (ha : p a = true) : tokens p (a :: l) = tokens p l := by
  have hsplit : ([] ++ a :: l).splitOnP p = [] :: l.splitOnP p :=
    List.splitOnP_append_cons_of_forall_mem (by simp) a ha l
  rw [List.nil_append] at hsplit
  rw [tokens, hsplit, List.filter_cons_of_neg (by simp)]
  rfl

theorem tokens_dropWhile (p : α → Bool) (l : List α) : tokens p (l.dropWhile p) = tokens p l := by
  induction l with
  | nil => rfl
  | cons a l ih =>
    by_cases ha : p a = true
    · rw [List.dropWhile_cons_of_pos ha, tokens_delimiter ha, ih]
    · rw [List.dropWhile_cons_of_neg ha]

inductive Scan (p : α → Bool) : List α → Prop where
  | blank (ds : List α) : (∀ a ∈ ds, p a = true) → Scan p ds
  | last (ds w : List α) : (∀ a ∈ ds, p a = true) → (∀ a ∈ w, p a = false) → w ≠ [] →
      Scan p (ds ++ w)
  | more (ds w : List α) (a : α) (l : List α) : (∀ a ∈ ds, p a = true) → (∀ a ∈ w, p a = false) →
      w ≠ [] → p a = true → Scan p (ds ++ (w ++ a :: l))

theorem scan (p : α → Bool) (l : List α) : Scan p l := by
  have hsplit := List.takeWhile_append_dropWhile (p := p) (l := l)
  have hblank : ∀ a ∈ l.takeWhile p, p a = true := fun a ha => List.mem_takeWhile_imp ha
  cases hrest : l.dropWhile p with
  | nil =>
    rw [hrest, List.append_nil] at hsplit
    exact hsplit ▸ Scan.blank _ (hsplit ▸ hblank)
  | cons b t =>
    have hb : p b = false := by
      have hnot := List.head?_dropWhile_not p l
      rw [hrest] at hnot
      simpa using hnot
    have hword : ∀ a ∈ (b :: t).takeWhile (fun a => !p a), p a = false := by
      intro a ha
      simpa using List.mem_takeWhile_imp ha
    have hne : (b :: t).takeWhile (fun a => !p a) ≠ [] := by simp [hb]
    have hword_split := List.takeWhile_append_dropWhile (p := fun a => !p a) (l := b :: t)
    cases hend : (b :: t).dropWhile (fun a => !p a) with
    | nil =>
      rw [hend, List.append_nil] at hword_split
      rw [← hsplit, hrest, ← hword_split]
      exact Scan.last _ _ hblank hword hne
    | cons a r =>
      have ha : p a = true := by
        have hnot := List.head?_dropWhile_not (fun a => !p a) (b :: t)
        rw [hend] at hnot
        simpa using hnot
      rw [← hsplit, hrest, ← hword_split, hend]
      exact Scan.more _ _ a r hblank hword hne ha

theorem tokens_append (h : ∀ a ∈ w, p a = true) : tokens p (w ++ l) = tokens p l := by
  rw [← tokens_dropWhile p (w ++ l), List.dropWhile_append_of_pos h, tokens_dropWhile]

theorem tokens_blank (h : ∀ a ∈ w, p a = true) : tokens p w = [] := by
  have hnil := tokens_append (l := []) h
  rwa [List.append_nil, tokens_nil] at hnil

theorem length_tokens_le (p : α → Bool) (l : List α) : (tokens p l).length ≤ l.length := by
  induction hn : l.length using Nat.strong_induction_on generalizing l with
  | _ n ih =>
    cases scan p l with
    | blank ds hds =>
      rw [tokens_blank hds]
      exact Nat.zero_le _
    | last ds w hds hw hne =>
      have hpos := List.length_pos_of_ne_nil hne
      rw [tokens_append hds, tokens_word hw hne, List.length_singleton, ← hn, List.length_append]
      omega
    | more ds w a r hds hw hne ha =>
      have hpos := List.length_pos_of_ne_nil hne
      rw [List.length_append, List.length_append, List.length_cons] at hn
      have hr := ih r.length (by omega) r rfl
      rw [tokens_append hds, tokens_word_cons hw hne ha, List.length_cons]
      omega

end Tokens
