import NonOsLite.Lib.BoundedSink
import NonOsLite.Lib.Machine

namespace LineEdit
open BoundedSink InputMachine

variable {α : Type*}

inductive Key (α : Type*) where
  | append (a : α)
  | erase
  | ignore

def edit (t : List α) : Key α → List α
  | .append a => t ++ [a]
  | .erase => t.dropLast
  | .ignore => t

def text (ks : List (Key α)) : List α := run edit [] ks

-- An editor keeps a position in an array and stores as it goes.
structure Cursor (α : Type*) where
  pos : Nat
  writes : List (Nat × α)

structure Editor (α : Type*) where
  zero : α
  room : Nat → Bool
  eraseAt : Nat → Nat

def Editor.step (E : Editor α) (c : Cursor α) : Key α → Cursor α
  | .append a => if E.room c.pos then ⟨c.pos + 1, c.writes ++ [(c.pos, a)]⟩ else c
  | .erase => if c.pos ≠ 0 then ⟨c.pos - 1, c.writes ++ [(E.eraseAt c.pos, E.zero)]⟩ else c
  | .ignore => c

def Inside (size : Nat) (ws : List (Nat × α)) : Prop := ∀ w ∈ ws, w.1 < size

def Holds (ws : List (Nat × α)) (t : List α) : Prop :=
  ∀ (f : Nat → α) (i : Nat) (h : i < t.length), applyWrites f ws i = t[i]

def KeyFits (E : Editor α) (size : Nat) (t : List α) : Key α → Prop
  | .append _ => t.length < size
  | .erase => t ≠ [] → E.eraseAt t.length < size
  | .ignore => True

structure Tracks (size : Nat) (c : Cursor α) (t : List α) : Prop where
  pos : c.pos = t.length
  holds : Holds c.writes t
  inside : Inside size c.writes
  length : t.length ≤ size

variable {E : Editor α} {c : Cursor α} {t : List α} {k : Key α} {ks : List (Key α)}
  {ws ws' : List (Nat × α)} {n size : Nat} {a : α}

theorem inside_append : Inside size (ws ++ ws') ↔ Inside size ws ∧ Inside size ws' :=
  List.forall_mem_append

theorem inside_concat : Inside size (ws ++ [(n, a)]) ↔ Inside size ws ∧ n < size := by
  rw [inside_append]
  simp [Inside]

theorem applyWrites_concat (f : Nat → α) (ws : List (Nat × α)) (n : Nat) (a : α) :
    applyWrites f (ws ++ [(n, a)]) = Function.update (applyWrites f ws) n a := by
  rw [applyWrites_append]
  rfl

theorem holds_append (h : Holds ws t) (a : α) : Holds (ws ++ [(t.length, a)]) (t ++ [a]) := by
  intro f i hi
  rw [applyWrites_concat]
  rw [List.length_append, List.length_singleton] at hi
  rcases Nat.lt_or_ge i t.length with hlt | hge
  · rw [Function.update_of_ne (by omega), List.getElem_append_left hlt, h f i hlt]
  · obtain rfl : i = t.length := by omega
    rw [Function.update_self, List.getElem_concat_length rfl]

theorem holds_outside (h : Holds ws t) (hn : t.length ≤ n) (a : α) : Holds (ws ++ [(n, a)]) t := by
  intro f i hi
  rw [applyWrites_concat, Function.update_of_ne (by omega), h f i hi]

theorem holds_dropLast (h : Holds ws t) : Holds ws t.dropLast := by
  intro f i hi
  rw [List.getElem_dropLast]
  exact h f i _

theorem tracks_nil (size : Nat) : Tracks size ⟨0, []⟩ ([] : List α) :=
  ⟨rfl, fun _ i hi => absurd hi (Nat.not_lt_zero i), fun _ hw => absurd hw List.not_mem_nil,
    Nat.zero_le size⟩

theorem Tracks.step (h : Tracks size c t) (hroom : ∀ n ≤ size, E.room n = true)
    (herase : ∀ n, n - 1 ≤ E.eraseAt n) (hk : KeyFits E size t k) :
    Tracks size (E.step c k) (edit t k) := by
  cases k with
  | append a =>
    have hlt : t.length < size := hk
    rw [Editor.step, if_pos (by rw [h.pos]; exact hroom _ h.length), edit, h.pos]
    refine ⟨by simp, holds_append h.holds a, inside_concat.mpr ⟨h.inside, hlt⟩, ?_⟩
    rw [List.length_append]
    exact hlt
  | erase =>
    have hlast := herase t.length
    rw [Editor.step, edit, h.pos]
    by_cases ht : t = []
    · subst ht
      exact h
    · have hne : t.length ≠ 0 := fun h0 => ht (List.eq_nil_of_length_eq_zero h0)
      have hlen := h.length
      rw [if_pos hne]
      refine ⟨by simp, ?_, inside_concat.mpr ⟨h.inside, hk ht⟩, ?_⟩
      · exact holds_outside (holds_dropLast h.holds) (by rw [List.length_dropLast]; exact hlast) _
      · rw [List.length_dropLast]
        omega
  | ignore => exact h

theorem Tracks.fits (h : Tracks size c t) (hroom : ∀ n ≤ size, E.room n = true)
    (hin : Inside size (E.step c k).writes) : KeyFits E size t k := by
  cases k with
  | append a =>
    rw [Editor.step, if_pos (by rw [h.pos]; exact hroom _ h.length), h.pos] at hin
    exact (inside_concat.mp hin).2
  | erase =>
    intro ht
    have hne : t.length ≠ 0 := fun h0 => ht (List.eq_nil_of_length_eq_zero h0)
    rw [Editor.step, h.pos, if_pos hne] at hin
    exact (inside_concat.mp hin).2
  | ignore => trivial

theorem step_writes (E : Editor α) (c : Cursor α) (k : Key α) :
    c.writes <+: (E.step c k).writes := by
  cases k with
  | append a =>
    rw [Editor.step]
    split_ifs
    · exact List.prefix_append _ _
    · exact List.prefix_refl _
  | erase =>
    rw [Editor.step]
    split_ifs
    · exact List.prefix_append _ _
    · exact List.prefix_refl _
  | ignore => exact List.prefix_refl _

theorem run_writes (E : Editor α) (c : Cursor α) (ks : List (Key α)) :
    c.writes <+: (run E.step c ks).writes := by
  induction ks generalizing c with
  | nil => exact List.prefix_refl _
  | cons k ks ih => exact (step_writes E c k).trans (ih (E.step c k))

theorem Inside.of_prefix (h : Inside size ws') (hp : ws <+: ws') : Inside size ws :=
  fun w hw => h w (hp.subset hw)

theorem Tracks.run (h : Tracks size c t) (hroom : ∀ n ≤ size, E.room n = true)
    (herase : ∀ n, n - 1 ≤ E.eraseAt n) (hk : Meets edit (KeyFits E size) t ks) :
    Tracks size (run E.step c ks) (run edit t ks) := by
  induction ks generalizing c t with
  | nil => exact h
  | cons k ks ih => exact ih (h.step hroom herase hk.1) hk.2

theorem Tracks.inside_iff (h : Tracks size c t) (hroom : ∀ n ≤ size, E.room n = true)
    (herase : ∀ n, n - 1 ≤ E.eraseAt n) :
    Inside size (InputMachine.run E.step c ks).writes ↔ Meets edit (KeyFits E size) t ks := by
  refine ⟨fun hin => ?_, fun hk => (h.run hroom herase hk).inside⟩
  induction ks generalizing c t with
  | nil => trivial
  | cons k ks ih =>
    have hfirst := h.fits hroom (hin.of_prefix (run_writes E (E.step c k) ks))
    exact ⟨hfirst, ih (h.step hroom herase hfirst) hin⟩

theorem meets_erase_last (herase : ∀ n, E.eraseAt n = n - 1) (ht : t.length ≤ size) :
    Meets edit (KeyFits E size) t ks ↔ ∀ pre, pre <+: ks → (run edit t pre).length ≤ size := by
  refine (prefixes_iff_meets (fun t : List α => t.length ≤ size) ?_ ht ks).symm
  intro t k ht
  cases k with
  | append a => simp [edit, KeyFits]
  | erase =>
    refine iff_of_true ?_ ?_
    · rw [edit, List.length_dropLast]
      exact Nat.le_trans (Nat.sub_le _ _) ht
    · intro hne
      have hpos := List.length_pos_of_ne_nil hne
      rw [herase]
      omega
  | ignore => exact iff_of_true ht trivial

theorem meets_erase_behind (herase : ∀ n, E.eraseAt n = n) :
    Meets edit (KeyFits E size) t ks ∧ (run edit t ks).length < size ↔
      ∀ pre, pre <+: ks → (run edit t pre).length < size := by
  induction ks generalizing t with
  | nil =>
    refine ⟨fun h pre hpre => ?_, fun h => ⟨trivial, h [] List.nil_prefix⟩⟩
    rw [List.prefix_nil.mp hpre]
    exact h.2
  | cons k ks ih =>
    have hkey : (edit t k).length < size → (KeyFits E size t k ↔ t.length < size) := by
      intro hlt
      cases k with
      | append a =>
        rw [edit, List.length_append, List.length_singleton] at hlt
        exact Iff.rfl
      | erase =>
        by_cases ht : t = []
        · subst ht
          exact iff_of_true (fun hne => absurd rfl hne) hlt
        · rw [KeyFits, herase]
          exact ⟨fun h => h ht, fun h _ => h⟩
      | ignore => exact iff_of_true trivial hlt
    rw [forall_prefix_cons, meets_cons, run_cons, and_assoc, ih]
    constructor
    · rintro ⟨hk, hrest⟩
      exact ⟨(hkey (hrest [] List.nil_prefix)).mp hk, hrest⟩
    · rintro ⟨ht, hrest⟩
      exact ⟨(hkey (hrest [] List.nil_prefix)).mpr ht, hrest⟩

def Edits (z : α) (size : Nat) (stores : Option (List (Nat × α))) (t : List α) : Prop :=
  ∃ ws, stores = some ws ∧ Inside size ws ∧ Holds ws (t ++ [z])

theorem edits_concat (z : α) (ks : List (Key α)) (hroom : ∀ n ≤ size, E.room n = true)
    (herase : ∀ n, n - 1 ≤ E.eraseAt n) :
    Edits z size (some ((run E.step ⟨0, []⟩ ks).writes ++ [((run E.step ⟨0, []⟩ ks).pos, z)]))
      (text ks) ↔ Meets edit (KeyFits E size) [] ks ∧ (text ks).length < size := by
  have htracks : Tracks size ⟨0, []⟩ ([] : List α) := tracks_nil size
  constructor
  · rintro ⟨ws, hws, hin, -⟩
    obtain rfl := Option.some.inj hws
    obtain ⟨hrun, hlast⟩ := inside_concat.mp hin
    have hmeets := (htracks.inside_iff hroom herase).mp hrun
    have hend := htracks.run hroom herase hmeets
    rw [hend.pos] at hlast
    exact ⟨hmeets, hlast⟩
  · rintro ⟨hmeets, hlen⟩
    have hend := htracks.run hroom herase hmeets
    rw [hend.pos]
    exact ⟨_, rfl, inside_concat.mpr ⟨hend.inside, hlen⟩, holds_append hend.holds z⟩

theorem forall_prefix_map {β : Type*} {f : β → α} {P : List α → Prop} {xs : List β} :
    (∀ ys, ys <+: xs.map f → P ys) ↔ ∀ ys, ys <+: xs → P (ys.map f) := by
  induction xs generalizing P with
  | nil => simp
  | cons x xs ih => rw [List.map_cons, forall_prefix_cons, forall_prefix_cons, ih]; rfl

theorem mem_run_edit (h : a ∈ run edit t ks) : a ∈ t ∨ Key.append a ∈ ks := by
  induction ks generalizing t with
  | nil => exact Or.inl h
  | cons k ks ih =>
    rcases ih h with hk | hks
    · cases k with
      | append b =>
        rcases List.mem_append.mp hk with ht | hb
        · exact Or.inl ht
        · rw [List.mem_singleton.mp hb]
          exact Or.inr List.mem_cons_self
      | erase => exact Or.inl (List.mem_of_mem_dropLast hk)
      | ignore => exact Or.inl hk
    · exact Or.inr (List.mem_cons_of_mem k hks)

theorem mem_text (h : a ∈ text ks) : Key.append a ∈ ks :=
  (mem_run_edit h).resolve_left List.not_mem_nil

theorem holds_concat {u : List α} {z : α} :
    Holds ws (u ++ [z]) ↔ Holds ws u ∧ ∀ f, applyWrites f ws u.length = z := by
  constructor
  · intro h
    refine ⟨fun f i hi => ?_, fun f => ?_⟩
    · rw [h f i (by rw [List.length_append]; omega), List.getElem_append_left hi]
    · rw [h f u.length (by simp), List.getElem_concat_length rfl]
  · rintro ⟨hu, hz⟩ f i hi
    rw [List.length_append, List.length_singleton] at hi
    rcases Nat.lt_or_ge i u.length with hlt | hge
    · rw [List.getElem_append_left hlt, hu f i hlt]
    · obtain rfl : i = u.length := by omega
      rw [List.getElem_concat_length rfl, hz f]

theorem Holds.unique {u v : List α} {z : α} (hu : Holds ws (u ++ [z])) (hv : Holds ws (v ++ [z]))
    (hzu : z ∉ u) (hzv : z ∉ v) : u = v := by
  obtain ⟨hu, hzu'⟩ := holds_concat.mp hu
  obtain ⟨hv, hzv'⟩ := holds_concat.mp hv
  rcases Nat.lt_trichotomy u.length v.length with hlt | heq | hgt
  · have hz := (hv (fun _ => z) u.length hlt).symm.trans (hzu' _)
    exact absurd (hz ▸ List.getElem_mem hlt) hzv
  · refine List.ext_getElem heq ?_
    intro i hi hi'
    rw [← hu (fun _ => z) i hi, hv (fun _ => z) i hi']
  · have hz := (hu (fun _ => z) v.length hgt).symm.trans (hzv' _)
    exact absurd (hz ▸ List.getElem_mem hgt) hzu

end LineEdit
