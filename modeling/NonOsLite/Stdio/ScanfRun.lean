import NonOsLite.Stdio.Scanf

namespace NonOsLite.Scanf
open Stdio

def isValue : Stored → Bool
  | .position _ => false
  | _ => true

def valuesStored (s : Scan) : Nat := s.stored.countP isValue

def NextBehind (s : Scan) : Prop := ∀ n ∈ s.next, n ≤ s.str

inductive Reached (buf fmt : List UInt8) : Scan → Prop where
  | start : Reached buf fmt (scanStart fmt)
  | round {s t : Scan} (h : Reached buf fmt s) (hloop : inLoop buf s)
      (hround : scanRound buf s = .again t) : Reached buf fmt t

def Directive.scan : Directive → Scan
  | .again s => s
  | .stop s => s
  | .ret s => s
  | .integer _ s => s

def Exit.scan : Exit → Scan
  | .stop s => s
  | .ret s => s
  | .undefined s => s

def Round.scan : Round → Scan
  | .again s => s
  | .exit e => e.scan

structure Onward (s t : Scan) : Prop where
  fmt : t.fmt.length ≤ s.fmt.length
  str : s.str ≤ t.str
  next : t.next = s.next
  count : t.num + valuesStored s = s.num + valuesStored t

variable {buf fmt : List UInt8} {s t u : Scan} {conv : IntConv}

theorem Onward.refl (s : Scan) : Onward s s := ⟨Nat.le_refl _, Nat.le_refl _, rfl, rfl⟩

theorem Onward.trans (h : Onward s t) (k : Onward t u) : Onward s u where
  fmt := Nat.le_trans k.fmt h.fmt
  str := Nat.le_trans h.str k.str
  next := k.next.trans h.next
  count := by
    have hs := h.count
    have ht := k.count
    omega

theorem onward_moves {rest : List UInt8} {i : Nat} (hfmt : rest.length ≤ s.fmt.length)
    (hstr : s.str ≤ i) : Onward s { s with fmt := rest, str := i } :=
  ⟨hfmt, hstr, rfl, rfl⟩

theorem onward_stores {i : Nat} {x : Stored} (hstr : s.str ≤ i) (hx : isValue x = true) :
    Onward s { s with str := i, num := s.num + 1, stored := s.stored ++ [x] } where
  fmt := Nat.le_refl _
  str := hstr
  next := rfl
  count := by
    simp only [valuesStored, List.countP_append, List.countP_singleton, hx, if_true]
    omega

theorem scanPosition_onward (s : Scan) : Onward s (scanPosition s) where
  fmt := Nat.le_refl _
  str := Nat.le_refl _
  next := rfl
  count := by simp [scanPosition, valuesStored, isValue]

theorem le_skipSpaces (buf : List UInt8) (i : Nat) : i ≤ skipSpaces buf i := Nat.le_add_right _ _

theorem skipFormatSpaces_onward (buf : List UInt8) (s : Scan) :
    Onward s (skipFormatSpaces buf s) := by
  unfold skipFormatSpaces
  split
  · refine onward_moves ?_ (le_skipSpaces buf s.str)
    exact Nat.le_trans (List.dropWhile_sublist _).length_le (List.drop_sublist _ _).length_le
  · exact Onward.refl s

theorem onward_ite {p : Prop} [Decidable p] {d e : Directive} (hd : Onward s d.scan)
    (he : Onward s e.scan) : Onward s (if p then d else e).scan := by
  split
  · exact hd
  · exact he

theorem specifier_onward (buf : List UInt8) (c : UInt8) (width : Option Nat) (qualifier : UInt8)
    (s : Scan) : Onward s (specifier buf c width qualifier s).scan := by
  unfold specifier
  extract_lets t
  have hs : Onward s s := Onward.refl s
  have ht : Onward s t := onward_moves (Nat.le_refl _) (Nat.le_succ _)
  refine onward_ite (onward_stores (Nat.le_add_right _ _) rfl) ?_
  refine onward_ite
    (onward_stores (Nat.le_trans (le_skipSpaces buf s.str) (Nat.le_add_right _ _)) rfl) ?_
  refine onward_ite (scanPosition_onward s) ?_
  -- The integer conversions are still to come: they leave the state as it is.
  refine onward_ite hs (onward_ite hs (onward_ite hs (onward_ite hs (onward_ite hs ?_))))
  exact onward_ite (onward_ite ht ht) hs

theorem getWidth_length (fmt : List UInt8) : (getWidth fmt).2.length ≤ fmt.length := by
  unfold getWidth
  split
  · exact skipAtoi_length 0 fmt
  · exact Nat.le_refl _

theorem getQualifier_length (fmt : List UInt8) : (getQualifier fmt).2.length ≤ fmt.length := by
  unfold getQualifier
  split
  · exact Nat.le_refl _
  · repeat' split
    all_goals
      simp only [List.length_drop, List.length_cons]
      omega

theorem conversion_onward (buf : List UInt8) (s : Scan) : Onward s (conversion buf s).scan := by
  unfold conversion
  split
  · exact onward_moves (List.dropWhile_sublist _).length_le (Nat.le_add_right _ _)
  · have hlen := Nat.le_trans (getQualifier_length (getWidth s.fmt).2) (getWidth_length s.fmt)
    generalize getWidth s.fmt = w at hlen
    obtain ⟨width, rest⟩ := w
    simp only at hlen ⊢
    generalize getQualifier rest = q at hlen
    obtain ⟨qualifier, rest'⟩ := q
    cases rest' with
    | nil => exact onward_moves (Nat.zero_le _) (Nat.le_refl _)
    | cons c rest' =>
      simp only
      split
      · exact onward_moves hlen (Nat.le_refl _)
      · have hbehind : Onward s { s with fmt := rest', str := s.str } :=
          onward_moves (Nat.le_trans (Nat.le_succ _) hlen) (Nat.le_refl _)
        exact hbehind.trans (specifier_onward buf c width qualifier _)

theorem directive_onward (buf : List UInt8) (s : Scan) (h : s.fmt ≠ []) :
    Onward s (directive buf s).scan ∧ (directive buf s).scan.fmt.length < s.fmt.length := by
  have hpos := List.length_pos_of_ne_nil h
  have hskip := skipFormatSpaces_onward buf s
  unfold directive
  extract_lets s'
  have hs' : Onward s s' := hskip
  cases hfmt : s'.fmt with
  | nil =>
    simp only
    refine ⟨hs', ?_⟩
    rw [show (Directive.stop s').scan = s' from rfl, hfmt]
    exact hpos
  | cons c rest =>
    have hle := hs'.fmt
    rw [hfmt, List.length_cons] at hle
    have htail (i : Nat) (hi : s'.str ≤ i) : Onward s { s' with fmt := rest, str := i } := by
      refine hs'.trans (onward_moves ?_ hi)
      rw [hfmt]
      exact Nat.le_succ _
    simp only
    split
    · have hconv := conversion_onward buf { s' with fmt := rest }
      have hfirst : Onward s { s' with fmt := rest } := htail s'.str (Nat.le_refl _)
      exact ⟨hfirst.trans hconv, Nat.lt_of_le_of_lt hconv.fmt hle⟩
    · have hliteral := htail (s'.str + 1) (Nat.le_succ _)
      split
      · exact ⟨hliteral, hle⟩
      · exact ⟨hliteral, hle⟩

theorem integer_onward (buf : List UInt8) (conv : IntConv) (s : Scan) :
    (integer buf conv s).scan.fmt = s.fmt ∧
      (integer buf conv s).scan.num + valuesStored s =
        s.num + valuesStored (integer buf conv s).scan := by
  have hcount (n : Nat) : s.num + 1 + valuesStored s =
      s.num + (s.stored ++ [Stored.int (targetBits conv.qualifier) n]).countP isValue := by
    have hvalue : isValue (.int (targetBits conv.qualifier) n) = true := rfl
    simp only [valuesStored, List.countP_append, List.countP_singleton, hvalue, if_true]
    omega
  cases hbad : badDigit conv.base (firstDigit buf conv.isSign (skipSpaces buf s.str)) with
  | true =>
    rw [integer_stop rfl hbad]
    exact ⟨rfl, rfl⟩
  | false =>
    cases hnext : (strto buf conv (skipSpaces buf s.str) s.next).2 with
    | none =>
      rw [integer_undefined rfl hbad (Prod.ext rfl hnext)]
      exact ⟨rfl, hcount _⟩
    | some m =>
      rw [integer_counted rfl hbad (Prod.ext rfl hnext)]
      exact ⟨rfl, hcount _⟩

theorem integer_next (h : integer buf conv s = .again t) : t.next = some t.str := by
  cases hbad : badDigit conv.base (firstDigit buf conv.isSign (skipSpaces buf s.str)) with
  | true =>
    rw [integer_stop rfl hbad] at h
    cases h
  | false =>
    cases hnext : (strto buf conv (skipSpaces buf s.str) s.next).2 with
    | none =>
      rw [integer_undefined rfl hbad (Prod.ext rfl hnext)] at h
      cases h
    | some m =>
      rw [integer_counted rfl hbad (Prod.ext rfl hnext)] at h
      cases h
      rfl

structure RoundInv (s : Scan) : Prop where
  behind : NextBehind s
  count : s.num = valuesStored s

theorem Onward.inv (h : Onward s t) (hs : RoundInv s) : RoundInv t where
  behind := by
    intro n hn
    rw [h.next] at hn
    exact Nat.le_trans (hs.behind n hn) h.str
  count := by
    have hcount := h.count
    have heq := hs.count
    omega

theorem directive_inv (buf : List UInt8) (hs : RoundInv s) (h : s.fmt ≠ []) :
    RoundInv (directive buf s).scan :=
  (directive_onward buf s h).1.inv hs

theorem integer_count (buf : List UInt8) (conv : IntConv) (hs : RoundInv s) :
    (integer buf conv s).scan.num = valuesStored (integer buf conv s).scan := by
  have hcount := (integer_onward buf conv s).2
  have heq := hs.count
  omega

theorem scanRound_again_cases (h : scanRound buf s = .again t) :
    directive buf s = .again t ∨
      ∃ conv u, directive buf s = .integer conv u ∧ integer buf conv u = .again t := by
  unfold scanRound at h
  cases hdir : directive buf s with
  | again u =>
    rw [hdir] at h
    cases h
    exact Or.inl rfl
  | stop u =>
    rw [hdir] at h
    cases h
  | ret u =>
    rw [hdir] at h
    cases h
  | integer conv u =>
    rw [hdir] at h
    exact Or.inr ⟨conv, u, rfl, h⟩

theorem scanRound_undefined (h : scanRound buf s = .exit (.undefined u)) :
    ∃ conv t, directive buf s = .integer conv t ∧ integer buf conv t = .exit (.undefined u) := by
  unfold scanRound at h
  cases hdir : directive buf s with
  | again t =>
    rw [hdir] at h
    cases h
  | stop t =>
    rw [hdir] at h
    cases h
  | ret t =>
    rw [hdir] at h
    cases h
  | integer conv t =>
    rw [hdir] at h
    exact ⟨conv, t, rfl, h⟩

theorem scanRound_again (hs : RoundInv s) (h : s.fmt ≠ []) (hround : scanRound buf s = .again t) :
    RoundInv t ∧ t.fmt.length < s.fmt.length := by
  have hinv := directive_inv buf hs h
  have hlt := (directive_onward buf s h).2
  obtain hdir | ⟨conv, u, hdir, hinteger⟩ := scanRound_again_cases hround
  · rw [hdir] at hinv hlt
    exact ⟨hinv, hlt⟩
  · rw [hdir] at hinv hlt
    have hu : RoundInv u := hinv
    have hfmt := (integer_onward buf conv u).1
    have hcount := integer_count buf conv hu
    rw [hinteger] at hfmt hcount
    refine ⟨⟨?_, hcount⟩, ?_⟩
    · intro n hn
      rw [integer_next hinteger] at hn
      cases hn
      exact Nat.le_refl _
    · rw [show t.fmt = u.fmt from hfmt]
      exact hlt

theorem Reached.inv (h : Reached buf fmt s) : RoundInv s := by
  induction h with
  | start => exact ⟨fun n hn => (by cases hn), rfl⟩
  | round _ hloop hround ih => exact (scanRound_again ih hloop.1 hround).1

theorem scanRound_count (buf : List UInt8) (hs : RoundInv s) (h : s.fmt ≠ []) :
    (scanRound buf s).scan.num = valuesStored (scanRound buf s).scan := by
  have hinv := directive_inv buf hs h
  unfold scanRound
  cases hdir : directive buf s with
  | integer conv u =>
    rw [hdir] at hinv
    exact integer_count buf conv hinv
  | again u =>
    rw [hdir] at hinv
    exact hinv.count
  | stop u =>
    rw [hdir] at hinv
    exact hinv.count
  | ret u =>
    rw [hdir] at hinv
    exact hinv.count

theorem scanLoop_succ {fuel : Nat} (hs : RoundInv s) (h : s.fmt.length ≤ fuel) :
    scanLoop buf (fuel + 1) s = scanLoop buf fuel s := by
  induction fuel generalizing s with
  | zero =>
    have hnil : s.fmt = [] := List.eq_nil_of_length_eq_zero (Nat.le_zero.mp h)
    exact if_neg fun hloop => hloop.1 hnil
  | succ fuel ih =>
    rw [scanLoop, scanLoop]
    by_cases hloop : inLoop buf s
    · rw [if_pos hloop, if_pos hloop]
      cases hround : scanRound buf s with
      | exit e => rfl
      | again t =>
        obtain ⟨ht, hlt⟩ := scanRound_again hs hloop.1 hround
        exact ih ht (by omega)
    · rw [if_neg hloop, if_neg hloop]

theorem scanLoop_fuel {fuel : Nat} (hs : RoundInv s) (h : s.fmt.length ≤ fuel) :
    scanLoop buf fuel s = scanLoop buf s.fmt.length s := by
  induction fuel, h using Nat.le_induction with
  | base => rfl
  | succ fuel hle ih => exact (scanLoop_succ hs hle).trans ih

theorem scanLoop_count (buf : List UInt8) (hs : RoundInv s) (fuel : Nat) :
    (scanLoop buf fuel s).scan.num = valuesStored (scanLoop buf fuel s).scan := by
  induction fuel generalizing s with
  | zero => exact hs.count
  | succ fuel ih =>
    rw [scanLoop]
    by_cases hloop : inLoop buf s
    · have hcount := scanRound_count buf hs hloop.1
      rw [if_pos hloop]
      cases hround : scanRound buf s with
      | exit e =>
        rw [hround] at hcount
        exact hcount
      | again t => exact ih (scanRound_again hs hloop.1 hround).1
    · rw [if_neg hloop]
      exact hs.count

theorem vsscanf_count {fuel : Nat} {r : Scan} (h : vsscanf buf fuel fmt = some r) :
    r.num = valuesStored r := by
  have hstart : Reached buf fmt (scanStart fmt) := .start
  have hcount := scanLoop_count buf hstart.inv fuel
  unfold vsscanf at h
  cases hloop : scanLoop buf fuel (scanStart fmt) with
  | undefined u =>
    rw [hloop] at h
    cases h
  | ret u =>
    rw [hloop] at h hcount
    cases h
    exact hcount
  | stop u =>
    rw [hloop] at h hcount
    cases h
    unfold finish
    split
    · have hu : u.num = valuesStored u := hcount
      have hposition := (scanPosition_onward u).count
      omega
    · exact hcount

def AllConversions (P : IntConv → Scan → Prop) (buf fmt : List UInt8) : Prop :=
  ∀ s, Reached buf fmt s → inLoop buf s → ∀ conv t, directive buf s = .integer conv t → P conv t

theorem scanLoop_defined (hs : Reached buf fmt s)
    (h : AllConversions (fun conv t => ∀ u, integer buf conv t ≠ .exit (.undefined u)) buf fmt)
    (fuel : Nat) (u : Scan) : scanLoop buf fuel s ≠ .undefined u := by
  induction fuel generalizing s with
  | zero => exact fun hc => by cases hc
  | succ fuel ih =>
    rw [scanLoop]
    by_cases hloop : inLoop buf s
    · rw [if_pos hloop]
      cases hround : scanRound buf s with
      | again t => exact ih (hs.round hloop hround)
      | exit e =>
        rintro rfl
        obtain ⟨conv, t, hdir, hinteger⟩ := scanRound_undefined hround
        exact h s hs hloop conv t hdir u hinteger
    · rw [if_neg hloop]
      exact fun hc => by cases hc

theorem vsscanf_defined
    (h : AllConversions (fun conv t => ∀ u, integer buf conv t ≠ .exit (.undefined u)) buf fmt) :
    ∃ r, ∀ fuel, fmt.length ≤ fuel → vsscanf buf fuel fmt = some r := by
  have hstart : Reached buf fmt (scanStart fmt) := .start
  have hdefined := scanLoop_defined hstart h fmt.length
  obtain ⟨r, hr⟩ : ∃ r, vsscanf buf fmt.length fmt = some r := by
    unfold vsscanf
    cases hloop : scanLoop buf fmt.length (scanStart fmt) with
    | undefined u => exact absurd hloop (hdefined u)
    | ret u => exact ⟨u, rfl⟩
    | stop u => exact ⟨finish u, rfl⟩
  refine ⟨r, fun fuel hfuel => ?_⟩
  rw [← hr, vsscanf, scanLoop_fuel hstart.inv hfuel]
  rfl

end NonOsLite.Scanf
