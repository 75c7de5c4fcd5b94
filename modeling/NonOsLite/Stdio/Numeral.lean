import NonOsLite.Libc.Strtol

namespace NonOsLite.Scanf
open Positional

def digitBase (base : Nat) : Nat := if base = 0 then 10 else base

-- Digits of the base; base 0 also takes 0x or 0X in front of hexadecimal digits.
def IsBody (base : Nat) (t : List UInt8) : Prop :=
  (t ≠ [] ∧ ∀ c ∈ t, isDigit charDigit (digitBase base) c = true) ∨
    (base = 0 ∧ hexPrefix t = true ∧ t.drop 2 ≠ [] ∧ ∀ c ∈ t.drop 2, isDigit charDigit 16 c = true)

def IsNumeral (base : Nat) (isSign : Bool) (t : List UInt8) : Prop :=
  IsBody base t ∨ (isSign = true ∧ ∃ a, t = 45 :: a ∧ IsBody base a)

def numeralValue (base : Nat) (t : List UInt8) : Int :=
  (readUnsigned base (dropSign t)).1 * signOf t

structure Longest (base : Nat) (isSign : Bool) (text t : List UInt8) : Prop where
  initial : t <+: text
  numeral : IsNumeral base isSign t
  longest : ∀ t', t' <+: text → IsNumeral base isSign t' → t'.length ≤ t.length

def limited (width : Option Nat) (a : List UInt8) : List UInt8 :=
  match width with
  | none => a
  | some w => a.take w

def readBody (base : Nat) (a : List UInt8) : List UInt8 :=
  if base = 0 ∧ a.take 2 = [48, 120] then a.take 2 ++ (a.drop 2).takeWhile isxdigit
  else a.takeWhile (if base = 16 then isxdigit else isdigit)

def readText (base : Nat) (isSign : Bool) (a : List UInt8) : List UInt8 :=
  if isSign = true ∧ a.head? = some 45 then 45 :: readBody base (a.drop 1) else readBody base a

def hexStart (a : List UInt8) : Bool := a.head?.any (isDigit charDigit 16)

def longestBody (base : Nat) (a : List UInt8) : List UInt8 :=
  if base = 0 ∧ hexPrefix a = true ∧ hexStart (a.drop 2) = true then
    a.take 2 ++ (a.drop 2).takeWhile (isDigit charDigit 16)
  else a.takeWhile (isDigit charDigit (digitBase base))

def longestText (base : Nat) (isSign : Bool) (a : List UInt8) : List UInt8 :=
  if isSign = true ∧ a.head? = some 45 then 45 :: longestBody base (a.drop 1) else longestBody base a

def PlainBody (base : Nat) (a : List UInt8) : Prop :=
  if base = 16 then PlainHex a
  else if base = 0 then
    (a.take 2 = [48, 120] → hexStart (a.drop 2) = true ∧ PlainHex (a.drop 2)) ∧
      (a.take 2 = [48, 88] → hexStart (a.drop 2) = false)
  else True

def PlainText (base : Nat) (isSign : Bool) (a : List UInt8) : Prop :=
  if isSign = true ∧ a.head? = some 45 then PlainBody base (a.drop 1) else PlainBody base a

def StartsBody (base : Nat) (a : List UInt8) : Prop :=
  a.head?.any (if base = 16 then isxdigit else isdigit) = true

def Starts (base : Nat) (isSign : Bool) (a : List UInt8) : Prop :=
  if isSign = true ∧ a.head? = some 45 then StartsBody base (a.drop 1) else StartsBody base a

variable {base n : Nat} {isSign : Bool} {a t : List UInt8}

theorem take_takeWhile_initial (n : Nat) (p : UInt8 → Bool) (a : List UInt8) :
    a.take n ++ (a.drop n).takeWhile p <+: a := by
  obtain ⟨rest, hrest⟩ := List.takeWhile_prefix p (l := a.drop n)
  refine ⟨rest, ?_⟩
  rw [List.append_assoc, hrest, List.take_append_drop]

theorem readBody_initial (base : Nat) (a : List UInt8) : readBody base a <+: a := by
  unfold readBody
  split
  · exact take_takeWhile_initial 2 isxdigit a
  · exact List.takeWhile_prefix _

theorem longestBody_initial (base : Nat) (a : List UInt8) : longestBody base a <+: a := by
  unfold longestBody
  split
  · exact take_takeWhile_initial 2 (isDigit charDigit 16) a
  · exact List.takeWhile_prefix _

theorem take_takeWhile_of_le {p : UInt8 → Bool} (h : (a.takeWhile p).length ≤ n) :
    (a.take n).takeWhile p = a.takeWhile p := by
  rw [← List.take_takeWhile, List.take_of_length_le h]

theorem readBody_take (h : (readBody base a).length ≤ n) :
    readBody base (a.take n) = readBody base a := by
  by_cases hx : base = 0 ∧ a.take 2 = [48, 120]
  · have hread : readBody base a = a.take 2 ++ (a.drop 2).takeWhile isxdigit := if_pos hx
    rw [hread, List.length_append, hx.2, List.length_cons, List.length_singleton] at h
    have htake : (a.take n).take 2 = [48, 120] := by
      rw [List.take_take, Nat.min_eq_left (by omega), hx.2]
    have hrest : ((a.take n).drop 2).takeWhile isxdigit = (a.drop 2).takeWhile isxdigit := by
      rw [List.drop_take]
      exact take_takeWhile_of_le (by omega)
    rw [hread, readBody, if_pos ⟨hx.1, htake⟩, htake, hrest, hx.2]
  · have hx' : ¬(base = 0 ∧ (a.take n).take 2 = [48, 120]) := by
      rintro ⟨hb, htake⟩
      rw [List.take_take] at htake
      have hlen := congrArg List.length htake
      rw [List.length_take, List.length_cons, List.length_singleton] at hlen
      rw [Nat.min_eq_left (by omega)] at htake
      exact hx ⟨hb, htake⟩
    have hread : readBody base a = a.takeWhile (if base = 16 then isxdigit else isdigit) := if_neg hx
    rw [hread] at h ⊢
    rw [readBody, if_neg hx', take_takeWhile_of_le h]

theorem hexPrefix_iff : hexPrefix a = true ↔ a.take 2 = [48, 120] ∨ a.take 2 = [48, 88] := by
  simp [hexPrefix]

theorem hexPrefix_length (h : hexPrefix a = true) : 2 ≤ a.length := by
  have htwo (x : UInt8) (hx : a.take 2 = [48, x]) : 2 ≤ a.length := by
    have hlen := congrArg List.length hx
    rw [List.length_take, List.length_cons, List.length_singleton] at hlen
    omega
  exact (hexPrefix_iff.mp h).elim (htwo 120) (htwo 88)

theorem hexStart_iff : hexStart a = true ↔ a.takeWhile (isDigit charDigit 16) ≠ [] := by
  cases a with
  | nil => decide
  | cons c a => cases hc : isDigit charDigit 16 c <;> simp [hexStart, hc]

theorem longestBody_hex (h : base = 0 ∧ hexPrefix a = true ∧ hexStart (a.drop 2) = true) :
    longestBody base a = a.take 2 ++ (a.drop 2).takeWhile (isDigit charDigit 16) := if_pos h

theorem longestBody_digits (h : ¬(base = 0 ∧ hexPrefix a = true ∧ hexStart (a.drop 2) = true)) :
    longestBody base a = a.takeWhile (isDigit charDigit (digitBase base)) := if_neg h

theorem takeWhile_hexPrefix (h : hexPrefix a = true) :
    a.takeWhile (isDigit charDigit 10) = [48] := by
  have hstop (x : UInt8) (hx : isDigit charDigit 10 x = false) (s : List UInt8)
      (hs : s.take 2 = [48, x]) : s.takeWhile (isDigit charDigit 10) = [48] := by
    have hzero : isDigit charDigit 10 48 = true := by decide
    rw [← List.take_append_drop 2 s, hs, List.cons_append, List.takeWhile_cons_of_pos hzero,
      List.cons_append, List.takeWhile_cons_of_neg (by simp [hx])]
  rcases hexPrefix_iff.mp h with hx | hx
  · exact hstop 120 (by decide) a hx
  · exact hstop 88 (by decide) a hx

theorem initial_length {p : UInt8 → Bool} (ht : t <+: a) (hp : ∀ c ∈ t, p c = true) :
    t.length ≤ (a.takeWhile p).length :=
  (prefix_takeWhile ht hp).length_le

theorem take_of_initial (ht : t <+: a) (h : n ≤ t.length) : a.take n = t.take n := by
  obtain ⟨rest, rfl⟩ := ht
  exact List.take_append_of_le_length h

theorem hexPrefix_initial (ht : t <+: a) (h : hexPrefix t = true) : hexPrefix a = true := by
  rw [hexPrefix_iff, take_of_initial ht (hexPrefix_length h)]
  exact hexPrefix_iff.mp h

theorem body_le_longest (ht : t <+: a) (h : IsBody base t) :
    t.length ≤ (longestBody base a).length := by
  rcases h with ⟨hne, hdigits⟩ | ⟨hb, hx, hne, hdigits⟩
  · by_cases hhex : base = 0 ∧ hexPrefix a = true ∧ hexStart (a.drop 2) = true
    · have hshort := initial_length ht hdigits
      rw [digitBase, if_pos hhex.1, takeWhile_hexPrefix hhex.2.1, List.length_singleton] at hshort
      have htwo := hexPrefix_length hhex.2.1
      rw [longestBody_hex hhex, List.length_append, List.length_take]
      omega
    · rw [longestBody_digits hhex]
      exact initial_length ht hdigits
  · have hxa := hexPrefix_initial ht hx
    have htwo := hexPrefix_length hx
    have hrest := initial_length (ht.drop 2) hdigits
    rw [List.length_drop] at hrest
    have hstart : hexStart (a.drop 2) = true := by
      rw [hexStart_iff]
      intro hnil
      rw [hnil, List.length_nil] at hrest
      exact hne (List.eq_nil_of_length_eq_zero (by rw [List.length_drop]; omega))
    have hlen := hexPrefix_length hxa
    rw [longestBody_hex ⟨hb, hxa, hstart⟩, List.length_append, List.length_take]
    omega

theorem StartsBody.digit (hb : base = 10 ∨ base = 16 ∨ base = 0) (h : StartsBody base a) :
    a.head?.any (isDigit charDigit (digitBase base)) = true := by
  cases a with
  | nil => cases h
  | cons c a =>
    rw [StartsBody, List.head?_cons, Option.any_some] at h
    rw [List.head?_cons, Option.any_some]
    rcases hb with rfl | rfl | rfl
    · rwa [if_neg (by decide), isdigit_eq] at h
    · rw [if_pos rfl, isxdigit_eq] at h
      exact lowerHex_digit c h
    · rwa [if_neg (by decide), isdigit_eq] at h

theorem longestBody_isBody (hb : base = 10 ∨ base = 16 ∨ base = 0) (h : StartsBody base a) :
    IsBody base (longestBody base a) := by
  by_cases hhex : base = 0 ∧ hexPrefix a = true ∧ hexStart (a.drop 2) = true
  · obtain ⟨hb, hx, hstart⟩ := hhex
    have htwo : (a.take 2).length = 2 := by
      rw [List.length_take, Nat.min_eq_left (hexPrefix_length hx)]
    have hdrop : (longestBody base a).drop 2 = (a.drop 2).takeWhile (isDigit charDigit 16) := by
      rw [longestBody_hex ⟨hb, hx, hstart⟩, List.drop_left' htwo]
    refine Or.inr ⟨hb, ?_, ?_, ?_⟩
    · rw [hexPrefix_iff, longestBody_hex ⟨hb, hx, hstart⟩, List.take_left' htwo]
      exact hexPrefix_iff.mp hx
    · rw [hdrop]
      exact hexStart_iff.mp hstart
    · rw [hdrop]
      exact fun c hc => List.mem_takeWhile_imp hc
  · rw [longestBody_digits hhex]
    refine Or.inl ⟨?_, fun c hc => List.mem_takeWhile_imp hc⟩
    cases a with
    | nil => cases h
    | cons c a =>
      have hc : isDigit charDigit (digitBase base) c = true := h.digit hb
      rw [List.takeWhile_cons_of_pos hc]
      exact List.cons_ne_nil _ _

theorem takeWhile_lowerHex_iff :
    a.takeWhile isLowerHex = a.takeWhile (isDigit charDigit 16) ↔ PlainHex a := by
  rw [plainHex_iff]
  refine ⟨fun h => ?_, takeWhile_eq_of_dropWhile⟩
  have hlow := List.takeWhile_append_dropWhile (p := isLowerHex) (l := a)
  have hhex := List.takeWhile_append_dropWhile (p := isDigit charDigit 16) (l := a)
  rw [h] at hlow
  exact List.append_cancel_left (hlow.trans hhex.symm)

theorem readBody_decimal (hb : base = 10 ∨ base = 0) (hx : ¬(base = 0 ∧ a.take 2 = [48, 120])) :
    readBody base a = a.takeWhile (isDigit charDigit (digitBase base)) := by
  rw [readBody, if_neg hx, isdigit_fun]
  rcases hb with rfl | rfl <;> rfl

theorem readBody_zero (h : a.take 2 = [48, 120]) :
    readBody 0 a = [48, 120] ++ (a.drop 2).takeWhile isLowerHex := by
  rw [readBody, if_pos ⟨rfl, h⟩, h, isxdigit_fun]

theorem readBody_eq_iff (hb : base = 10 ∨ base = 16 ∨ base = 0) :
    readBody base a = longestBody base a ↔ PlainBody base a := by
  rcases hb with rfl | rfl | rfl
  · have hno : ¬((10 : Nat) = 0 ∧ a.take 2 = [48, 120]) := by simp
    rw [readBody_decimal (Or.inl rfl) hno, longestBody_digits (by simp)]
    exact ⟨fun _ => trivial, fun _ => rfl⟩
  · have hread : readBody 16 a = a.takeWhile isLowerHex := by
      rw [readBody, if_neg (by simp), if_pos rfl, isxdigit_fun]
    rw [hread, longestBody_digits (by simp)]
    exact takeWhile_lowerHex_iff
  · have hplain : PlainBody 0 a ↔
        (a.take 2 = [48, 120] → hexStart (a.drop 2) = true ∧ PlainHex (a.drop 2)) ∧
          (a.take 2 = [48, 88] → hexStart (a.drop 2) = false) := by
      simp [PlainBody]
    rw [hplain]
    by_cases hx : a.take 2 = [48, 120]
    · have hprefix : hexPrefix a = true := hexPrefix_iff.mpr (Or.inl hx)
      have hX : a.take 2 ≠ [48, 88] := by
        rw [hx]
        decide
      rw [readBody_zero hx]
      cases hstart : hexStart (a.drop 2) with
      | true =>
        rw [longestBody_hex ⟨rfl, hprefix, hstart⟩, hx, List.append_cancel_left_eq,
          takeWhile_lowerHex_iff]
        simp
      | false =>
        rw [longestBody_digits (by simp [hstart]), digitBase, if_pos rfl, takeWhile_hexPrefix hprefix]
        simp [hx]
    · rw [readBody_decimal (Or.inr rfl) (by simp [hx])]
      by_cases hX : a.take 2 = [48, 88]
      · have hprefix : hexPrefix a = true := hexPrefix_iff.mpr (Or.inr hX)
        cases hstart : hexStart (a.drop 2) with
        | true =>
          rw [longestBody_hex ⟨rfl, hprefix, hstart⟩, digitBase, if_pos rfl,
            takeWhile_hexPrefix hprefix, hX]
          simp
        | false =>
          rw [longestBody_digits (by simp [hstart])]
          simp [hx]
      · have hnone : ¬hexPrefix a = true := by
          rw [hexPrefix_iff]
          exact not_or.mpr ⟨hx, hX⟩
        rw [longestBody_digits (fun h => hnone h.2.1)]
        simp [hx, hX]

theorem drop_takeWhile (p : UInt8 → Bool) (s : List UInt8) :
    s.drop (s.takeWhile p).length = s.dropWhile p := by
  have hsplit := List.takeWhile_append_dropWhile (p := p) (l := s)
  exact (congrArg (List.drop _) hsplit.symm).trans (List.drop_left' rfl)

theorem readDigits_takeWhile {p : UInt8 → Bool}
    (hp : ∀ c, p c = true → isDigit charDigit base c = true) (s : List UInt8) :
    (readDigits charDigit base (s.takeWhile p)).1 = value charDigit base (s.takeWhile p) := by
  have hall : (s.takeWhile p).takeWhile (isDigit charDigit base) = s.takeWhile p :=
    List.takeWhile_eq_self_iff.mpr fun c hc => hp c (List.mem_takeWhile_imp hc)
  rw [readDigits, hall]

theorem strtoul_readBody (hb : base = 10 ∨ base = 16 ∨ base = 0) (a : List UInt8) :
    strtoul a base =
      (u32 (readUnsigned base (readBody base a)).1, a.drop (readBody base a).length) := by
  have hlower (s : List UInt8) : strtoulHex 0 s =
      (u32 (readDigits charDigit 16 (s.takeWhile isLowerHex)).1,
        s.drop (s.takeWhile isLowerHex).length) := by
    rw [strtoulHex_read, readDigits_takeWhile lowerHex_digit, drop_takeWhile]
  have hdecimal (s : List UInt8) : strtoulDec 0 s =
      (u32 (readDigits charDigit 10 (s.takeWhile (isDigit charDigit 10))).1,
        s.drop (s.takeWhile (isDigit charDigit 10)).length) := by
    rw [strtoulDec_read, readDigits_takeWhile fun _ => id, drop_takeWhile]
    rfl
  rcases hb with rfl | rfl | rfl
  · rw [readBody_decimal (Or.inl rfl) (by simp)]
    exact hdecimal a
  · have hread : readBody 16 a = a.takeWhile isLowerHex := by
      rw [readBody, if_neg (by simp), if_pos rfl, isxdigit_fun]
    rw [hread]
    exact hlower a
  · rw [strtoul_zero]
    by_cases hx : a.take 2 = [48, 120]
    · have hread : readUnsigned 0 ([48, 120] ++ (a.drop 2).takeWhile isLowerHex) =
          readDigits charDigit 16 ((a.drop 2).takeWhile isLowerHex) := by
        rw [readUnsigned_zero]
        exact if_pos (Or.inl rfl)
      rw [if_pos hx, readBody_zero hx, hlower (a.drop 2), List.drop_drop, hread, List.length_append]
      rfl
    · have hread : readUnsigned 0 (a.takeWhile (isDigit charDigit 10)) =
          readDigits charDigit 10 (a.takeWhile (isDigit charDigit 10)) := by
        have hnone (x : UInt8) (hdigit : isDigit charDigit 10 x = false) :
            (a.takeWhile (isDigit charDigit 10)).take 2 ≠ [48, x] := by
          intro htake
          have hmem : x ∈ a.takeWhile (isDigit charDigit 10) :=
            List.mem_of_mem_take (htake ▸ List.mem_cons_of_mem 48 List.mem_cons_self)
          exact absurd (List.mem_takeWhile_imp hmem) (by simp [hdigit])
        rw [readUnsigned_zero, if_neg (not_or.mpr ⟨hnone 120 (by decide), hnone 88 (by decide)⟩)]
      rw [if_neg hx, readBody_decimal (Or.inr rfl) (by simp [hx]), hdecimal a]
      exact congrArg (fun r => (u32 r.1, _)) hread.symm

theorem readBody_ne_nil (h : StartsBody base a) : readBody base a ≠ [] := by
  unfold readBody
  split
  · rename_i hx
    rw [hx.2]
    exact List.cons_ne_nil _ _
  · cases a with
    | nil => cases h
    | cons c a =>
      have hc : (if base = 16 then isxdigit else isdigit) c = true := h
      rw [List.takeWhile_cons_of_pos hc]
      exact List.cons_ne_nil _ _

theorem body_head (h : IsBody base t) : t.head? ≠ some 45 := by
  have hminus (b : Nat) : isDigit charDigit b 45 = false := rfl
  intro hhead
  obtain ⟨a, rfl⟩ := List.head?_eq_some_iff.mp hhead
  rcases h with ⟨-, hdigits⟩ | ⟨-, hx, -⟩
  · exact absurd (hdigits 45 List.mem_cons_self) (by simp [hminus])
  · rcases hexPrefix_iff.mp hx with htake | htake
    · exact absurd (List.cons.inj htake).1 (by decide)
    · exact absurd (List.cons.inj htake).1 (by decide)

theorem readText_initial (base : Nat) (isSign : Bool) (a : List UInt8) :
    readText base isSign a <+: a := by
  unfold readText
  split
  · rename_i h
    obtain ⟨b, rfl⟩ := List.head?_eq_some_iff.mp h.2
    exact (List.prefix_cons_inj 45).mpr (readBody_initial base b)
  · exact readBody_initial base a

theorem longestText_initial (base : Nat) (isSign : Bool) (a : List UInt8) :
    longestText base isSign a <+: a := by
  unfold longestText
  split
  · rename_i h
    obtain ⟨b, rfl⟩ := List.head?_eq_some_iff.mp h.2
    exact (List.prefix_cons_inj 45).mpr (longestBody_initial base b)
  · exact longestBody_initial base a

theorem numeral_le_longest (ht : t <+: a) (h : IsNumeral base isSign t) :
    t.length ≤ (longestText base isSign a).length := by
  unfold longestText
  by_cases hminus : isSign = true ∧ a.head? = some 45
  · obtain ⟨b, rfl⟩ := List.head?_eq_some_iff.mp hminus.2
    rw [if_pos hminus]
    rcases h with hbody | ⟨-, t', rfl, hbody⟩
    · obtain ⟨rest, hrest⟩ := ht
      cases t with
      | nil => exact Nat.zero_le _
      | cons c t =>
        have hc : c = 45 := (List.cons.inj hrest).1
        exact absurd (congrArg some hc) (body_head hbody)
    · exact Nat.succ_le_succ (body_le_longest ((List.prefix_cons_inj 45).mp ht) hbody)
  · rw [if_neg hminus]
    rcases h with hbody | ⟨hsign, t', rfl, -⟩
    · exact body_le_longest ht hbody
    · obtain ⟨rest, rfl⟩ := ht
      exact absurd ⟨hsign, rfl⟩ hminus

theorem longestText_isNumeral (hb : base = 10 ∨ base = 16 ∨ base = 0) (h : Starts base isSign a) :
    IsNumeral base isSign (longestText base isSign a) := by
  unfold Starts at h
  unfold longestText
  split at h
  · rename_i hminus
    rw [if_pos hminus]
    exact Or.inr ⟨hminus.1, _, rfl, longestBody_isBody hb h⟩
  · rename_i hminus
    rw [if_neg hminus]
    exact Or.inl (longestBody_isBody hb h)

theorem readText_eq_iff (hb : base = 10 ∨ base = 16 ∨ base = 0) :
    readText base isSign a = longestText base isSign a ↔ PlainText base isSign a := by
  unfold readText longestText PlainText
  split
  · rw [List.cons_inj_right, readBody_eq_iff hb]
  · exact readBody_eq_iff hb

theorem longest_iff (hb : base = 10 ∨ base = 16 ∨ base = 0) (hs : Starts base isSign a) :
    Longest base isSign a (readText base isSign a) ↔ PlainText base isSign a := by
  have hread := readText_initial base isSign a
  have hlongest := longestText_initial base isSign a
  rw [← readText_eq_iff hb]
  constructor
  · intro h
    have hle := numeral_le_longest hread h.numeral
    have hge := h.longest _ hlongest (longestText_isNumeral hb hs)
    exact (List.prefix_of_prefix_length_le hread hlongest hle).eq_of_length (by omega)
  · intro h
    rw [h]
    exact ⟨hlongest, longestText_isNumeral hb hs, fun t' ht' hnum => numeral_le_longest ht' hnum⟩

theorem readText_take (h : (readText base isSign a).length ≤ n) :
    readText base isSign (a.take n) = readText base isSign a := by
  unfold readText at h ⊢
  by_cases hminus : isSign = true ∧ a.head? = some 45
  · obtain ⟨b, rfl⟩ := List.head?_eq_some_iff.mp hminus.2
    rw [if_pos hminus, List.length_cons] at h
    obtain ⟨n, rfl⟩ : ∃ k, n = k + 1 := ⟨n - 1, by omega⟩
    rw [if_pos hminus, List.take_succ_cons, if_pos ⟨hminus.1, rfl⟩]
    exact congrArg (List.cons 45) (readBody_take (Nat.le_of_succ_le_succ h))
  · have hminus' : ¬(isSign = true ∧ (a.take n).head? = some 45) := by
      rintro ⟨hsign, hhead⟩
      cases a with
      | nil => simp at hhead
      | cons c a =>
        cases n with
        | zero => simp at hhead
        | succ n => exact hminus ⟨hsign, hhead⟩
    rw [if_neg hminus] at h ⊢
    rw [if_neg hminus', readBody_take h]

theorem startsBody_take (h : StartsBody base a) (hn : n ≠ 0) : StartsBody base (a.take n) := by
  obtain ⟨n, rfl⟩ : ∃ k, n = k + 1 := ⟨n - 1, by omega⟩
  cases a with
  | nil => exact h
  | cons c a => exact h

theorem starts_take (h : Starts base isSign a) (hn : (readText base isSign a).length ≤ n) :
    Starts base isSign (a.take n) := by
  unfold Starts at h ⊢
  unfold readText at hn
  by_cases hminus : isSign = true ∧ a.head? = some 45
  · obtain ⟨b, rfl⟩ := List.head?_eq_some_iff.mp hminus.2
    rw [if_pos hminus] at h hn
    have hpos := List.length_pos_of_ne_nil (readBody_ne_nil h)
    rw [List.length_cons] at hn
    obtain ⟨n, rfl⟩ : ∃ k, n = k + 1 := ⟨n - 1, by omega⟩
    rw [List.take_succ_cons, if_pos ⟨hminus.1, rfl⟩]
    exact startsBody_take h (by omega)
  · rw [if_neg hminus] at h hn
    have hpos := List.length_pos_of_ne_nil (readBody_ne_nil h)
    have hstart := startsBody_take h (show n ≠ 0 by omega)
    have hminus' : ¬(isSign = true ∧ (a.take n).head? = some 45) := by
      rintro ⟨hsign, hhead⟩
      obtain ⟨n, rfl⟩ : ∃ k, n = k + 1 := ⟨n - 1, by omega⟩
      cases a with
      | nil => simp at hhead
      | cons c a => exact hminus ⟨hsign, hhead⟩
    rw [if_neg hminus']
    exact hstart

theorem longest_limited_iff {width : Option Nat} (hb : base = 10 ∨ base = 16 ∨ base = 0)
    (hs : Starts base isSign a) :
    Longest base isSign (limited width a) (readText base isSign a) ↔
      (∀ w ∈ width, (readText base isSign a).length ≤ w) ∧
        PlainText base isSign (limited width a) := by
  cases width with
  | none => simp [limited, longest_iff hb hs]
  | some w =>
    simp only [limited, Option.mem_def, Option.some.injEq, forall_eq']
    constructor
    · intro h
      have hle : (readText base isSign a).length ≤ w :=
        Nat.le_trans h.initial.length_le (List.length_take_le w a)
      rw [← readText_take hle] at h
      exact ⟨hle, (longest_iff hb (starts_take hs hle)).mp h⟩
    · rintro ⟨hle, hplain⟩
      rw [← readText_take hle]
      exact (longest_iff hb (starts_take hs hle)).mpr hplain

theorem startsBody_sign (h : StartsBody base a) : a.head? ≠ some 45 ∧ a.head? ≠ some 43 := by
  have hsign (c : UInt8) (hc : isdigit c = false ∧ isxdigit c = false) : a.head? ≠ some c := by
    intro hhead
    rw [StartsBody, hhead, Option.any_some] at h
    split at h
    · simp [hc.2] at h
    · simp [hc.1] at h
  exact ⟨hsign 45 (by decide), hsign 43 (by decide)⟩

theorem unsignedText {t : List UInt8} (h : t.head? ≠ some 45 ∧ t.head? ≠ some 43) :
    dropSign t = t ∧ signOf t = 1 :=
  ⟨if_neg (not_or.mpr h), if_neg h.1⟩

theorem head_of_initial (ht : t <+: a) (hne : t ≠ []) : t.head? = a.head? := by
  obtain ⟨rest, rfl⟩ := ht
  cases t with
  | nil => exact absurd rfl hne
  | cons c t => rfl

theorem numeralValue_body (h : StartsBody base a) :
    numeralValue base (readBody base a) = (readUnsigned base (readBody base a)).1 := by
  have hhead := head_of_initial (readBody_initial base a) (readBody_ne_nil h)
  have hsign := startsBody_sign h
  rw [← hhead] at hsign
  obtain ⟨hdrop, hone⟩ := unsignedText hsign
  rw [numeralValue, hdrop, hone, mul_one]

theorem strtoul_body (hb : base = 10 ∨ base = 16 ∨ base = 0) (h : StartsBody base a) :
    strtoul a base = (toU32 (numeralValue base (readBody base a)), a.drop (readBody base a).length) := by
  have hu32 (n : Nat) : toU32 (n : Int) = u32 n := by
    simp only [toU32, u32]
    omega
  rw [numeralValue_body h, hu32]
  exact strtoul_readBody hb a

theorem strtol_readText (hb : base = 10 ∨ base = 16 ∨ base = 0) (h : Starts base true a) :
    strtol a base = (toU32 (numeralValue base (readText base true a)),
      a.drop (readText base true a).length) := by
  unfold Starts at h
  unfold readText
  rw [strtol_eq hb]
  by_cases hminus : true = true ∧ a.head? = some 45
  · obtain ⟨b, rfl⟩ := List.head?_eq_some_iff.mp hminus.2
    rw [if_pos hminus] at h ⊢
    have hdrop (s : List UInt8) : dropSign (45 :: s) = s := rfl
    have hsign (s : List UInt8) : signOf (45 :: s) = -1 := rfl
    rw [numeralValue, hdrop, hdrop, hsign, hsign, strtoul_readBody hb, toU32_mul_u32]
    rfl
  · rw [if_neg hminus] at h ⊢
    obtain ⟨hdrop, hone⟩ := unsignedText (startsBody_sign h)
    have hidem (n : Int) : toU32 ((toU32 n : Nat) * 1) = toU32 n := by
      simp only [toU32]
      omega
    rw [hdrop, hone, strtoul_body hb h, hidem]

theorem strtoul_readText (hb : base = 10 ∨ base = 16 ∨ base = 0) (h : Starts base isSign a)
    (hminus : ¬(isSign = true ∧ a.head? = some 45)) :
    strtoul a base = (toU32 (numeralValue base (readText base isSign a)),
      a.drop (readText base isSign a).length) := by
  rw [Starts, if_neg hminus] at h
  rw [readText, if_neg hminus]
  exact strtoul_body hb h

end NonOsLite.Scanf
