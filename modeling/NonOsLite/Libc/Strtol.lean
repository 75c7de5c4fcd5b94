import NonOsLite.Lib.Positional
import NonOsLite.Libc.Strtoul

namespace NonOsLite
open Positional

-- Behind the sign strtol runs the loops of strtoul, on long.
def strtol (a : List UInt8) (base : Nat) : Nat × List UInt8 :=
  if base ≠ 0 ∧ base ≠ 10 ∧ base ≠ 16 then (0, a)
  else
    let (s, a) : Int × List UInt8 :=
      match a with
      | 45 :: a => (-1, a)
      | 43 :: a => (1, a)
      | a => (1, a)
    let (n, a) := strtoul a base
    (toU32 (n * s), a)

def charDigit (c : UInt8) : Option Nat :=
  if 48 ≤ c ∧ c ≤ 57 then some (c.toNat - 48)
  else if 65 ≤ c ∧ c ≤ 70 then some (c.toNat - 55)
  else if 97 ≤ c ∧ c ≤ 102 then some (c.toNat - 87)
  else none

def isUpperHex (c : UInt8) : Bool := 65 ≤ c && c ≤ 70

def isLowerHex (c : UInt8) : Bool := isDigit charDigit 16 c && !isUpperHex c

def hexPrefix (s : List UInt8) : Bool := s.take 2 == [48, 120] || s.take 2 == [48, 88]

def readUnsigned (base : Nat) (s : List UInt8) : Nat × List UInt8 :=
  if base = 0 then
    if hexPrefix s then readDigits charDigit 16 (s.drop 2) else readDigits charDigit 10 s
  else readDigits charDigit base s

def signOf (s : List UInt8) : Int := if s.head? = some 45 then -1 else 1

def dropSign (s : List UInt8) : List UInt8 :=
  if s.head? = some 45 ∨ s.head? = some 43 then s.drop 1 else s

def ReadsUnsigned (base : Nat) (s : List UInt8) : Prop :=
  strtoul s base = (u32 (readUnsigned base s).1, (readUnsigned base s).2)

def ReadsSigned (base : Nat) (s : List UInt8) : Prop :=
  strtol s base = (toU32 ((readUnsigned base (dropSign s)).1 * signOf s),
    (readUnsigned base (dropSign s)).2)

def PlainHex (s : List UInt8) : Prop := ∀ c ∈ (s.dropWhile isLowerHex).head?, isUpperHex c = false

def Plain (base : Nat) (s : List UInt8) : Prop :=
  if base = 16 then PlainHex s
  else if base = 0 then s.take 2 ≠ [48, 88] ∧ (s.take 2 = [48, 120] → PlainHex (s.drop 2))
  else True

instance : DecidablePred PlainHex := fun s =>
  inferInstanceAs (Decidable (∀ c ∈ (s.dropWhile isLowerHex).head?, isUpperHex c = false))

instance (base : Nat) (s : List UInt8) : Decidable (Plain base s) :=
  inferInstanceAs (Decidable (if base = 16 then PlainHex s
    else if base = 0 then s.take 2 ≠ [48, 88] ∧ (s.take 2 = [48, 120] → PlainHex (s.drop 2))
    else True))

variable {base : Nat} {s : List UInt8}

theorem byte_tests (c : UInt8) :
    (isdigit c = isDigit charDigit 10 c ∧ isxdigit c = isLowerHex c) ∧
    (isxdigit c = true → toU32 (if isdigit c then (c.toNat : Int) - 48 else tolower c - 97 + 10) =
      (charDigit c).getD 0) ∧
    (isdigit c = true → c.toNat - 48 = (charDigit c).getD 0) ∧
    (isLowerHex c = false → (isDigit charDigit 16 c = false ↔ isUpperHex c = false)) ∧
    (tolower c = 120 ↔ c = 120) := by
  revert c
  exact forall_byte (by decide +kernel)

theorem isdigit_eq (c : UInt8) : isdigit c = isDigit charDigit 10 c := (byte_tests c).1.1

theorem isxdigit_eq (c : UInt8) : isxdigit c = isLowerHex c := (byte_tests c).1.2

theorem isdigit_fun : isdigit = isDigit charDigit 10 := funext isdigit_eq

theorem isxdigit_fun : isxdigit = isLowerHex := funext isxdigit_eq

theorem xdigit_value (c : UInt8) : isxdigit c = true →
    toU32 (if isdigit c then (c.toNat : Int) - 48 else tolower c - 97 + 10) =
      (charDigit c).getD 0 := (byte_tests c).2.1

theorem digit_value (c : UInt8) : isdigit c = true → c.toNat - 48 = (charDigit c).getD 0 :=
  (byte_tests c).2.2.1

theorem strtoulHex_eq (n : Nat) (a : List UInt8) :
    strtoulHex (u32 n) a =
      (u32 ((a.takeWhile isxdigit).foldl (fun n c => n * 16 + (charDigit c).getD 0) n),
        a.dropWhile isxdigit) := by
  induction a generalizing n with
  | nil => rfl
  | cons c a ih =>
    by_cases h : isxdigit c = true
    · have hn : u32 (u32 (u32 n * 16) + (charDigit c).getD 0) =
          u32 (n * 16 + (charDigit c).getD 0) := by
        simp only [u32]
        omega
      rw [strtoulHex, if_pos h]
      simp only [xdigit_value c h]
      rw [hn, ih, List.takeWhile_cons_of_pos h, List.dropWhile_cons_of_pos h,
        List.foldl_cons]
    · rw [strtoulHex, if_neg h, List.takeWhile_cons_of_neg h, List.dropWhile_cons_of_neg h, List.foldl_nil]

theorem foldl_digitValue (h : ∀ c ∈ s, isdigit c = true) :
    s.foldl digitValue 0 = value charDigit 10 s := by
  refine List.foldl_ext _ _ 0 ?_
  intro n c hc
  rw [digitValue, digit_value c (h c hc)]

theorem strtoulDec_read (s : List UInt8) :
    strtoulDec 0 s = (u32 (readDigits charDigit 10 s).1, (readDigits charDigit 10 s).2) := by
  have hread := strtoulDec_eq 0 s
  rw [u32_zero, foldl_digitValue (fun c => List.mem_takeWhile_imp), isdigit_fun] at hread
  exact hread

theorem strtoulHex_read (s : List UInt8) :
    strtoulHex 0 s = (u32 (value charDigit 16 (s.takeWhile isLowerHex)), s.dropWhile isLowerHex) := by
  have hread := strtoulHex_eq 0 s
  rw [u32_zero, isxdigit_fun] at hread
  exact hread

theorem lowerHex_digit (c : UInt8) (h : isLowerHex c = true) : isDigit charDigit 16 c = true :=
  (Bool.and_eq_true_iff.mp h).1

theorem upperHex_iff (c : UInt8) (h : isLowerHex c = false) :
    isDigit charDigit 16 c = false ↔ isUpperHex c = false := (byte_tests c).2.2.2.1 h

theorem plainHex_iff : PlainHex s ↔ s.dropWhile isLowerHex = s.dropWhile (isDigit charDigit 16) := by
  rw [dropWhile_eq_iff lowerHex_digit]
  exact forall₂_congr fun c hc => (upperHex_iff c (head_dropWhile hc)).symm

theorem strtoulHex_iff :
    strtoulHex 0 s = (u32 (readDigits charDigit 16 s).1, (readDigits charDigit 16 s).2) ↔
      PlainHex s := by
  rw [strtoulHex_read, plainHex_iff, Prod.mk.injEq]
  constructor
  · exact fun h => h.2
  · intro h
    refine ⟨?_, h⟩
    rw [takeWhile_eq_of_dropWhile h]
    rfl

theorem strtoulDec_zero (a : List UInt8) : strtoulDec 0 (48 :: a) = strtoulDec 0 a := rfl

theorem tolower_x (c : UInt8) : tolower c = 120 ↔ c = 120 := (byte_tests c).2.2.2.2

theorem strtoul_zero (s : List UInt8) :
    strtoul s 0 = if s.take 2 = [48, 120] then strtoulHex 0 (s.drop 2) else strtoulDec 0 s := by
  rcases s with _ | ⟨c, _ | ⟨d, a⟩⟩
  · rfl
  · by_cases hc : c = 48
    · subst hc
      rfl
    · simp [strtoul, hc]
  · by_cases hc : c = 48
    · subst hc
      by_cases hd : d = 120
      · subst hd
        rfl
      · have hx : tolower d ≠ 120 := fun h => hd ((tolower_x d).mp h)
        simp [strtoul, hx, hd, strtoulDec_zero]
    · simp [strtoul, hc]

-- What follows 0X is nearer to the end than the X at which decimal reading stops.
theorem upperPrefix_rest {a : List UInt8} :
    (strtoulDec 0 (48 :: 88 :: a)).2 ≠ (readDigits charDigit 16 a).2 := by
  intro h
  have hlen := (List.dropWhile_sublist (isDigit charDigit 16) (l := a)).length_le
  have hstop : (strtoulDec 0 (48 :: 88 :: a)).2 = 88 :: a := rfl
  rw [hstop] at h
  have heq := congrArg List.length h
  simp only [List.length_cons, readDigits] at heq
  omega

theorem readUnsigned_zero (s : List UInt8) :
    readUnsigned 0 s =
      if s.take 2 = [48, 120] ∨ s.take 2 = [48, 88] then readDigits charDigit 16 (s.drop 2)
      else readDigits charDigit 10 s := by
  simp [readUnsigned, hexPrefix]

theorem readsUnsigned_of_plain (hb : base = 10 ∨ base = 16 ∨ base = 0) (h : Plain base s) :
    ReadsUnsigned base s := by
  rw [ReadsUnsigned]
  rcases hb with rfl | rfl | rfl
  · exact strtoulDec_read s
  · exact strtoulHex_iff.mpr h
  · obtain ⟨hupper, hlower⟩ : s.take 2 ≠ [48, 88] ∧ (s.take 2 = [48, 120] → PlainHex (s.drop 2)) := h
    rw [strtoul_zero, readUnsigned_zero]
    by_cases hx : s.take 2 = [48, 120]
    · rw [if_pos hx, if_pos (Or.inl hx)]
      exact strtoulHex_iff.mpr (hlower hx)
    · rw [if_neg hx, if_neg (not_or.mpr ⟨hx, hupper⟩)]
      exact strtoulDec_read s

theorem plain_of_rest (hb : base = 10 ∨ base = 16 ∨ base = 0)
    (h : (strtoul s base).2 = (readUnsigned base s).2) : Plain base s := by
  have hhex (t : List UInt8) (ht : (strtoulHex 0 t).2 = (readDigits charDigit 16 t).2) :
      PlainHex t := by
    rw [strtoulHex_read] at ht
    exact plainHex_iff.mpr ht
  rcases hb with rfl | rfl | rfl
  · trivial
  · exact hhex s h
  · rw [strtoul_zero, readUnsigned_zero] at h
    refine ⟨?_, ?_⟩
    · intro hX
      have hx : s.take 2 ≠ [48, 120] := by
        rw [hX]
        decide
      rw [if_neg hx, if_pos (Or.inr hX)] at h
      have hs : s = 48 :: 88 :: s.drop 2 := by
        rw [← List.take_append_drop 2 s, hX]
        rfl
      rw [hs] at h
      exact upperPrefix_rest h
    · intro hx
      rw [if_pos hx, if_pos (Or.inl hx)] at h
      exact hhex _ h

theorem readsUnsigned_iff (hb : base = 10 ∨ base = 16 ∨ base = 0) :
    ReadsUnsigned base s ↔ Plain base s := by
  refine ⟨fun h => plain_of_rest hb ?_, readsUnsigned_of_plain hb⟩
  rw [ReadsUnsigned] at h
  rw [h]

theorem strtol_eq (hb : base = 10 ∨ base = 16 ∨ base = 0) (s : List UInt8) :
    strtol s base = (toU32 ((strtoul (dropSign s) base).1 * signOf s),
      (strtoul (dropSign s) base).2) := by
  have hbase : ¬(base ≠ 0 ∧ base ≠ 10 ∧ base ≠ 16) := by omega
  cases s with
  | nil => simp [strtol, hbase, signOf, dropSign]
  | cons c a =>
    by_cases hminus : c = 45
    · subst hminus
      simp [strtol, hbase, signOf, dropSign]
    · by_cases hplus : c = 43
      · subst hplus
        simp [strtol, hbase, signOf, dropSign]
      · simp [strtol, hbase, signOf, dropSign, hminus, hplus]

theorem toU32_mul_u32 (n : Nat) (k : Int) : toU32 ((u32 n : Int) * k) = toU32 (n * k) := by
  simp only [toU32, u32]
  rw [Int.natCast_emod, Int.mul_emod]
  push_cast
  rw [Int.emod_emod_of_dvd _ (dvd_refl _), ← Int.mul_emod]

theorem readsSigned_iff (hb : base = 10 ∨ base = 16 ∨ base = 0) :
    ReadsSigned base s ↔ Plain base (dropSign s) := by
  rw [ReadsSigned, strtol_eq hb]
  constructor
  · exact fun h => plain_of_rest hb (Prod.mk.inj h).2
  · intro h
    have hread := readsUnsigned_of_plain hb h
    rw [ReadsUnsigned] at hread
    rw [hread, toU32_mul_u32]

theorem plain_of_sign {c : UInt8} {a : List UInt8} (hc : c = 45 ∨ c = 43) : Plain base (c :: a) := by
  have hhex : PlainHex (c :: a) := by
    have hstop : isLowerHex c = false := by rcases hc with rfl | rfl <;> decide
    rw [PlainHex, List.dropWhile_cons_of_neg (by simp [hstop])]
    intro d hd
    rw [List.head?_cons, Option.mem_some_iff] at hd
    rcases hc with rfl | rfl <;> (rw [← hd]; decide)
  have hzero (d : UInt8) : (c :: a).take 2 ≠ [48, d] := by
    intro h
    have hc48 : c = 48 := (List.cons.inj h).1
    rcases hc with rfl | rfl <;> exact absurd hc48 (by decide)
  unfold Plain
  split_ifs
  · exact hhex
  · exact ⟨hzero 88, fun h => absurd h (hzero 120)⟩

theorem plain_of_dropSign (h : Plain base (dropSign s)) : Plain base s := by
  by_cases hsign : s.head? = some 45 ∨ s.head? = some 43
  · rcases hsign with h45 | h43
    · obtain ⟨a, rfl⟩ := List.head?_eq_some_iff.mp h45
      exact plain_of_sign (Or.inl rfl)
    · obtain ⟨a, rfl⟩ := List.head?_eq_some_iff.mp h43
      exact plain_of_sign (Or.inr rfl)
  · rwa [dropSign, if_neg hsign] at h

def lowerCase (c : UInt8) : UInt8 := if 65 ≤ c ∧ c ≤ 90 then c + 32 else c

theorem lowerCase_tests (c : UInt8) :
    charDigit (lowerCase c) = charDigit c ∧
    ((lowerCase c = 45 ↔ c = 45) ∧ (lowerCase c = 43 ↔ c = 43)) ∧
    (lowerCase c = 48 ↔ c = 48) ∧ (lowerCase c = 120 ∨ lowerCase c = 88 ↔ c = 120 ∨ c = 88) := by
  revert c
  exact forall_byte (by decide +kernel)

theorem charDigit_lowerCase (c : UInt8) : charDigit (lowerCase c) = charDigit c :=
  (lowerCase_tests c).1

theorem lowerCase_sign (c : UInt8) : (lowerCase c = 45 ↔ c = 45) ∧ (lowerCase c = 43 ↔ c = 43) :=
  (lowerCase_tests c).2.1

theorem lowerCase_zero_x (c : UInt8) :
    (lowerCase c = 48 ↔ c = 48) ∧ (lowerCase c = 120 ∨ lowerCase c = 88 ↔ c = 120 ∨ c = 88) :=
  (lowerCase_tests c).2.2

theorem hexPrefix_lowerCase (s : List UInt8) : hexPrefix (s.map lowerCase) = hexPrefix s := by
  rcases s with _ | ⟨c, _ | ⟨d, a⟩⟩
  · rfl
  · simp [hexPrefix]
  · have hc := (lowerCase_zero_x c).1
    have hd := (lowerCase_zero_x d).2
    rw [Bool.eq_iff_iff]
    simp only [hexPrefix, List.map_cons, List.take_succ_cons, List.take_zero, Bool.or_eq_true,
      beq_iff_eq, List.cons.injEq, and_true, hc, ← and_or_left, hd]

theorem readUnsigned_lowerCase (base : Nat) (s : List UInt8) :
    readUnsigned base (s.map lowerCase) =
      ((readUnsigned base s).1, (readUnsigned base s).2.map lowerCase) := by
  simp only [readUnsigned, hexPrefix_lowerCase, ← List.map_drop,
    readDigits_map charDigit_lowerCase]
  split_ifs <;> rfl

theorem signOf_lowerCase (s : List UInt8) : signOf (s.map lowerCase) = signOf s := by
  cases s with
  | nil => rfl
  | cons c a => simp [signOf, (lowerCase_sign c).1]

theorem dropSign_lowerCase (s : List UInt8) :
    dropSign (s.map lowerCase) = (dropSign s).map lowerCase := by
  cases s with
  | nil => rfl
  | cons c a =>
    simp only [dropSign, List.map_cons, List.head?_cons, Option.some.injEq, (lowerCase_sign c).1,
      (lowerCase_sign c).2, List.drop_one, List.tail_cons]
    split_ifs <;> rfl

def SpellingsAgree (base : Nat) (s s' : List UInt8) : Prop :=
  (ReadsUnsigned base s ∧ ReadsSigned base s) ∧ (ReadsUnsigned base s' ∧ ReadsSigned base s') ∧
    (strtoul s base).1 = (strtoul s' base).1 ∧ (strtol s base).1 = (strtol s' base).1

theorem strtol_spellings {s' : List UInt8} (hb : base = 10 ∨ base = 16 ∨ base = 0)
    (hcase : s.map lowerCase = s'.map lowerCase) :
    SpellingsAgree base s s' ↔ Plain base (dropSign s) ∧ Plain base (dropSign s') := by
  constructor
  · rintro ⟨⟨-, hs⟩, ⟨-, hs'⟩, -⟩
    exact ⟨(readsSigned_iff hb).mp hs, (readsSigned_iff hb).mp hs'⟩
  · rintro ⟨hs, hs'⟩
    have hu := (readsUnsigned_iff hb).mpr (plain_of_dropSign hs)
    have hu' := (readsUnsigned_iff hb).mpr (plain_of_dropSign hs')
    have hsigned := (readsSigned_iff hb).mpr hs
    have hsigned' := (readsSigned_iff hb).mpr hs'
    have hvalue (t t' : List UInt8) (h : t.map lowerCase = t'.map lowerCase) :
        (readUnsigned base t).1 = (readUnsigned base t').1 := by
      have ht := congrArg Prod.fst (readUnsigned_lowerCase base t)
      rw [h, readUnsigned_lowerCase] at ht
      exact ht.symm
    have hsign : signOf s = signOf s' := by
      rw [← signOf_lowerCase s, hcase, signOf_lowerCase]
    have hdrop : (dropSign s).map lowerCase = (dropSign s').map lowerCase := by
      rw [← dropSign_lowerCase, hcase, dropSign_lowerCase]
    refine ⟨⟨hu, hsigned⟩, ⟨hu', hsigned'⟩, ?_, ?_⟩
    · rw [ReadsUnsigned] at hu hu'
      rw [hu, hu', hvalue s s' hcase]
    · rw [ReadsSigned] at hsigned hsigned'
      rw [hsigned, hsigned', hvalue _ _ hdrop, hsign]

theorem strtol_spellings_dead : SpellingsAgree 0 (ascii "-0xdead,FF") (ascii "-0xdead,ff") :=
  (strtol_spellings (by decide) (by decide +kernel)).mpr ⟨by decide +kernel, by decide +kernel⟩

theorem strtoul_upper_hex : ¬∀ (s s' : List UInt8) (base : Nat),
    base = 10 ∨ base = 16 ∨ base = 0 → s.map lowerCase = s'.map lowerCase →
    SpellingsAgree base s s' := by
  intro h
  obtain ⟨-, ⟨hupper, -⟩, -⟩ := h (ascii "ff") (ascii "FF") 16 (by decide) (by decide +kernel)
  rw [ReadsUnsigned] at hupper
  exact absurd hupper (by decide +kernel)

end NonOsLite
