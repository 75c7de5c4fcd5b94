import NonOsLite.Libc.Strtol
import NonOsLite.Stdio.FormatText

namespace NonOsLite.Stdio
open Positional

structure Layout where
  left : Nat
  sign : List UInt8
  pfx : List UInt8
  zeros : Nat
  digits : List UInt8
  right : Nat

def Layout.text (l : Layout) : List UInt8 :=
  List.replicate l.left 32 ++ l.sign ++ l.pfx ++ List.replicate l.zeros 48 ++ l.digits ++
    List.replicate l.right 32

def toInt64 (num : Nat) : Int :=
  if num < 9223372036854775808 then num else (num : Int) - 18446744073709551616

structure Spells (base : Nat) (small : Bool) (n : Nat) (ds : List UInt8) : Prop where
  digits : ∀ c ∈ ds, isDigit charDigit base c = true
  letters : ∀ c ∈ ds, 58 ≤ c → (97 ≤ c ↔ small = true)
  value : value charDigit base ds = n
  nonempty : ds ≠ []
  shortest : ds.head? = some 48 → ds = [48]

structure Layout.Shows (l : Layout) (num base : Nat) (width precision : Int) (flags : Flags) :
    Prop where
  sign : l.sign =
    if flags.sign = false then []
    else if toInt64 num < 0 then [45]
    else if flags.plus then [43]
    else if flags.space then [32]
    else []
  pfx : l.pfx =
    if flags.special = false ∨ base = 10 then []
    else if base = 8 then ascii "0"
    else if flags.small then ascii "0x"
    else ascii "0X"
  digits : Spells base flags.small (if flags.sign then (toInt64 num).natAbs else num) l.digits
  length : (l.text.length : Int) =
    max width (l.sign.length + l.pfx.length + max precision l.digits.length)
  leftPad : 0 < l.left → flags.left = false ∧ flags.zeropad = false
  rightPad : 0 < l.right → flags.left = true
  zeros : (precision - l.digits.length).toNat ≤ l.zeros
  zeroPad : (precision - l.digits.length).toNat < l.zeros →
    flags.zeropad = true ∧ flags.left = false

variable {base n num : Nat} {flags : Flags} {d : Nat}

theorem baseDigit_spec (flags : Flags) (hd : d < 16) :
    charDigit (baseDigit (locase flags) d) = some d ∧
      (58 ≤ baseDigit (locase flags) d → (97 ≤ baseDigit (locase flags) d ↔ flags.small = true)) ∧
      (baseDigit (locase flags) d = 48 ↔ d = 0) := by
  rw [locase]
  cases flags.small <;> (interval_cases d <;> decide)

theorem digitsText_spells (flags : Flags) (hbase : 1 < base) (hle : base ≤ 16) (n : Nat) :
    Spells base flags.small n (digitsText flags base n) := by
  have hlt {d : Nat} (hd : d ∈ Nat.digits base n) : d < base := Nat.digits_lt_base hbase hd
  unfold digitsText
  split_ifs with h0
  · subst h0
    refine ⟨?_, ?_, by simp [value, charDigit], List.cons_ne_nil _ _, fun _ => rfl⟩
    · intro c hc
      rw [List.mem_singleton.mp hc]
      rw [isDigit, show charDigit 48 = some 0 from rfl, Option.any_some]
      exact decide_eq_true (by omega)
    · intro c hc h58
      rw [List.mem_singleton.mp hc] at h58
      exact absurd h58 (by decide)
  · have hspec {d : Nat} (hd : d ∈ Nat.digits base n) := baseDigit_spec flags
      (show d < 16 by have := hlt hd; omega)
    have hmem {c : UInt8} (hc : c ∈ ((Nat.digits base n).map (baseDigit (locase flags))).reverse) :
        ∃ d ∈ Nat.digits base n, baseDigit (locase flags) d = c := by
      rwa [List.mem_reverse, List.mem_map] at hc
    refine ⟨?_, ?_, ?_, ?_, ?_⟩
    · intro c hc
      obtain ⟨d, hd, rfl⟩ := hmem hc
      rw [isDigit, (hspec hd).1]
      simpa using hlt hd
    · intro c hc
      obtain ⟨d, hd, rfl⟩ := hmem hc
      exact (hspec hd).2.1
    · rw [value_map_reverse (fun d hd => (hspec hd).1), Nat.ofDigits_digits]
    · rw [ne_eq, List.reverse_eq_nil_iff, List.map_eq_nil_iff, Nat.digits_eq_nil_iff_eq_zero]
      exact h0
    · intro hhead
      have hne : Nat.digits base n ≠ [] := Nat.digits_ne_nil_iff_ne_zero.mpr h0
      rw [List.head?_reverse, List.getLast?_map, List.getLast?_eq_getLast_of_ne_nil hne,
        Option.map_some, Option.some.injEq, (hspec (List.getLast_mem hne)).2.2] at hhead
      exact absurd hhead (Nat.getLast_digit_ne_zero base h0)

def numberLayout (num base : Nat) (width precision : Int) (flags : Flags) : Layout :=
  let sign := signText flags num
  let pfx := prefixText flags base
  let ds := digitsText flags base (magnitude flags num)
  let zeros := (precision - ds.length).toNat
  let room := (width - sign.length - pfx.length - (zeros + ds.length : Nat)).toNat
  if flags.left then ⟨0, sign, pfx, zeros, ds, room⟩
  else if flags.zeropad then ⟨0, sign, pfx, room + zeros, ds, 0⟩
  else ⟨room, sign, pfx, zeros, ds, 0⟩

theorem numberLayout_text (num base : Nat) (width precision : Int) (flags : Flags) :
    (numberLayout num base width precision flags).text =
      numberText num base width precision flags := by
  simp only [numberLayout, numberText, List.length_append, List.length_replicate]
  cases flags.left with
  | true => cases flags.zeropad <;> simp [Layout.text]
  | false =>
    cases flags.zeropad with
    | true =>
      simp only [Layout.text, Bool.false_eq_true, if_false, if_true, List.replicate_add,
        List.replicate_zero, List.nil_append, List.append_nil, List.append_assoc]
    | false => simp [Layout.text]

theorem signText_spec (flags : Flags) (hn : num < 2 ^ 64) :
    signText flags num =
      if flags.sign = false then []
      else if toInt64 num < 0 then [45]
      else if flags.plus then [43]
      else if flags.space then [32]
      else [] := by
  have hneg : toInt64 num < 0 ↔ 9223372036854775808 ≤ num := by
    simp only [toInt64]
    split_ifs <;> omega
  simp only [signText, hneg]
  cases flags.sign <;> simp

theorem magnitude_spec (flags : Flags) (hn : num < 2 ^ 64) :
    magnitude flags num = if flags.sign then (toInt64 num).natAbs else num := by
  unfold magnitude toInt64
  rcases Nat.lt_or_ge num 9223372036854775808 with hlt | hge
  · rw [if_neg (fun h => Nat.not_le.mpr hlt h.2), if_pos hlt, Int.natAbs_natCast]
    simp
  · have hneg : (num : Int) - 18446744073709551616 = -((18446744073709551616 - num : Nat) : Int) := by
      omega
    rw [if_neg (Nat.not_lt.mpr hge), hneg, Int.natAbs_neg, Int.natAbs_natCast]
    simp [hge]

theorem prefixText_spec (flags : Flags) (hb : base = 8 ∨ base = 10 ∨ base = 16) :
    prefixText flags base =
      if flags.special = false ∨ base = 10 then []
      else if base = 8 then ascii "0"
      else if flags.small then ascii "0x"
      else ascii "0X" := by
  simp only [prefixText, locase]
  rcases hb with rfl | rfl | rfl <;> cases flags.special <;> cases flags.small <;> decide

theorem Layout.text_length (l : Layout) : l.text.length =
    l.left + l.sign.length + l.pfx.length + l.zeros + l.digits.length + l.right := by
  simp only [Layout.text, List.length_append, List.length_replicate]

theorem numberLayout_shows (width precision : Int) (flags : Flags)
    (hb : base = 8 ∨ base = 10 ∨ base = 16) (hn : num < 2 ^ 64) :
    (numberLayout num base width precision flags).Shows num base width precision flags := by
  have hsign := signText_spec flags hn
  have hpfx := prefixText_spec flags hb
  have hbase : 1 < base := by omega
  have hle : base ≤ 16 := by omega
  have hdigits := digitsText_spells flags hbase hle (magnitude flags num)
  rw [magnitude_spec flags hn] at hdigits
  have hlen := Layout.text_length (numberLayout num base width precision flags)
  simp only [numberLayout, magnitude_spec flags hn] at hlen ⊢
  generalize signText flags num = sign at hsign hlen ⊢
  generalize prefixText flags base = pfx at hpfx hlen ⊢
  generalize digitsText flags base _ = ds at hdigits hlen ⊢
  cases hl : flags.left with
  | true =>
    simp only [hl, if_true] at hlen ⊢
    refine ⟨hsign, hpfx, hdigits, ?_, fun h => absurd h (Nat.lt_irrefl 0), fun _ => hl, Nat.le_refl _,
      fun h => absurd h (Nat.lt_irrefl _)⟩
    rw [hlen]
    push_cast
    omega
  | false =>
    cases hz : flags.zeropad with
    | true =>
      simp only [hl, hz, if_true, Bool.false_eq_true, if_false] at hlen ⊢
      refine ⟨hsign, hpfx, hdigits, ?_, fun h => absurd h (Nat.lt_irrefl 0),
        fun h => absurd h (Nat.lt_irrefl 0), Nat.le_add_left _ _, fun _ => ⟨hz, hl⟩⟩
      rw [hlen]
      push_cast
      omega
    | false =>
      simp only [hl, hz, Bool.false_eq_true, if_false] at hlen ⊢
      refine ⟨hsign, hpfx, hdigits, ?_, fun _ => ⟨hl, hz⟩, fun h => absurd h (Nat.lt_irrefl 0),
        Nat.le_refl _, fun h => absurd h (Nat.lt_irrefl _)⟩
      rw [hlen]
      push_cast
      omega

theorem number_layout (o : Out) (width precision : Int) (flags : Flags)
    (hb : base = 8 ∨ base = 10 ∨ base = 16) (hn : num < 2 ^ 64) :
    ∃ l : Layout, number o num base width precision flags = l.text.foldl addch o ∧
      l.Shows num base width precision flags := by
  refine ⟨numberLayout num base width precision flags, ?_, numberLayout_shows _ _ _ hb hn⟩
  rw [number_eq o width precision flags hb hn, numberLayout_text]
  rfl

theorem number_layout_least :
    ∃ l : Layout,
      number { buf := 4096, str := 4096, limit := 4120 } 9223372036854775808 10 24 (-1)
          { sign := true } =
        l.text.foldl addch { buf := 4096, str := 4096, limit := 4120 } ∧
      l.Shows 9223372036854775808 10 24 (-1) { sign := true } :=
  number_layout _ 24 (-1) { sign := true } (by decide) (by decide)

end NonOsLite.Stdio
