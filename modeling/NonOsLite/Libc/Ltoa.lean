import NonOsLite.Stdio.NumberLayout

namespace NonOsLite
open ByteBuf Positional Stdio

def hex : List UInt8 := ascii "0123456789ABCDEF"

-- The digit loop, as the bytes it stores to tmp in turn; none when the fuel runs out.
def ltoaDigits (base : Int) : Nat → Int → Option (List UInt8)
  | 0, _ => none
  | fuel + 1, value =>
      if 0 < value then
        let ret := toU32 (value.tmod base)
        (ltoaDigits base fuel (value.tdiv base)).map (hex.getD ret 0 :: ·)
      else some []

def ltoaCopy (b : Buf) (nptr : Nat) (tmp : List UInt8) (off : Nat) : Buf :=
  let len := tmp.length
  let b := (List.range len).foldl
    (fun b i => store b (nptr + (i + off)) [tmp.getD (len - 1 - i) 0]) b
  store b (nptr + (len + off)) [0]

structure LtoaResult where
  nptr : Nat
  tmp : List UInt8
  mem : Buf

-- buf is where the function's own buffer is; tmp is all that is stored to the scratch array.
def ltoa (fuel : Nat) (buf : Nat) (mem : Buf) (value : Int) (nptr : Option Nat) (base : Int) :
    Option LtoaResult :=
  let nptr := nptr.getD buf
  if value = 0 then some ⟨nptr, [48] ++ [0], ltoaCopy mem nptr [48] 0⟩
  else if value < 0 then
    let mem := store mem nptr [45]
    let value := toInt32 (toU32 (-1 * value))
    (ltoaDigits base fuel value).map fun tmp => ⟨nptr, tmp ++ [0], ltoaCopy mem nptr tmp 1⟩
  else
    (ltoaDigits base fuel value).map fun tmp => ⟨nptr, tmp ++ [0], ltoaCopy mem nptr tmp 0⟩

def atol (nptr : List UInt8) : Int := toInt32 (strtol nptr 10).1

def Canonical (value : Int) (base : Nat) (text : List UInt8) : Prop :=
  ∃ ds, text = (if value < 0 then [45] else []) ++ ds ∧ Spells base false value.natAbs ds

structure LtoaRight (r : LtoaResult) (value : Int) (base : Nat) : Prop where
  tmp : r.tmp.length ≤ 12
  text : ∃ text, Canonical value base text ∧ StartsWith (shift r.mem r.nptr) (text ++ [0])
  back : base = 10 → atol (cString (shift r.mem r.nptr)) = value

variable {base n fuel : Nat} {value : Int} {ds text tmp : List UInt8}

theorem hex_eq {d : Nat} (hd : d < 16) : hex.getD d 0 = baseDigit (locase {}) d := by
  interval_cases d <;> decide

theorem ltoaDigits_eq (hb : 1 < base) (hle : base ≤ 16) (hn : n < 2 ^ fuel)
    (hfit : n < 4294967296) :
    ltoaDigits base (fuel + 1) n = some ((Nat.digits base n).map (baseDigit (locase {}))) := by
  induction fuel generalizing n with
  | zero =>
    have hzero : n = 0 := by omega
    subst hzero
    simp [ltoaDigits]
  | succ fuel ih =>
    rw [ltoaDigits]
    by_cases hpos : 0 < n
    · have hmod : n % base < 16 := (Nat.mod_lt n (by omega)).trans_le hle
      have hquot : n / base < 2 ^ fuel := by
        have htwo : n / base ≤ n / 2 := Nat.div_le_div_left hb (by decide)
        rw [Nat.pow_succ] at hn
        omega
      have hret : toU32 ((n : Int).tmod base) = n % base := by
        rw [← Int.ofNat_tmod, toU32_ofNat (by omega)]
      rw [if_pos (by omega)]
      dsimp only
      rw [hret, hex_eq hmod, ← Int.ofNat_tdiv, ih hquot ((Nat.div_le_self n base).trans_lt hfit),
        Nat.digits_def' hb hpos]
      rfl
    · have hzero : n = 0 := by omega
      subst hzero
      rw [if_neg (by decide), Nat.digits_zero, List.map_nil]

theorem ltoaCopy_eq (b : Buf) (nptr : Nat) (tmp : List UInt8) (off : Nat) :
    ltoaCopy b nptr tmp off = store b (nptr + off) (tmp.reverse ++ [0]) := by
  have hloop (k : Nat) (hk : k ≤ tmp.length) :
      (List.range k).foldl
          (fun b i => store b (nptr + (i + off)) [tmp.getD (tmp.length - 1 - i) 0]) b =
        store b (nptr + off) (tmp.reverse.take k) := by
    induction k with
    | zero => simp
    | succ k ih =>
      have hlast : tmp.reverse.take (k + 1) =
          tmp.reverse.take k ++ [tmp.getD (tmp.length - 1 - k) 0] := by
        rw [List.take_succ_eq_append_getElem (by rw [List.length_reverse]; omega),
          List.getElem_reverse, List.getElem_eq_getD 0]
      have haddr : nptr + (k + off) = nptr + off + (tmp.reverse.take k).length := by
        rw [List.length_take, List.length_reverse]
        omega
      rw [List.range_succ, List.foldl_append, ih (by omega), hlast, List.foldl_cons, List.foldl_nil,
        haddr, store_append]
  have hend : nptr + (tmp.length + off) = nptr + off + tmp.reverse.length := by
    rw [List.length_reverse]
    omega
  have hfull := hloop tmp.length le_rfl
  rw [List.take_of_length_le (by rw [List.length_reverse])] at hfull
  rw [ltoaCopy, hfull, hend, store_append]

theorem charDigit_ne_nul (h : isDigit charDigit base 0 = true) : False := by
  cases h

theorem spells_nul_notMem (h : Spells base false n ds) : 0 ∉ ds := by
  intro h0
  exact charDigit_ne_nul (h.digits 0 h0)

theorem canonical_nul_notMem (h : Canonical value base text) : 0 ∉ text := by
  obtain ⟨ds, rfl, hds⟩ := h
  rw [List.mem_append]
  rintro (h0 | h0)
  · split_ifs at h0
    · exact absurd (List.mem_singleton.mp h0) (by decide)
    · cases h0
  · exact spells_nul_notMem hds h0

theorem digit_not_sign {c : UInt8} (h : isDigit charDigit base c = true) : c ≠ 45 ∧ c ≠ 43 := by
  constructor
  · rintro rfl
    cases h
  · rintro rfl
    cases h

theorem canonical_sign (h : Canonical value base text) :
    Spells base false value.natAbs (dropSign text) ∧ signOf text = if value < 0 then -1 else 1 := by
  obtain ⟨ds, rfl, hds⟩ := h
  split_ifs with hneg
  · exact ⟨hds, rfl⟩
  · obtain ⟨c, t, rfl⟩ := List.exists_cons_of_ne_nil hds.nonempty
    obtain ⟨hminus, hplus⟩ := digit_not_sign (hds.digits c List.mem_cons_self)
    rw [List.nil_append]
    refine ⟨?_, ?_⟩
    · rw [dropSign, if_neg (by simp [hminus, hplus])]
      exact hds
    · rw [signOf, if_neg (by simp [hminus])]

theorem atol_canonical (hlo : -2147483648 ≤ value) (hhi : value < 2147483648)
    (h : Canonical value 10 text) : atol text = value := by
  obtain ⟨hds, hsign⟩ := canonical_sign h
  have hread : strtol text 10 =
      (toU32 ((readUnsigned 10 (dropSign text)).1 * signOf text),
        (readUnsigned 10 (dropSign text)).2) := (readsSigned_iff (.inl rfl)).mpr trivial
  have hvalue : (readUnsigned 10 (dropSign text)).1 = value.natAbs := by
    rw [readUnsigned, if_neg (by decide), readDigits]
    rw [List.takeWhile_eq_self_iff.mpr hds.digits, hds.value]
  have habs : ((value.natAbs : Nat) : Int) * signOf text = value := by
    rw [hsign]
    split_ifs with hneg
    · omega
    · omega
  rw [atol, hread, hvalue, habs]
  simp only [toInt32, toU32, u32]
  split_ifs with hsmall
  · omega
  · omega

theorem digitsText_length (hb : 1 < base) :
    (digitsText {} base n).length ≤ 11 ↔ n < base ^ 11 := by
  rw [digitsText]
  split_ifs with hzero
  · subst hzero
    exact iff_of_true (by decide) (Nat.pow_pos (by omega))
  · rw [List.length_reverse, List.length_map, Nat.digits_length_le_iff hb]

theorem ltoaDigits_text (hb : 1 < base) (hle : base ≤ 16) (hfuel : 33 ≤ fuel) (hpos : n ≠ 0)
    (hfit : n < 4294967296) : ltoaDigits base fuel n = some (digitsText {} base n).reverse := by
  obtain ⟨f, rfl⟩ := Nat.exists_eq_succ_of_ne_zero (by omega : fuel ≠ 0)
  have hpow : 2 ^ 32 ≤ 2 ^ f := Nat.pow_le_pow_right (by decide) (by omega)
  rw [Nat.succ_eq_add_one, ltoaDigits_eq hb hle (hfit.trans_le hpow) hfit, digitsText,
    if_neg hpos, List.reverse_reverse]

theorem ltoa_eq (buf : Nat) (mem : Buf) (nptr : Option Nat) (hb : 1 < base) (hle : base ≤ 16)
    (hfuel : 33 ≤ fuel) (hlo : -2147483648 < value) (hhi : value < 2147483648) :
    ltoa fuel buf mem value nptr base =
      some ⟨nptr.getD buf, (digitsText {} base value.natAbs).reverse ++ [0],
        store mem (nptr.getD buf)
          ((if value < 0 then [45] else []) ++ digitsText {} base value.natAbs ++ [0])⟩ := by
  rw [ltoa]
  dsimp only
  rcases lt_trichotomy value 0 with hneg | rfl | hpos
  · have hvalue : toInt32 (toU32 (-1 * value)) = (value.natAbs : Int) := by
      simp only [toInt32, toU32, u32]
      split_ifs with hsmall
      · omega
      · omega
    rw [if_neg hneg.ne, if_pos hneg, if_pos hneg, hvalue,
      ltoaDigits_text hb hle hfuel (by omega) (by omega), Option.map_some, ltoaCopy_eq,
      List.reverse_reverse, store_cons, List.append_assoc]
    rfl
  · rw [if_pos rfl, if_neg (lt_irrefl 0), ltoaCopy_eq]
    rfl
  · obtain ⟨n, rfl⟩ := Int.eq_ofNat_of_zero_le hpos.le
    rw [if_neg hpos.ne', if_neg hpos.le.not_gt, if_neg hpos.le.not_gt, List.nil_append,
      Int.natAbs_natCast, ltoaDigits_text hb hle hfuel (by omega) (by omega), Option.map_some,
      ltoaCopy_eq, List.reverse_reverse]
    rfl

theorem ltoa_longMin (buf : Nat) (mem : Buf) (nptr : Option Nat) (hfuel : 33 ≤ fuel) :
    ltoa fuel buf mem (-2147483648) nptr base =
      some ⟨nptr.getD buf, [0], store mem (nptr.getD buf) ([45] ++ [0])⟩ := by
  obtain ⟨f, rfl⟩ := Nat.exists_eq_succ_of_ne_zero (by omega : fuel ≠ 0)
  -- Its negation is itself, and the digit loop does not run.
  have hvalue : toInt32 (toU32 (-1 * (-2147483648))) = -2147483648 := by decide
  rw [ltoa]
  dsimp only
  rw [if_neg (by decide), if_pos (by decide), hvalue, ltoaDigits, if_neg (by decide),
    Option.map_some, ltoaCopy_eq, store_cons]
  rfl

theorem canonical_longMin {p : Buf} (h : Canonical (-2147483648) base text)
    (hsign : StartsWith p ([45] ++ [0])) : ¬StartsWith p (text ++ [0]) := by
  intro hstart
  obtain ⟨ds, rfl, hds⟩ := h
  obtain ⟨c, t, rfl⟩ := List.exists_cons_of_ne_nil hds.nonempty
  have hc : p 1 = c := hstart.getD (i := 1) (by simp) 0
  have hnul : p 1 = 0 := hsign.getD (i := 1) (by simp) 0
  rw [hnul] at hc
  exact charDigit_ne_nul (hc ▸ hds.digits c List.mem_cons_self)

def LtoaReturns (buf : Nat) (mem : Buf) (value : Int) (nptr : Option Nat) (base : Nat)
    (r : LtoaResult) : Prop :=
  ∀ fuel, 33 ≤ fuel → ltoa fuel buf mem value nptr base = some r

theorem LtoaReturns.unique {buf : Nat} {mem : Buf} {nptr : Option Nat} {r : LtoaResult}
    (h : LtoaReturns buf mem value nptr base r) {r' : LtoaResult}
    (hr' : ltoa 33 buf mem value nptr base = some r') : r = r' :=
  Option.some.inj ((h 33 le_rfl).symm.trans hr')

theorem ltoa_right_iff (buf : Nat) (mem : Buf) (value : Int) (nptr : Option Nat) (base : Nat)
    (hlo : -2147483648 ≤ value) (hhi : value < 2147483648) (hb : 2 ≤ base) (hle : base ≤ 16) :
    (∃ r, LtoaReturns buf mem value nptr base r ∧ r.nptr = nptr.getD buf ∧
        LtoaRight r value base) ↔
      value ≠ -2147483648 ∧ value.natAbs < base ^ 11 := by
  constructor
  · rintro ⟨r, hreturns, -, hright⟩
    have hmin : value ≠ -2147483648 := by
      rintro rfl
      obtain rfl := hreturns.unique (ltoa_longMin buf mem nptr le_rfl)
      obtain ⟨text, hcanonical, htext⟩ := hright.text
      refine canonical_longMin hcanonical ?_ htext
      rw [shift_store_self]
      exact startsWith_store _ _
    refine ⟨hmin, ?_⟩
    obtain rfl := hreturns.unique (ltoa_eq buf mem nptr hb hle le_rfl (by omega) hhi)
    have hlen := hright.tmp
    rw [List.length_append, List.length_reverse, List.length_singleton] at hlen
    exact (digitsText_length hb).mp (by omega)
  · rintro ⟨hmin, hfit⟩
    refine ⟨_, fun fuel hfuel => ltoa_eq buf mem nptr hb hle hfuel (by omega) hhi, rfl, ?_⟩
    have hcanonical : Canonical value base
        ((if value < 0 then [45] else []) ++ digitsText {} base value.natAbs) :=
      ⟨_, rfl, digitsText_spells {} hb hle value.natAbs⟩
    have hlen := (digitsText_length hb).mpr hfit
    generalize htext : (if value < 0 then [45] else []) ++ digitsText {} base value.natAbs = text
      at hcanonical
    have hshort : text.length ≤ 12 := by
      rw [← htext, List.length_append]
      split_ifs <;> simp <;> omega
    have hstart (p : Buf) (k : Nat) :
        StartsWith (shift (store p k (text ++ [0])) k) (text ++ [0]) := by
      rw [shift_store_self]
      exact startsWith_store _ _
    refine ⟨?_, ⟨text, hcanonical, hstart _ _⟩, ?_⟩
    · rw [List.length_append, List.length_reverse, List.length_singleton]
      omega
    · rintro rfl
      rw [cString, cStringFrom_eq (hstart _ _) (canonical_nul_notMem hcanonical) (by omega)]
      exact atol_canonical hlo hhi hcanonical

theorem ltoa_right_iff_hex :
    (∃ r, LtoaReturns 64 (fun _ => 7) (-48879) (some 8) 16 r ∧ r.nptr = 8 ∧
        LtoaRight r (-48879) 16) ∧
      ¬∃ r, LtoaReturns 64 (fun _ => 7) 2048 none 2 r ∧ r.nptr = 64 ∧ LtoaRight r 2048 2 := by
  constructor
  · exact (ltoa_right_iff 64 (fun _ => 7) (-48879) (some 8) 16 (by decide) (by decide)
      (by decide) (by decide)).mpr ⟨by decide, by decide⟩
  · intro hright
    have hfit := (ltoa_right_iff 64 (fun _ => 7) 2048 none 2 (by decide) (by decide)
      (by decide) (by decide)).mp hright
    exact absurd hfit.2 (by decide)

-- 2048 has twelve binary digits, and the NUL is stored behind tmp.
theorem ltoa_overruns_tmp :
    ¬∀ (buf : Nat) (mem : Buf) (value : Int) (nptr : Option Nat) (base : Nat),
      -2147483648 ≤ value → value < 2147483648 → 2 ≤ base → base ≤ 16 →
        ∃ r, LtoaReturns buf mem value nptr base r ∧ r.nptr = nptr.getD buf ∧
          LtoaRight r value base := by
  intro hall
  obtain ⟨r, hreturns, -, hright⟩ := hall 64 (fun _ => 7) 2048 (some 8) 2 (by decide) (by decide)
    (by decide) (by decide)
  have htmp : (ltoa 33 64 (fun _ => 7) 2048 (some 8) (2 : Nat)).map (fun r => r.tmp.length) =
      some 13 := by decide +kernel
  rw [hreturns 33 le_rfl, Option.map_some, Option.some.injEq] at htmp
  exact absurd hright.tmp (by omega)

end NonOsLite
