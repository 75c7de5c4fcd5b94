import NonOsLite.Stdio.Numeral
import NonOsLite.Stdio.ScanfRun

namespace NonOsLite.Scanf

variable {buf fmt : List UInt8} {conv : IntConv} {s t : Scan}

-- Not counted, or stored and resumed as the longest numeral at the scan position asks.
def ConversionRight (buf : List UInt8) (conv : IntConv) (s : Scan) : Prop :=
  let p := skipSpaces buf s.str
  integer buf conv s = .exit (.stop { s with str := p }) ∨
    ∃ t, Longest conv.base conv.isSign (limited conv.width (buf.drop p)) t ∧
      integer buf conv s = .again
        { fmt := s.fmt
          str := p + t.length
          next := some (p + t.length)
          num := s.num + 1
          stored := s.stored ++ [.int (targetBits conv.qualifier)
            (numeralValue conv.base t % 2 ^ targetBits conv.qualifier).toNat] }

structure Readable (conv : IntConv) (a : List UInt8) : Prop where
  base : conv.base ≠ 8
  size : ¬(isSize conv.qualifier = true ∧ conv.isSign = true ∧ a.head? = some 45)
  width : ∀ w ∈ conv.width, (readText conv.base conv.isSign a).length ≤ w
  plain : PlainText conv.base conv.isSign (limited conv.width a)

def ConversionMeets (buf : List UInt8) (conv : IntConv) (s : Scan) : Prop :=
  badDigit conv.base (firstDigit buf conv.isSign (skipSpaces buf s.str)) = false →
    Readable conv (buf.drop (skipSpaces buf s.str))

structure SscanfRight (buf fmt : List UInt8) : Prop where
  conversions : AllConversions (ConversionRight buf) buf fmt
  returns : ∃ r, (∀ fuel, fmt.length ≤ fuel → vsscanf buf fuel fmt = some r) ∧
    r.num = valuesStored r

theorem charAt_drop (buf : List UInt8) (p : Nat) : charAt buf p = (buf.drop p).head?.getD 0 := by
  rw [charAt, List.getD_eq_getElem?_getD, List.head?_drop]

theorem digit_of_badDigit {base : Nat} {digit : UInt8} (hb : base = 10 ∨ base = 16 ∨ base = 0)
    (h : badDigit base digit = false) : (if base = 16 then isxdigit else isdigit) digit = true := by
  rcases hb with rfl | rfl | rfl
  · simp [badDigit] at h
    simp [h]
  · simp [badDigit] at h
    simp [h]
  · simp [badDigit] at h
    simp [h]

theorem starts_of_badDigit {p : Nat} {base : Nat} {isSign : Bool}
    (hb : base = 10 ∨ base = 16 ∨ base = 0)
    (h : badDigit base (firstDigit buf isSign p) = false) : Starts base isSign (buf.drop p) := by
  have hzero : (if base = 16 then isxdigit else isdigit) 0 = false := by split <;> rfl
  have hstart (i : Nat) (hi : (if base = 16 then isxdigit else isdigit) (charAt buf i) = true) :
      StartsBody base (buf.drop i) := by
    rw [charAt_drop] at hi
    unfold StartsBody
    cases hhead : (buf.drop i).head? with
    | none =>
      rw [hhead, Option.getD_none, hzero] at hi
      cases hi
    | some c =>
      rw [hhead, Option.getD_some] at hi
      rw [Option.any_some]
      exact hi
  have hdigit := digit_of_badDigit hb h
  have hsign : charAt buf p = 45 ↔ (buf.drop p).head? = some 45 := by
    rw [charAt_drop]
    cases (buf.drop p).head? with
    | none => simp
    | some c => simp
  unfold firstDigit at hdigit
  unfold Starts
  by_cases hminus : isSign = true ∧ charAt buf p = 45
  · rw [if_pos hminus] at hdigit
    rw [if_pos ⟨hminus.1, hsign.mp hminus.2⟩, List.drop_drop]
    exact hstart (p + 1) hdigit
  · rw [if_neg hminus] at hdigit
    rw [if_neg (fun hc => hminus ⟨hc.1, hsign.mpr hc.2⟩)]
    exact hstart p hdigit

theorem length_readText {base p : Nat} {isSign : Bool} (h : Starts base isSign (buf.drop p)) :
    0 < (readText base isSign (buf.drop p)).length ∧
      buf.length - ((buf.drop p).drop (readText base isSign (buf.drop p)).length).length =
        p + (readText base isSign (buf.drop p)).length := by
  have hpos : 0 < (readText base isSign (buf.drop p)).length := by
    unfold Starts at h
    unfold readText
    split at h
    · rename_i hminus
      rw [if_pos hminus]
      exact Nat.succ_pos _
    · rename_i hminus
      rw [if_neg hminus]
      exact List.length_pos_of_ne_nil (readBody_ne_nil h)
  have hle := (readText_initial base isSign (buf.drop p)).length_le
  rw [List.length_drop] at hle
  rw [List.length_drop, List.length_drop]
  exact ⟨hpos, by omega⟩

theorem strto_readText {p : Nat} (next : Option Nat)
    (hb : conv.base = 10 ∨ conv.base = 16 ∨ conv.base = 0)
    (hs : Starts conv.base conv.isSign (buf.drop p))
    (hsize : ¬(isSize conv.qualifier = true ∧ conv.isSign = true ∧ (buf.drop p).head? = some 45)) :
    strto buf conv p next =
      (toU32 (numeralValue conv.base (readText conv.base conv.isSign (buf.drop p))),
        some (p + (readText conv.base conv.isSign (buf.drop p)).length)) := by
  have hbase : ¬(conv.base ≠ 0 ∧ conv.base ≠ 10 ∧ conv.base ≠ 16) := by omega
  have hend := (length_readText hs).2
  simp only [strto, if_neg hbase]
  by_cases hsigned : conv.isSign = true ∧ ¬isSize conv.qualifier = true
  · have hstrtol : strtol (buf.drop p) conv.base =
        (toU32 (numeralValue conv.base (readText conv.base conv.isSign (buf.drop p))),
          (buf.drop p).drop (readText conv.base conv.isSign (buf.drop p)).length) := by
      rw [hsigned.1] at hs ⊢
      exact strtol_readText hb hs
    rw [if_pos hsigned, hstrtol, hend]
  · have hminus : ¬(conv.isSign = true ∧ (buf.drop p).head? = some 45) := by
      rintro ⟨hsign, hhead⟩
      exact hsize ⟨by_contra fun hno => hsigned ⟨hsign, hno⟩, hsign, hhead⟩
    rw [if_neg hsigned, strtoul_readText hb hs hminus, hend]

theorem bits_le (qualifier : UInt8) : targetBits qualifier ≤ 32 := by
  unfold targetBits
  split_ifs <;> decide

theorem toU32_mod {k : Nat} (hk : k ≤ 32) (x : Int) : toU32 x % 2 ^ k = (x % 2 ^ k).toNat := by
  have hdvd : (2 : Int) ^ k ∣ 4294967296 := by
    have hpow : (4294967296 : Int) = 2 ^ 32 := by norm_num
    rw [hpow]
    exact pow_dvd_pow 2 hk
  have hmod : x % 4294967296 % 2 ^ k = x % 2 ^ k := Int.emod_emod_of_dvd x hdvd
  have hnonneg : 0 ≤ x % 4294967296 := Int.emod_nonneg x (by decide)
  have hcast : (2 : Int) ^ k = (2 ^ k : Nat) := by push_cast; rfl
  rw [toU32, ← hmod, Int.toNat_emod hnonneg (by positivity), hcast, Int.toNat_natCast]

theorem limited_initial (width : Option Nat) (a : List UInt8) : limited width a <+: a := by
  cases width with
  | none => exact List.prefix_refl a
  | some w => exact List.take_prefix w a

theorem IsNumeral.ne_nil {base : Nat} {isSign : Bool} {t : List UInt8} (h : IsNumeral base isSign t) :
    t ≠ [] := by
  rintro rfl
  rcases h with (⟨hne, -⟩ | ⟨-, -, hne, -⟩) | ⟨-, a, ha, -⟩
  · exact hne rfl
  · exact hne rfl
  · cases ha

theorem ConversionRight.resumes (h : ConversionRight buf conv s)
    (hcount : badDigit conv.base (firstDigit buf conv.isSign (skipSpaces buf s.str)) = false) :
    ∃ t, Longest conv.base conv.isSign
        (limited conv.width (buf.drop (skipSpaces buf s.str))) t ∧
      (strto buf conv (skipSpaces buf s.str) s.next).2 = some (skipSpaces buf s.str + t.length) := by
  cases hnext : (strto buf conv (skipSpaces buf s.str) s.next).2 with
  | none =>
    have hu := integer_undefined rfl hcount (Prod.ext rfl hnext)
    rcases h with hstop | ⟨t, -, hagain⟩
    · rw [hu] at hstop
      cases hstop
    · rw [hu] at hagain
      cases hagain
  | some m =>
    have hinteger := integer_counted rfl hcount (Prod.ext rfl hnext)
    rcases h with hstop | ⟨t, hlongest, hagain⟩
    · rw [hinteger] at hstop
      cases hstop
    · rw [hinteger] at hagain
      injection hagain with hscan
      exact ⟨t, hlongest, congrArg Scan.next hscan⟩

theorem right_iff_longest (hb : conv.base = 10 ∨ conv.base = 16 ∨ conv.base = 0) {p : Nat}
    (hp : skipSpaces buf s.str = p)
    (hcount : badDigit conv.base (firstDigit buf conv.isSign p) = false)
    (hsize : ¬(isSize conv.qualifier = true ∧ conv.isSign = true ∧ (buf.drop p).head? = some 45)) :
    ConversionRight buf conv s ↔ Longest conv.base conv.isSign (limited conv.width (buf.drop p))
      (readText conv.base conv.isSign (buf.drop p)) := by
  subst hp
  have hstrto := strto_readText s.next hb (starts_of_badDigit hb hcount) hsize
  constructor
  · intro h
    obtain ⟨t, hlongest, hnext⟩ := h.resumes hcount
    rw [hstrto] at hnext
    have hlen : (readText conv.base conv.isSign (buf.drop (skipSpaces buf s.str))).length =
        t.length := by
      have hsome := Option.some.inj hnext
      omega
    have hinitial := hlongest.initial.trans (limited_initial _ _)
    have hsame := (List.prefix_of_prefix_length_le (readText_initial _ _ _) hinitial
      hlen.le).eq_of_length hlen
    exact hsame ▸ hlongest
  · intro h
    refine Or.inr ⟨_, h, ?_⟩
    rw [integer_counted rfl hcount hstrto, toU32_mod (bits_le conv.qualifier)]

theorem ConversionRight.advances (h : ConversionRight buf conv s)
    (hcount : badDigit conv.base (firstDigit buf conv.isSign (skipSpaces buf s.str)) = false) {m : Nat}
    (hnext : (strto buf conv (skipSpaces buf s.str) s.next).2 = some m) :
    skipSpaces buf s.str < m := by
  obtain ⟨t, hlongest, hresume⟩ := h.resumes hcount
  have hpos := List.length_pos_of_ne_nil hlongest.numeral.ne_nil
  rw [hnext] at hresume
  have hsome := Option.some.inj hresume
  omega

-- strtoul does not know base 8 and leaves next where an earlier conversion ended.
theorem ConversionRight.base_ne (h : ConversionRight buf conv s) (hnext : NextBehind s)
    (hcount : badDigit conv.base (firstDigit buf conv.isSign (skipSpaces buf s.str)) = false) :
    conv.base ≠ 8 := by
  intro hb
  have hstrto : (strto buf conv (skipSpaces buf s.str) s.next).2 = s.next := by
    simp [strto, hb]
  cases hn : s.next with
  | none =>
    obtain ⟨t, -, hresume⟩ := h.resumes hcount
    rw [hstrto, hn] at hresume
    cases hresume
  | some n =>
    have hlt := h.advances hcount (hstrto.trans hn)
    have hle : n ≤ s.str := hnext n hn
    have hskip : s.str ≤ skipSpaces buf s.str := Nat.le_add_right _ _
    omega

theorem readBody_minus {base : Nat} {a : List UInt8} (h : a.head? = some 45) : readBody base a = [] := by
  obtain ⟨b, rfl⟩ := List.head?_eq_some_iff.mp h
  have hstop : (if base = 16 then isxdigit else isdigit) 45 = false := by split <;> rfl
  have hx : ¬(base = 0 ∧ (45 :: b).take 2 = [48, 120]) := by
    rintro ⟨-, htake⟩
    exact absurd (List.cons.inj htake).1 (by decide)
  rw [readBody, if_neg hx, List.takeWhile_cons_of_neg (by simp [hstop])]

-- strtoul does not take the minus sign the digit test has passed over.
theorem ConversionRight.size (h : ConversionRight buf conv s)
    (hb : conv.base = 10 ∨ conv.base = 16 ∨ conv.base = 0)
    (hcount : badDigit conv.base (firstDigit buf conv.isSign (skipSpaces buf s.str)) = false) :
    ¬(isSize conv.qualifier = true ∧ conv.isSign = true ∧
      (buf.drop (skipSpaces buf s.str)).head? = some 45) := by
  rintro ⟨hsize, hsign, hminus⟩
  have hbase : ¬(conv.base ≠ 0 ∧ conv.base ≠ 10 ∧ conv.base ≠ 16) := by omega
  have hlen : skipSpaces buf s.str < buf.length := by
    by_contra hge
    rw [List.drop_eq_nil_of_le (Nat.not_lt.mp hge)] at hminus
    cases hminus
  have hstrto : (strto buf conv (skipSpaces buf s.str) s.next).2 = some (skipSpaces buf s.str) := by
    simp only [strto, if_neg hbase, hsize, not_true_eq_false, and_false, if_false,
      strtoul_readBody hb, readBody_minus hminus, List.length_nil, List.drop_zero, List.length_drop]
    congr 1
    omega
  exact absurd (h.advances hcount hstrto) (Nat.lt_irrefl _)

theorem right_iff (hnext : NextBehind s) : ConversionRight buf conv s ↔ ConversionMeets buf conv s := by
  cases hcount : badDigit conv.base (firstDigit buf conv.isSign (skipSpaces buf s.str)) with
  | true =>
    refine ⟨fun _ hfalse => ?_, fun _ => Or.inl (integer_stop rfl hcount)⟩
    rw [hcount] at hfalse
    cases hfalse
  | false =>
    have hbases := conv.base_mem
    simp only [List.mem_cons, List.not_mem_nil, or_false] at hbases
    constructor
    · intro h _
      have hoctal := h.base_ne hnext hcount
      have hb : conv.base = 10 ∨ conv.base = 16 ∨ conv.base = 0 := by omega
      have hsize := h.size hb hcount
      have hlongest := (right_iff_longest hb rfl hcount hsize).mp h
      obtain ⟨hwidth, hplain⟩ := (longest_limited_iff hb (starts_of_badDigit hb hcount)).mp hlongest
      exact ⟨hoctal, hsize, hwidth, hplain⟩
    · intro h
      obtain ⟨hoctal, hsize, hwidth, hplain⟩ := h hcount
      have hb : conv.base = 10 ∨ conv.base = 16 ∨ conv.base = 0 := by omega
      exact (right_iff_longest hb rfl hcount hsize).mpr
        ((longest_limited_iff hb (starts_of_badDigit hb hcount)).mpr ⟨hwidth, hplain⟩)

theorem ConversionRight.defined (h : ConversionRight buf conv s) (u : Scan) :
    integer buf conv s ≠ .exit (.undefined u) := by
  intro hu
  rcases h with hstop | ⟨t, -, hagain⟩
  · rw [hu] at hstop
    cases hstop
  · rw [hu] at hagain
    cases hagain

theorem right_iff_meets {u : Scan} (hs : Reached buf fmt s) (hloop : inLoop buf s)
    (hdir : directive buf s = .integer conv u) :
    ConversionRight buf conv u ↔ ConversionMeets buf conv u := by
  have hinv := directive_inv buf hs.inv hloop.1
  rw [hdir] at hinv
  exact right_iff hinv.behind

theorem sscanf_integers (buf fmt : List UInt8) :
    SscanfRight buf fmt ↔ AllConversions (ConversionMeets buf) buf fmt := by
  constructor
  · intro h s hs hloop conv t hdir
    exact (right_iff_meets hs hloop hdir).mp (h.conversions s hs hloop conv t hdir)
  · intro h
    have hright : AllConversions (ConversionRight buf) buf fmt := fun s hs hloop conv t hdir =>
      (right_iff_meets hs hloop hdir).mpr (h s hs hloop conv t hdir)
    obtain ⟨r, hr⟩ := vsscanf_defined fun s hs hloop conv t hdir =>
      (hright s hs hloop conv t hdir).defined
    exact ⟨hright, r, hr, vsscanf_count (hr fmt.length (Nat.le_refl _))⟩

theorem sscanf_field_width : ¬∀ buf fmt : List UInt8, 0 ∉ buf → 0 ∉ fmt → SscanfRight buf fmt := by
  intro h
  have hright := h (ascii "1234") (ascii "%2d") (by decide) (by decide)
  have hdir : directive (ascii "1234") (scanStart (ascii "%2d")) =
      .integer ⟨10, true, noQualifier, some 2, by decide⟩ ⟨[], 0, none, 0, []⟩ := by
    rfl
  have hmeets := (right_iff_meets .start (by decide) hdir).mp
    (hright.conversions _ .start (by decide) _ _ hdir)
  exact absurd ((hmeets (by decide)).width 2 rfl) (by decide)

end NonOsLite.Scanf
