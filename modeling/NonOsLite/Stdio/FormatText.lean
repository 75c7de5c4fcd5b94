import NonOsLite.Stdio.Printf

namespace NonOsLite.Stdio

def locase (flags : Flags) : UInt8 := if flags.small then 32 else 0

def signText (flags : Flags) (num : Nat) : List UInt8 :=
  if flags.sign then
    if 9223372036854775808 ≤ num then [45]
    else if flags.plus then [43]
    else if flags.space then [32]
    else []
  else []

def magnitude (flags : Flags) (num : Nat) : Nat :=
  if flags.sign ∧ 9223372036854775808 ≤ num then 18446744073709551616 - num else num

def prefixText (flags : Flags) (base : Nat) : List UInt8 :=
  if flags.special && base != 10 then if base = 16 then [48, 88 ||| locase flags] else [48] else []

def digitsText (flags : Flags) (base n : Nat) : List UInt8 :=
  if n = 0 then [48] else ((Nat.digits base n).map (baseDigit (locase flags))).reverse

def numberText (num base : Nat) (width precision : Int) (flags : Flags) : List UInt8 :=
  let sign := signText flags num
  let pfx := prefixText flags base
  let ds := digitsText flags base (magnitude flags num)
  let body := List.replicate (precision - ds.length).toNat 48 ++ ds
  let room := (width - sign.length - pfx.length - body.length).toNat
  if flags.left then sign ++ pfx ++ body ++ List.replicate room 32
  else if flags.zeropad then sign ++ pfx ++ List.replicate room 48 ++ body
  else List.replicate room 32 ++ sign ++ pfx ++ body

def stringText (s : Option (List UInt8)) (width precision : Int) (flags : Flags) : List UInt8 :=
  let s := s.getD (ascii "<NULL>")
  let text := s.take (strnlen s (toU32 precision))
  let room := (width - text.length).toNat
  if flags.left then text ++ List.replicate room 32 else List.replicate room 32 ++ text

def charText (c : UInt8) (width : Int) (flags : Flags) : List UInt8 :=
  let room := (width - 1).toNat
  if flags.left then c :: List.replicate room 32 else List.replicate room 32 ++ [c]

def pointerText (ptr : Nat) (width precision : Int) (flags : Flags) : List UInt8 :=
  if ptr = 0 then stringText (some (ascii "(null)")) width precision flags
  else
    let flags := { flags with small := true }
    if width = -1 then numberText ptr 16 8 precision { flags with zeropad := true }
    else numberText ptr 16 width precision flags

def numberArgText (spec : Spec) (base : Nat) (flags : Flags) (args : List Arg) :
    List UInt8 × List Arg :=
  let (num, args) := getNumber spec.qualifier flags.sign args
  (numberText num base spec.fieldWidth spec.precision flags, args)

def convertText (spec : Spec) (fmt : List UInt8) (args : List Arg) :
    List UInt8 × List UInt8 × List Arg :=
  match fmt with
  | [] => ([37], [], args)
  | 99 :: fmt =>
      let (c, args) := vaWord args
      (charText (UInt8.ofNat c) spec.fieldWidth spec.flags, fmt, args)
  | 115 :: fmt =>
      let (s, args) := vaStr args
      (stringText s spec.fieldWidth spec.precision spec.flags, fmt, args)
  | 112 :: fmt =>
      let (ptr, args) := vaWord args
      (pointerText ptr spec.fieldWidth spec.precision spec.flags, fmt.dropWhile isalnum, args)
  | 110 :: fmt => ([], fmt, args.drop 1)
  | 37 :: fmt => ([37], fmt, args)
  | c :: fmt =>
      if c = 102 ∨ c = 103 then
        let (dtostr, args) := vaDouble args
        let precision := if 0 < spec.precision then spec.precision else 1
        ((dtostr spec.fieldWidth precision (c == 103)).takeWhile (· ≠ 0), fmt, args)
      else if c = 111 then
        let (t, args) := numberArgText spec 8 spec.flags args
        (t, fmt, args)
      else if c = 120 then
        let (t, args) := numberArgText spec 16 { spec.flags with small := true } args
        (t, fmt, args)
      else if c = 88 then
        let (t, args) := numberArgText spec 16 spec.flags args
        (t, fmt, args)
      else if c = 100 ∨ c = 105 then
        let (t, args) := numberArgText spec 10 { spec.flags with sign := true } args
        (t, fmt, args)
      else if c = 117 then
        let (t, args) := numberArgText spec 10 spec.flags args
        (t, fmt, args)
      else ([37, c], fmt, args)

def formatTextFrom : Nat → List UInt8 → List Arg → List UInt8
  | 0, _, _ => []
  | _ + 1, [], _ => []
  | fuel + 1, c :: fmt, args =>
      if c ≠ 37 then c :: formatTextFrom fuel fmt args
      else
        let (spec, fmt, args) := getSpec fmt args
        let (t, fmt, args) := convertText spec fmt args
        t ++ formatTextFrom fuel fmt args

def formatText (fmt : List UInt8) (args : List Arg) : List UInt8 :=
  formatTextFrom (fmt.length + 1) fmt args

def emit (o : Out) (xs : List UInt8) : Out := xs.foldl addch o

@[simp] theorem emit_nil (o : Out) : emit o [] = o := rfl

@[simp] theorem emit_append (o : Out) (xs ys : List UInt8) :
    emit o (xs ++ ys) = emit (emit o xs) ys := by
  simp [emit, List.foldl_append]

theorem emit_cons (o : Out) (x : UInt8) (xs : List UInt8) :
    emit o (x :: xs) = emit (addch o x) xs := rfl

theorem addch_eq_emit (o : Out) (c : UInt8) : addch o c = emit o [c] := rfl

theorem div10_by_205 {x : Nat} (h : x < 400) : x * 205 / 2048 = x / 10 := by omega

theorem div10_by_13 {x : Nat} (h : x < 69) : x * 13 / 128 = x / 10 := by omega

theorem sub32_div10 {x : Nat} : sub32 x (10 * (x / 10)) = x % 10 := by
  simp only [sub32]
  split_ifs <;> omega

theorem digits_step {n : Nat} (h : 0 < n) : Nat.digits 10 n = n % 10 :: Nat.digits 10 (n / 10) :=
  Nat.digits_def' (by norm_num) h

-- The partial sums e0..e3 of put_dec_trunc and put_dec_full carry the decimal digits of q.
structure DecSums (q d1 d2 d3 e0 e1 e2 e3 : Nat) : Prop where
  sum0 : e0 = 6 * (d3 + d2 + d1) + q % 16
  sum1 : e1 = e0 * 205 / 2048 + 9 * d3 + 5 * d2 + d1
  sum2 : e2 = e1 * 205 / 2048 + 2 * d2
  sum3 : e3 = e2 * 13 / 128 + 4 * d3
  nibble1 : d1 = q / 16 % 16
  nibble2 : d2 = q / 256 % 16
  nibble3 : d3 = q / 4096

theorem DecSums.div10 {q d1 d2 d3 e0 e1 e2 e3 : Nat} (h : DecSums q d1 d2 d3 e0 e1 e2 e3)
    (hq : q < 100000) : e0 * 205 / 2048 = e0 / 10 ∧ e1 * 205 / 2048 = e1 / 10 ∧
      e2 * 13 / 128 = e2 / 10 ∧ e3 * 205 / 2048 = e3 / 10 := by
  obtain ⟨s0, s1, s2, s3, n1, n2, n3⟩ := h
  have hc : q % 16 < 16 := Nat.mod_lt _ (by norm_num)
  have hd1 : d1 < 16 := n1 ▸ Nat.mod_lt _ (by norm_num)
  have hd2 : d2 < 16 := n2 ▸ Nat.mod_lt _ (by norm_num)
  have hd3 : d3 < 25 := by rw [n3]; omega
  generalize q % 16 = c at hc s0
  clear n1 n2 n3 hq
  have he0 : e0 < 400 := by clear s1 s2 s3; omega
  have b0 := div10_by_205 he0
  rw [b0] at s1
  have he1 : e1 < 400 := by clear s2 s3 b0; omega
  have b1 := div10_by_205 he1
  rw [b1] at s2
  have he2 : e2 < 69 := by clear s3 b0 b1; omega
  have b2 := div10_by_13 he2
  rw [b2] at s3
  have he3 : e3 < 400 := by clear s0 s1 s2 b0 b1 b2; omega
  exact ⟨b0, b1, b2, div10_by_205 he3⟩

theorem DecSums.rests {q d1 d2 d3 e0 e1 e2 e3 : Nat} (h : DecSums q d1 d2 d3 e0 e1 e2 e3)
    (hq : q < 100000) : q = e0 + 10 * (d1 + 25 * d2 + 409 * d3) ∧
      q / 10 = e1 + 10 * (2 * d2 + 40 * d3) ∧ q / 100 = e2 + 10 * (4 * d3) ∧ q / 1000 = e3 := by
  obtain ⟨b0, b1, b2, -⟩ := h.div10 hq
  obtain ⟨s0, s1, s2, s3, n1, n2, n3⟩ := h
  rw [b0] at s1
  rw [b1] at s2
  rw [b2] at s3
  clear b0 b1 b2
  have r0 : q = e0 + 10 * (d1 + 25 * d2 + 409 * d3) := by clear s1 s2 s3; omega
  clear n1 n2 n3 s0
  have r1 : q / 10 = e1 + 10 * (2 * d2 + 40 * d3) := by clear s2 s3; omega
  have r2 : q / 10 / 10 = e2 + 10 * (4 * d3) := by rw [r1]; clear r0 s1 s3; omega
  have r3 : q / 10 / 10 / 10 = e3 := by rw [r2]; clear r0 r1 s1 s2; omega
  refine ⟨r0, r1, ?_, ?_⟩
  · rw [← r2, Nat.div_div_eq_div_mul]
  · rw [← r3, Nat.div_div_eq_div_mul, Nat.div_div_eq_div_mul]

theorem DecSums.digits {q d1 d2 d3 e0 e1 e2 e3 : Nat} (h : DecSums q d1 d2 d3 e0 e1 e2 e3)
    (hq : q < 100000) : e0 % 10 = q % 10 ∧ e1 % 10 = q / 10 % 10 ∧ e2 % 10 = q / 100 % 10 ∧
      e3 % 10 = q / 1000 % 10 ∧ e3 / 10 = q / 10000 ∧
      (e1 = 0 ↔ q / 10 = 0) ∧ (e2 = 0 ∧ d3 = 0 ↔ q / 100 = 0) ∧ (e3 = 0 ↔ q / 1000 = 0) := by
  obtain ⟨r0, r1, r2, r3⟩ := h.rests hq
  have hs := h.sum1
  refine ⟨?_, ?_, ?_, ?_, ?_, ?_, ?_, ?_⟩
  · rw [r0]; omega
  · rw [r1]; omega
  · rw [r2]; omega
  · rw [r3]
  · rw [← r3, Nat.div_div_eq_div_mul]
  · rw [r1]; clear r0 r2 r3; omega
  · rw [r2]; clear r0 r1 r3 hs; omega
  · rw [r3]

theorem decSums (q : Nat) : ∃ d1 d2 d3 e0 e1 e2 e3, DecSums q d1 d2 d3 e0 e1 e2 e3 :=
  ⟨_, _, _, _, _, _, _, rfl, rfl, rfl, rfl, rfl, rfl, rfl⟩

theorem putDecTrunc_eq {q : Nat} (hq : q < 100000) :
    putDecTrunc q = if q = 0 then [48] else (Nat.digits 10 q).map digitChar := by
  obtain ⟨d1, d2, d3, e0, e1, e2, e3, h⟩ := decSums q
  obtain ⟨g0, g1, g2, g3, g4, z1, z2, z3⟩ := h.digits hq
  obtain ⟨b0, b1, b2, b3⟩ := h.div10 hq
  simp only [putDecTrunc, ← h.nibble1, ← h.nibble2, ← h.nibble3, ← h.sum0, ← h.sum1, ← h.sum2,
    ← h.sum3]
  simp only [b0, b1, b2, b3, sub32_div10]
  simp only [z1, z2, z3, g0, g1, g2, g3, g4]
  by_cases hz : q = 0
  · rw [if_pos hz, hz]
    decide
  · have s1 := digits_step (n := q) (by omega)
    rw [if_neg hz, s1]
    by_cases hz1 : q / 10 = 0
    · simp [hz1]
    · have s2 := digits_step (n := q / 10) (by omega)
      rw [if_neg hz1, s2, Nat.div_div_eq_div_mul]
      by_cases hz2 : q / 100 = 0
      · simp [hz2]
      · have s3 := digits_step (n := q / 100) (by omega)
        rw [if_neg hz2, s3, Nat.div_div_eq_div_mul]
        by_cases hz3 : q / 1000 = 0
        · simp [hz3]
        · have s4 := digits_step (n := q / 1000) (by omega)
          rw [if_neg hz3, s4, Nat.div_div_eq_div_mul]
          by_cases hz4 : q / 10000 = 0
          · simp [hz4]
          · have s5 := digits_step (n := q / 10000) (by omega)
            have hl : q / 10000 < 10 := by omega
            rw [if_neg hz4, s5, Nat.div_eq_of_lt hl, Nat.mod_eq_of_lt hl]
            simp

theorem putDecFull_eq {q : Nat} (hq : q < 100000) :
    putDecFull q = [q % 10, q / 10 % 10, q / 100 % 10, q / 1000 % 10, q / 10000].map digitChar := by
  obtain ⟨d1, d2, d3, e0, e1, e2, e3, h⟩ := decSums q
  obtain ⟨g0, g1, g2, g3, g4, -⟩ := h.digits hq
  obtain ⟨b0, b1, b2, b3⟩ := h.div10 hq
  simp only [putDecFull, ← h.nibble1, ← h.nibble2, ← h.nibble3, ← h.sum0, ← h.sum1, ← h.sum2,
    ← h.sum3]
  simp only [b0, b1, b2, b3, sub32_div10]
  simp only [g0, g1, g2, g3, g4, List.map_cons, List.map_nil]

theorem digits_chunk {n : Nat} (h : 100000 ≤ n) :
    Nat.digits 10 n = [n % 100000 % 10, n % 100000 / 10 % 10, n % 100000 / 100 % 10,
      n % 100000 / 1000 % 10, n % 100000 / 10000] ++ Nat.digits 10 (n / 100000) := by
  rw [digits_step (n := n) (by omega), digits_step (n := n / 10) (by omega),
    digits_step (n := n / 10 / 10) (by omega), digits_step (n := n / 10 / 10 / 10) (by omega),
    digits_step (n := n / 10 / 10 / 10 / 10) (by omega)]
  simp only [Nat.div_div_eq_div_mul, Nat.reduceMul, List.cons_append, List.nil_append,
    List.cons.injEq, and_true]
  omega

theorem putDecFrom_eq {fuel num : Nat} (h0 : 0 < num) (h : num < 100000 ^ (fuel + 1))
    (h64 : num < 2 ^ 64) : putDecFrom fuel num = (Nat.digits 10 num).map digitChar := by
  induction fuel generalizing num with
  | zero =>
    simp only [Nat.zero_add, Nat.pow_one] at h
    rw [putDecFrom, u32_of_lt (by omega), putDecTrunc_eq h, if_neg (by omega)]
  | succ fuel ih =>
    rw [putDecFrom]
    split_ifs with hs
    · rw [u32_of_lt (by omega), putDecTrunc_eq hs, if_neg (by omega)]
    · have hdiv : num / 100000 < 100000 ^ (fuel + 1) := by
        rw [Nat.div_lt_iff_lt_mul (by norm_num)]
        simpa only [Nat.pow_succ] using h
      rw [doDiv_eq h64 (by norm_num) (by norm_num)]
      simp only
      rw [putDecFull_eq (Nat.mod_lt _ (by norm_num)), ih (by omega) hdiv (by omega),
        digits_chunk (n := num) (by omega), List.map_append]

theorem putDec_eq {num : Nat} (h0 : 0 < num) (h64 : num < 2 ^ 64) :
    putDec num = (Nat.digits 10 num).map digitChar :=
  putDecFrom_eq h0 (by norm_num at h64 ⊢; omega) h64

theorem putBase_eq {fuel num : Nat} (shift : Nat) (locase : UInt8) (hs : 1 ≤ shift) (hs8 : shift ≤ 8)
    (h0 : 0 < num) (h : num < 2 ^ fuel) :
    putBase (2 ^ shift - 1) shift locase fuel num =
      (Nat.digits (2 ^ shift) num).map (baseDigit locase) := by
  induction fuel generalizing num with
  | zero => simp at h; omega
  | succ fuel ih =>
    have hb : 1 < 2 ^ shift := Nat.one_lt_two_pow (by omega)
    have hdvd : 2 ^ shift ∣ 256 := by
      rw [show (256 : Nat) = 2 ^ 8 by norm_num]
      exact Nat.pow_dvd_pow 2 hs8
    have hdigit : num % 256 &&& (2 ^ shift - 1) = num % 2 ^ shift := by
      rw [Nat.and_two_pow_sub_one_eq_mod, Nat.mod_mod_of_dvd _ hdvd]
    have hhalf : num / 2 ^ shift < 2 ^ fuel := by
      have h1 : num / 2 ^ shift ≤ num / 2 := Nat.div_le_div_left hb (by norm_num)
      rw [Nat.pow_succ] at h
      omega
    rw [putBase, hdigit, Nat.digits_def' hb h0, List.map_cons]
    split_ifs with hr
    · rw [hr, Nat.digits_zero, List.map_nil]
    · rw [ih (Nat.pos_of_ne_zero hr) hhalf]

theorem baseDigit_ten {flags : Flags} {d : Nat} (h : d < 10) :
    baseDigit (locase flags) d = digitChar d := by
  simp only [locase]
  split_ifs <;> interval_cases d <;> decide

theorem numberTmp_eq {base n : Nat} (flags : Flags) (hb : base = 8 ∨ base = 10 ∨ base = 16)
    (hn : n < 2 ^ 64) : numberTmp (locase flags) base n = (digitsText flags base n).reverse := by
  simp only [numberTmp, digitsText]
  split_ifs with h0 h10 h16
  · rfl
  · subst h16
    simpa using putBase_eq 4 (locase flags) (by norm_num) (by norm_num)
      (Nat.pos_of_ne_zero h0) hn
  · obtain rfl : base = 8 := by omega
    simpa using putBase_eq 3 (locase flags) (by norm_num) (by norm_num)
      (Nat.pos_of_ne_zero h0) hn
  · obtain rfl : base = 10 := by omega
    rw [putDec_eq (Nat.pos_of_ne_zero h0) hn, List.reverse_reverse]
    refine List.map_congr_left ?_
    intro d hd
    exact (baseDigit_ten (Nat.digits_lt_base (by norm_num) hd)).symm

theorem numberSign_eq (flags : Flags) (num : Nat) (size : Int) :
    ∃ sign, numberSign flags num size =
        (sign, magnitude flags num, size - (signText flags num).length) ∧
      ∀ o, (if sign ≠ 0 then addch o sign else o) = emit o (signText flags num) := by
  simp only [numberSign, magnitude, signText]
  split_ifs <;> simp_all [addch_eq_emit]

theorem prefix_eq (flags : Flags) (base : Nat) (o : Out) :
    (if flags.special && base != 10 then
      if base = 16 then addch (addch o 48) (88 ||| locase flags) else addch o 48
    else o) = emit o (prefixText flags base) := by
  simp only [prefixText]
  split_ifs <;> rfl

theorem prefix_size (flags : Flags) (base : Nat) (size : Int) :
    (if flags.special && base != 10 then if base = 16 then size - 1 - 1 else size - 1 else size) =
      size - (prefixText flags base).length := by
  simp only [prefixText]
  split_ifs
  · simp only [List.length_cons, List.length_nil]
    omega
  · simp
  · simp

theorem number_eq {num base : Nat} (o : Out) (width precision : Int) (flags : Flags)
    (hb : base = 8 ∨ base = 10 ∨ base = 16) (hn : num < 2 ^ 64) :
    number o num base width precision flags =
      emit o (numberText num base width precision flags) := by
  have hm : magnitude flags num < 2 ^ 64 := by
    simp only [magnitude]
    split_ifs <;> omega
  have left (f : Flags) (h : f = if flags.left then { flags with zeropad := false } else flags) :
      magnitude f num = magnitude flags num ∧ signText f num = signText flags num ∧
        f.left = flags.left ∧ (f.zeropad = (flags.zeropad && !flags.left)) := by
    subst h
    by_cases hl : flags.left <;> simp [hl, magnitude, signText]
  obtain ⟨f, hf⟩ : ∃ f, f = if flags.left then { flags with zeropad := false } else flags := ⟨_, rfl⟩
  obtain ⟨fm, fs, fl, fz⟩ := left f hf
  obtain ⟨sign, hsign, hemit⟩ := numberSign_eq f num width
  have hpre := prefix_eq flags base
  have hsize := prefix_size flags base
  have htmp := numberTmp_eq flags hb hm
  simp only [locase] at htmp hpre
  simp only [number, ← hf, hsign, hsize, htmp, hemit, hpre, fm, fs, fl, fz, numberText,
    List.length_reverse, List.reverse_reverse]
  generalize signText flags num = sg
  generalize prefixText flags base = pfx
  generalize digitsText flags base (magnitude flags num) = ds
  obtain ⟨p, hp⟩ : ∃ p : Int, p = if precision < ds.length then (ds.length : Int) else precision :=
    ⟨_, rfl⟩
  have hzeros : (precision - ds.length).toNat = (p - ds.length).toNat := by
    rw [hp]
    split_ifs <;> omega
  have hbody : ((List.replicate (precision - ds.length).toNat (48 : UInt8) ++ ds).length : Int) = p := by
    rw [hp, List.length_append, List.length_replicate]
    split_ifs <;> omega
  rw [hbody, hzeros, ← hp]
  generalize width - sg.length - pfx.length - p = room
  have hend : (min room 0 - 1).toNat = 0 := by omega
  cases flags.left <;> cases flags.zeropad <;>
    simp [hend, pad, emit, List.foldl_append]

theorem string_eq (o : Out) (s : Option (List UInt8)) (width precision : Int) (flags : Flags) :
    string o s width precision flags = emit o (stringText s width precision flags) := by
  simp only [string, stringText]
  generalize s.getD (ascii "<NULL>") = text
  have hlen : strnlen text (toU32 precision) ≤ text.length :=
    Nat.le_trans (Nat.min_le_left _ _) (List.takeWhile_sublist _).length_le
  simp only [List.length_take, Nat.min_eq_left hlen, Int.toNat_natCast]
  have hend : (min width (strnlen text (toU32 precision)) - 1 -
      (strnlen text (toU32 precision) : Int)).toNat = 0 := by omega
  cases flags.left <;> simp [hend, pad, emit, List.foldl_append]

theorem pointer_eq {ptr : Nat} (o : Out) (width precision : Int) (flags : Flags)
    (hp : ptr < 2 ^ 64) :
    pointer o ptr width precision flags = emit o (pointerText ptr width precision flags) := by
  simp only [pointer, pointerText]
  split_ifs
  · exact string_eq _ _ _ _ _
  · exact number_eq _ _ _ _ (by simp) hp
  · exact number_eq _ _ _ _ (by simp) hp

theorem vaWord_lt (args : List Arg) : (vaWord args).1 < 2 ^ 32 := by
  unfold vaWord
  split
  · exact u32_lt _
  · norm_num

theorem vaQuad_lt (args : List Arg) : (vaQuad args).1 < 2 ^ 64 := by
  unfold vaQuad
  split
  · exact Nat.mod_lt _ (by norm_num)
  · norm_num

theorem signExtend32_lt {v : Nat} (h : v < 2 ^ 32) : signExtend32 v < 2 ^ 64 := by
  simp only [signExtend32]
  split_ifs <;> omega

theorem signExtend16_lt {v : Nat} (h : v < 2 ^ 16) : signExtend16 v < 2 ^ 64 := by
  simp only [signExtend16]
  split_ifs <;> omega

theorem getNumber_lt (qualifier : Option UInt8) (sign : Bool) (args : List Arg) :
    (getNumber qualifier sign args).1 < 2 ^ 64 := by
  have hw := vaWord_lt args
  have h32 := signExtend32_lt hw
  have h16 : u16 (vaWord args).1 < 2 ^ 16 := u16_lt _
  have hs16 := signExtend16_lt h16
  simp only [getNumber]
  split_ifs
  · exact vaQuad_lt args
  · exact Nat.lt_trans hw (by norm_num)
  · exact h32
  · exact hs16
  · exact Nat.lt_trans h16 (by norm_num)
  · exact h32
  · exact Nat.lt_trans hw (by norm_num)

theorem convertNumber_eq {base : Nat} (o : Out) (spec : Spec) (flags : Flags) (args : List Arg)
    (hb : base = 8 ∨ base = 10 ∨ base = 16) :
    convertNumber o spec base flags args =
      (emit o (numberArgText spec base flags args).1, (numberArgText spec base flags args).2) := by
  simp only [convertNumber, numberArgText]
  rw [number_eq _ _ _ _ hb (getNumber_lt _ _ _)]

def Out.text (o : Out) : Out := { o with stored := [] }

theorem addch_text (o : Out) (c : UInt8) : (addch o c).text = addch o.text c := by
  by_cases hnull : o.str = 0
  · simp [addch, Out.text, hnull]
  · by_cases hroom : o.str < o.limit <;> simp [addch, Out.text, putByte, hnull, hroom]

theorem foldl_text (o : Out) (xs : List UInt8) :
    (xs.foldl addch o).text = xs.foldl addch o.text := by
  induction xs generalizing o with
  | nil => rfl
  | cons x xs ih => rw [List.foldl_cons, List.foldl_cons, ih, addch_text]

@[simp] theorem emit_text (o : Out) (xs : List UInt8) : (emit o xs).text = emit o.text xs :=
  foldl_text o xs

theorem convert_eq (o : Out) (spec : Spec) (fmt : List UInt8) (args : List Arg) :
    ((convert o spec fmt args).1.text, (convert o spec fmt args).2) =
      (emit o.text (convertText spec fmt args).1, (convertText spec fmt args).2) := by
  unfold convert convertText
  split
  · rw [addch_text, addch_eq_emit]
  · cases h : spec.flags.left <;>
      simp [h, charText, pad, emit, List.foldl_append, addch_text, foldl_text]
  · simp only [string_eq, emit_text]
  · simp only [pointer_eq _ _ _ _ (Nat.lt_trans (vaWord_lt args) (by norm_num)), emit_text]
  · rfl
  · exact congrArg (·, _) (addch_text o 37)
  · simp only [convertNumber_eq _ _ _ _ (Or.inl rfl),
      convertNumber_eq _ _ _ _ (Or.inr (Or.inl rfl)),
      convertNumber_eq _ _ _ _ (Or.inr (Or.inr rfl))]
    split_ifs <;> simp [emit, addch_text, foldl_text]

theorem formatLoop_eq (fuel : Nat) (fmt : List UInt8) (args : List Arg) (o : Out) :
    (formatLoop fuel fmt args o).text = emit o.text (formatTextFrom fuel fmt args) := by
  induction fuel generalizing fmt args o with
  | zero => rfl
  | succ fuel ih =>
    cases fmt with
    | nil => rfl
    | cons c fmt =>
      simp only [formatLoop, formatTextFrom]
      split_ifs with hc
      · rw [ih, emit_cons, addch_text]
      · obtain ⟨ht, hr⟩ := Prod.mk.inj (convert_eq o (getSpec fmt args).1
          (getSpec fmt args).2.1 (getSpec fmt args).2.2)
        simp only [ih, ht, hr, emit_append]

theorem getFlags_length (flags : Flags) (fmt : List UInt8) :
    (getFlags flags fmt).2.length ≤ fmt.length := by
  induction fmt generalizing flags with
  | nil => simp [getFlags]
  | cons c fmt ih =>
    simp only [getFlags]
    split_ifs
    all_goals first | exact Nat.le_refl _ | exact Nat.le_succ_of_le (ih _)

theorem getFieldWidth_length (flags : Flags) (fmt : List UInt8) (args : List Arg) :
    (getFieldWidth flags fmt args).2.2.1.length ≤ fmt.length := by
  cases fmt with
  | nil => simp [getFieldWidth]
  | cons c fmt =>
    simp only [getFieldWidth]
    split_ifs
    · exact skipAtoi_length _ _
    · exact Nat.le_succ _
    · exact Nat.le_succ _
    · exact Nat.le_refl _

theorem getPrecision_length (fmt : List UInt8) (args : List Arg) :
    (getPrecision fmt args).2.1.length ≤ fmt.length := by
  unfold getPrecision
  split
  · rename_i c fmt
    split_ifs
    · exact Nat.le_succ_of_le (skipAtoi_length 0 (c :: fmt))
    · exact Nat.le_succ_of_le (Nat.le_succ fmt.length)
    · exact Nat.le_succ _
  · exact Nat.zero_le _
  · exact Nat.le_refl _

theorem getQualifier_length (fmt : List UInt8) : (getQualifier fmt).2.length ≤ fmt.length := by
  unfold getQualifier
  split
  · exact Nat.le_refl _
  · repeat' split
    all_goals simp only [List.length_cons]
    all_goals omega

theorem getSpec_length (fmt : List UInt8) (args : List Arg) :
    (getSpec fmt args).2.1.length ≤ fmt.length :=
  Nat.le_trans (getQualifier_length _) (Nat.le_trans (getPrecision_length _ _)
    (Nat.le_trans (getFieldWidth_length _ _ _) (getFlags_length {} fmt)))

theorem convertText_length (spec : Spec) (fmt : List UInt8) (args : List Arg) :
    (convertText spec fmt args).2.1.length ≤ fmt.length := by
  unfold convertText
  split
  · exact Nat.le_refl _
  · exact Nat.le_succ _
  · exact Nat.le_succ _
  · exact Nat.le_succ_of_le (List.dropWhile_sublist _).length_le
  · exact Nat.le_succ _
  · exact Nat.le_succ _
  · split_ifs <;> exact Nat.le_succ _

theorem formatTextFrom_fuel {fuel : Nat} {fmt : List UInt8} (fuel' : Nat) (args : List Arg)
    (h : fmt.length < fuel) (h' : fmt.length < fuel') :
    formatTextFrom fuel fmt args = formatTextFrom fuel' fmt args := by
  induction fuel generalizing fmt args fuel' with
  | zero => omega
  | succ fuel ih =>
    obtain ⟨k, rfl⟩ : ∃ k, fuel' = k + 1 := ⟨fuel' - 1, by omega⟩
    cases fmt with
    | nil => rfl
    | cons c fmt =>
      simp only [List.length_cons] at h h'
      simp only [formatTextFrom]
      split_ifs
      · rw [ih k args (by omega) (by omega)]
      · have hrest := Nat.le_trans (convertText_length (getSpec fmt args).1 (getSpec fmt args).2.1
          (getSpec fmt args).2.2) (getSpec_length fmt args)
        exact congrArg _ (ih k _ (Nat.lt_of_le_of_lt hrest (by omega))
          (Nat.lt_of_le_of_lt hrest (by omega)))

theorem formatText_literal {c : UInt8} (fmt : List UInt8) (args : List Arg) (h : c ≠ 37) :
    formatText (c :: fmt) args = c :: formatText fmt args := by
  simp only [formatText, List.length_cons]
  rw [formatTextFrom, if_pos h]

theorem formatText_conversion (fmt : List UInt8) (args : List Arg) :
    let (spec, rest, args') := getSpec fmt args
    let (t, rest, args') := convertText spec rest args'
    formatText (37 :: fmt) args = t ++ formatText rest args' := by
  have hrest := Nat.le_trans (convertText_length (getSpec fmt args).1 (getSpec fmt args).2.1
    (getSpec fmt args).2.2) (getSpec_length fmt args)
  simp only [formatText, List.length_cons]
  rw [formatTextFrom, if_neg (by simp)]
  exact congrArg _ (formatTextFrom_fuel _ _ (Nat.lt_succ_of_le hrest) (Nat.lt_succ_self _))

end NonOsLite.Stdio
