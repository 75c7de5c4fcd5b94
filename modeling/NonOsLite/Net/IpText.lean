import NonOsLite.Libc.Strtol
import NonOsLite.Net.Oack
import NonOsLite.Net.Request

namespace NonOsLite
open ByteBuf Stdio

def ipToString (b : Buf) (off : Nat) (x : IPaddr) : Buf :=
  let x := ntohl x
  (sprintf b off (ascii "%d.%d.%d.%d")
    [.word (x >>> 24 &&& 0xff), .word (x >>> 16 &&& 0xff), .word (x >>> 8 &&& 0xff),
      .word (x >>> 0 &&& 0xff)]).1

def dotted (a b c d : List UInt8) : List UInt8 :=
  a ++ 46 :: (b ++ 46 :: (c ++ 46 :: d))

def ipOfBytes (a b c d : Nat) : IPaddr :=
  netReadIP (store (fun _ => 0) 0
    [UInt8.ofNat a, UInt8.ofNat b, UInt8.ofNat c, UInt8.ofNat d]) 0

variable {a b c d v : Numeral} {rest : List UInt8} {n : Nat} {x : IPaddr}

def decimalNumeral (n : Nat) : Numeral where
  digits := decimal n
  nonempty := by
    unfold decimal
    split
    · exact List.cons_ne_nil _ _
    · next h =>
      rw [ne_eq, List.reverse_eq_nil_iff, List.map_eq_nil_iff, Nat.digits_eq_nil_iff_eq_zero]
      exact h
  all_digits := decimal_digits

theorem charDigit_digitChar {d : Nat} (h : d < 10) : charDigit (digitChar d) = some d := by
  interval_cases d <;> decide

@[simp] theorem decimalNumeral_value (n : Nat) : (decimalNumeral n).value = n := by
  simp only [Numeral.value, decimalNumeral]
  rw [foldl_digitValue decimal_digits, decimal]
  split
  · next h =>
    rw [h]
    rfl
  · have hchar {d : Nat} (hd : d ∈ Nat.digits 10 n) : charDigit (digitChar d) = some d :=
      charDigit_digitChar (Nat.digits_lt_base (by decide) hd)
    rw [Positional.value_map_reverse (fun d hd => hchar hd), Nat.ofDigits_digits]

theorem strtoul_numeral_append (v : Numeral) (h : ∀ c ∈ rest.head?, isdigit c = false) :
    strtoul (v.digits ++ rest) 10 = (u32 v.value, rest) := by
  have hread := strtoulDec_eq 0 (v.digits ++ rest)
  rw [u32_zero] at hread
  have htake : (v.digits ++ rest).takeWhile isdigit = v.digits := by
    rw [List.takeWhile_append_of_pos v.all_digits]
    cases rest with
    | nil => simp
    | cons c rest => simp [h c rfl]
  have hdrop : (v.digits ++ rest).dropWhile isdigit = rest := by
    rw [List.dropWhile_append_of_pos v.all_digits]
    cases rest with
    | nil => simp
    | cons c rest => simp [h c rfl]
  rw [htake, hdrop] at hread
  simp [strtoul, hread, Numeral.value]

theorem stringToIpFrom_numeral {i addr : Nat} (hv : v.value < 256)
    (h : ∀ c ∈ rest.head?, isdigit c = false) :
    stringToIpFrom (i + 1) addr (v.digits ++ rest) =
      stringToIpFrom i (u32 (addr * 256) + v.value) (rest.drop 1) := by
  have hval : u32 v.value % 256 = v.value := by
    simp only [u32]
    omega
  rw [stringToIpFrom, strtoul_numeral_append v h]
  simp only [hval]

theorem swab16_bytes {a b : Nat} (ha : a < 256) (hb : b < 256) :
    swab16 (a * 256 + b) = a + 256 * b := by
  simp only [swab16]
  omega

theorem swab32_bytes {a b c d : Nat} (ha : a < 256) (hb : b < 256) (hc : c < 256) (hd : d < 256) :
    swab32 (((a * 256 + b) * 256 + c) * 256 + d) = a + 256 * b + 65536 * (c + 256 * d) := by
  have hlow : (((a * 256 + b) * 256 + c) * 256 + d) % 65536 = c * 256 + d := by omega
  have hhigh : (((a * 256 + b) * 256 + c) * 256 + d) / 65536 % 65536 = a * 256 + b := by omega
  rw [swab32, hlow, hhigh, swab16_bytes hc hd, swab16_bytes ha hb]
  omega

theorem ipOfBytes_eq {a b c d : Nat} (ha : a < 256) (hb : b < 256) (hc : c < 256) (hd : d < 256) :
    ipOfBytes a b c d = htonl (((a * 256 + b) * 256 + c) * 256 + d) := by
  have hbytes : le32 (store (fun _ => 0) 0
      [UInt8.ofNat a, UInt8.ofNat b, UInt8.ofNat c, UInt8.ofNat d]) 0 =
      a + 256 * b + 65536 * (c + 256 * d) := by
    simp only [le32, le16, store, List.length_cons, List.length_nil, Nat.reduceAdd, Nat.zero_le,
      Nat.zero_add, Nat.sub_zero, Nat.reduceLT, and_self, if_true, List.getD_cons_zero,
      List.getD_cons_succ, UInt8.toNat_ofNat']
    omega
  rw [ipOfBytes, netReadIP, hbytes, htonl, swab32_bytes ha hb hc hd]

theorem stringToIp_dotted (ha : a.value < 256) (hb : b.value < 256) (hc : c.value < 256)
    (hd : d.value < 256) (h : ∀ c ∈ rest.head?, isdigit c = false) :
    stringToIp (dotted a.digits b.digits c.digits d.digits ++ rest) =
      ipOfBytes a.value b.value c.value d.value := by
  have hdot (s : List UInt8) : ∀ c ∈ (46 :: s).head?, isdigit c = false := by
    intro c hc
    rw [List.head?_cons, Option.mem_some_iff] at hc
    rw [← hc]
    decide
  have hsplit : dotted a.digits b.digits c.digits d.digits ++ rest =
      a.digits ++ 46 :: (b.digits ++ 46 :: (c.digits ++ 46 :: (d.digits ++ rest))) := by
    simp only [dotted, List.append_assoc, List.cons_append]
  rw [stringToIp, hsplit, stringToIpFrom_numeral ha (hdot _), List.drop_one, List.tail_cons,
    stringToIpFrom_numeral hb (hdot _), List.drop_one, List.tail_cons,
    stringToIpFrom_numeral hc (hdot _), List.drop_one, List.tail_cons,
    stringToIpFrom_numeral hd h, stringToIpFrom, ipOfBytes_eq ha hb hc hd]
  congr 1
  simp only [u32]
  omega

theorem formatText_ip {a b c d : Nat} (ha : a < 256) (hb : b < 256) (hc : c < 256)
    (hd : d < 256) :
    formatText (ascii "%d.%d.%d.%d") [.word a, .word b, .word c, .word d] =
      dotted (decimal a) (decimal b) (decimal c) (decimal d) := by
  have hfmt : ascii "%d.%d.%d.%d" = [37, 100, 46, 37, 100, 46, 37, 100, 46, 37, 100] := by decide
  have hdot (fmt : List UInt8) (args : List Arg) :
      formatText (46 :: fmt) args = 46 :: formatText fmt args :=
    formatText_literal fmt args (by decide)
  rw [hfmt, formatText_d (by omega), hdot, formatText_d (by omega), hdot, formatText_d (by omega),
    hdot, formatText_d (by omega)]
  simp [dotted, formatText, formatTextFrom]

theorem ipOfBytes_htonl (h : n < 4294967296) :
    ipOfBytes (n >>> 24 &&& 0xff) (n >>> 16 &&& 0xff) (n >>> 8 &&& 0xff) (n >>> 0 &&& 0xff) =
      htonl n := by
  have hbyte (m : Nat) : m &&& 0xff = m % 256 := Nat.and_two_pow_sub_one_eq_mod m 8
  have hlt (m : Nat) : m % 256 < 256 := Nat.mod_lt m (by decide)
  have hpack : ((n / 16777216 % 256 * 256 + n / 65536 % 256) * 256 + n / 256 % 256) * 256 + n % 256 =
      n := by omega
  simp only [Nat.shiftRight_eq_div_pow, hbyte, Nat.reducePow, Nat.div_one]
  rw [ipOfBytes_eq (hlt _) (hlt _) (hlt _) (hlt _), hpack]

theorem swab32_swab32 (h : n < 4294967296) : swab32 (swab32 n) = n := by
  have hlt (m : Nat) : m % 256 < 256 := Nat.mod_lt m (by decide)
  have hpack : ((n / 16777216 % 256 * 256 + n / 65536 % 256) * 256 + n / 256 % 256) * 256 + n % 256 =
      n := by omega
  have hfirst := swab32_bytes (hlt (n / 16777216)) (hlt (n / 65536)) (hlt (n / 256)) (hlt n)
  have hsecond := swab32_bytes (hlt n) (hlt (n / 256)) (hlt (n / 65536)) (hlt (n / 16777216))
  rw [hpack] at hfirst
  have hreverse : swab32 n =
      ((n % 256 * 256 + n / 256 % 256) * 256 + n / 65536 % 256) * 256 + n / 16777216 % 256 := by
    rw [hfirst]
    ring
  rw [hreverse, hsecond]
  omega

theorem htonl_ntohl (x : IPaddr) : htonl (ntohl x) = x := by
  rw [htonl, ntohl, swab32_swab32 x.toNat_lt, UInt32.ofNat_toNat]

theorem ntohl_lt (x : IPaddr) : ntohl x < 4294967296 := by
  have hhalf (m : Nat) : swab16 m < 65536 := by
    simp only [swab16]
    omega
  have hlow := hhalf (x.toNat % 65536)
  have hhigh := hhalf (x.toNat / 65536 % 65536)
  simp only [ntohl, swab32]
  omega

theorem cString_ipToString (b : Buf) (off : Nat) (x : IPaddr) :
    cString (shift (ipToString b off x) off) =
      dotted (decimal (ntohl x >>> 24 &&& 0xff)) (decimal (ntohl x >>> 16 &&& 0xff))
        (decimal (ntohl x >>> 8 &&& 0xff)) (decimal (ntohl x >>> 0 &&& 0xff)) := by
  have hbyte (n : Nat) : n &&& 0xff < 256 := Nat.lt_of_le_of_lt Nat.and_le_right (by decide)
  have htext := formatText_ip (hbyte (ntohl x >>> 24)) (hbyte (ntohl x >>> 16))
    (hbyte (ntohl x >>> 8)) (hbyte (ntohl x >>> 0))
  have hlen (n : Nat) : (decimal (n &&& 0xff)).length ≤ 10 :=
    decimal_length (Nat.lt_trans (hbyte n) (by decide))
  have h24 := hlen (ntohl x >>> 24)
  have h16 := hlen (ntohl x >>> 16)
  have h8 := hlen (ntohl x >>> 8)
  have h0 := hlen (ntohl x >>> 0)
  generalize hs : dotted (decimal (ntohl x >>> 24 &&& 0xff)) (decimal (ntohl x >>> 16 &&& 0xff))
    (decimal (ntohl x >>> 8 &&& 0xff)) (decimal (ntohl x >>> 0 &&& 0xff)) = s at htext
  have hlength : s.length ≤ 43 := by
    rw [← hs]
    simp only [dotted, List.length_append, List.length_cons]
    omega
  have hnul : (0 : UInt8) ∉ s := by
    rw [← hs]
    simp [dotted, decimal_zero_notMem]
  have hprint := sprintf_eq b off (ascii "%d.%d.%d.%d")
    [.word (ntohl x >>> 24 &&& 0xff), .word (ntohl x >>> 16 &&& 0xff),
      .word (ntohl x >>> 8 &&& 0xff), .word (ntohl x >>> 0 &&& 0xff)] (by rw [htext]; omega)
  have hstart : StartsWith (shift (ipToString b off x) off) (s ++ [0] ++ [0]) := by
    rw [ipToString, hprint, htext, shift_store_self]
    have hstored := startsWith_store (shift b off) (s ++ [0] ++ [0])
    rwa [List.append_assoc] at hstored ⊢
  exact cStringFrom_eq (startsWith_append.mp hstart).1 hnul (by omega)

theorem stringToIp_ipToString (b : Buf) (off : Nat) (x : IPaddr) :
    stringToIp (cString (shift (ipToString b off x) off)) = x := by
  have hbyte (n : Nat) : (decimalNumeral (n &&& 0xff)).value < 256 := by
    rw [decimalNumeral_value]
    exact Nat.lt_of_le_of_lt Nat.and_le_right (by decide)
  have hend : ∀ c ∈ ([] : List UInt8).head?, isdigit c = false := fun c hc => by cases hc
  have hread := stringToIp_dotted (hbyte (ntohl x >>> 24)) (hbyte (ntohl x >>> 16))
    (hbyte (ntohl x >>> 8)) (hbyte (ntohl x >>> 0)) hend
  rw [List.append_nil] at hread
  simp only [decimalNumeral_value] at hread
  rw [cString_ipToString]
  refine hread.trans ?_
  rw [ipOfBytes_htonl (ntohl_lt x), htonl_ntohl]

theorem ip_text_round_trip :
    (∀ (b : Buf) (off : Nat) (x : IPaddr),
      stringToIp (cString (shift (ipToString b off x) off)) = x) ∧
    ∀ (a b c d : Numeral) (rest : List UInt8), a.value < 256 → b.value < 256 → c.value < 256 →
      d.value < 256 → (∀ c ∈ rest.head?, isdigit c = false) →
      stringToIp (dotted a.digits b.digits c.digits d.digits ++ rest) =
        ipOfBytes a.value b.value c.value d.value :=
  ⟨stringToIp_ipToString, fun _ _ _ _ _ => stringToIp_dotted⟩

theorem ip_text_round_trip_loopback :
    stringToIp (cString (shift (ipToString (fun _ => 0) 7 0x0100007f) 7)) = 0x0100007f ∧
      stringToIp (dotted (ascii "010") (ascii "0") (ascii "0") (ascii "128") ++ ascii ":69") =
        ipOfBytes 10 0 0 128 := by
  obtain ⟨hround, hread⟩ := ip_text_round_trip
  exact ⟨hround _ 7 0x0100007f,
    hread ⟨ascii "010", by decide +kernel, by decide +kernel⟩
      ⟨ascii "0", by decide +kernel, by decide +kernel⟩
      ⟨ascii "0", by decide +kernel, by decide +kernel⟩
      ⟨ascii "128", by decide +kernel, by decide +kernel⟩ (ascii ":69") (by decide +kernel)
      (by decide +kernel) (by decide +kernel) (by decide +kernel) (by decide +kernel)⟩

end NonOsLite
