import Mathlib.Data.List.GetD
import NonOsLite.Lib.Terminated
import NonOsLite.Net.Effects
import NonOsLite.Stdio.Snprintf

namespace NonOsLite
open ByteBuf BoundedSink Terminated Stdio

structure Request where
  filename : List UInt8
  mode : List UInt8
  options : List (List UInt8 × List UInt8)
deriving DecidableEq

-- A read request: the opcode, then NUL-terminated fields up to the very end, the options in pairs.
def parseRequest (payload : List UInt8) : Option Request :=
  let fields := decode 0 (payload.drop 2)
  if payload.take 2 = [0, 1] ∧ fields.2 = [] ∧ 2 ≤ fields.1.length ∧ fields.1.length % 2 = 0 then
    some ⟨fields.1.getD 0 [], fields.1.getD 1 [], pairs (fields.1.drop 2)⟩
  else none

def decimal (n : Nat) : List UInt8 :=
  if n = 0 then [48] else ((Nat.digits 10 n).map digitChar).reverse

def requestPayload (timeoutMSecs blkSizeOption : Nat) (filename : List UInt8) (b : Buf) (xp : Nat) :
    List UInt8 :=
  let (b, len) := tftpRequest timeoutMSecs blkSizeOption filename b xp
  bytes (shift b xp) len

def requestFields (timeoutMSecs blkSizeOption : Nat) (filename : List UInt8) : List (List UInt8) :=
  [filename, ascii "octet", ascii "timeout", decimal (timeoutMSecs / 1000), ascii "blksize",
    decimal blkSizeOption]

def readRequest (timeoutMSecs blkSizeOption : Nat) (filename : List UInt8) : Request where
  filename := filename
  mode := ascii "octet"
  options := [(ascii "timeout", decimal (timeoutMSecs / 1000)),
    (ascii "blksize", decimal blkSizeOption)]

variable {t : Tftp} {b p : Buf} {n off xp timeoutMSecs blkSizeOption : Nat}
  {filename s bs : List UInt8}

theorem tftpPacket_request (h : t.tftpState = .sendRrq) :
    tftpPacket t b xp =
      tftpRequest tftpTimeoutMSecs tftpBlkSizeOption t.tftpFilename b xp := by
  simp only [tftpPacket, h]

theorem mapFrom_store (b : Buf) (off : Nat) (bs : List UInt8) :
    mapFrom b off (fun d => store d 0 bs) = store b off bs := by
  funext i
  rcases Nat.lt_or_ge i off with hlt | hge
  · rw [mapFrom_of_lt hlt, store_of_lt hlt]
  · obtain ⟨k, rfl⟩ := Nat.exists_eq_add_of_le hge
    have hshift : shift (mapFrom b off (fun d => store d 0 bs)) off = store (shift b off) 0 bs :=
      shift_mapFrom
    exact (congrFun hshift k).trans (congrFun (shift_store_self b off bs) k).symm

theorem startsWith_extend (h : StartsWith (shift b xp) s) (bs : List UInt8) :
    StartsWith (shift (store b (xp + s.length) bs) xp) (s ++ bs) := by
  rw [startsWith_append]
  constructor
  · refine h.congr ?_
    intro i hi
    exact store_of_lt (Nat.add_lt_add_left hi xp)
  · rw [shift_shift]
    exact (shift_store_self b (xp + s.length) bs) ▸ startsWith_store _ bs

theorem applyWrites_store (d : Buf) (bs : List UInt8) :
    applyWrites d (stamp 0 bs) = store d 0 bs := by
  funext i
  rw [applyWrites_stamp, if_pos (Nat.zero_le i), Nat.sub_zero, store, Nat.zero_add, Nat.sub_zero]
  by_cases hi : i < bs.length
  · rw [if_pos ⟨Nat.zero_le i, hi⟩, List.getD_eq_getElem _ _ hi, List.getElem?_eq_getElem hi]
    rfl
  · rw [if_neg (fun h => hi h.2), List.getElem?_eq_none (Nat.le_of_not_lt hi)]
    rfl

-- sprintf stores its text and two NULs, and counts the first of them.
theorem sprintf_eq (b : Buf) (off : Nat) (fmt : List UInt8) (args : List Arg)
    (h : (formatText fmt args).length < 2147483646) :
    sprintf b off fmt args = (store b off (formatText fmt args ++ [0, 0]),
      (((formatText fmt args).length + 1 : Nat) : Int)) := by
  have hclamp : (clampEnd strAddr intMax).2 = 2147483647 := by decide
  have hroom : 0 < (clampEnd strAddr intMax).2 := by rw [hclamp]; decide
  have hfit : strAddr + (formatText fmt args).length + 1 < 4294967296 := by
    simp only [strAddr]
    omega
  have hw := vsnprintf_room fmt args (show 0 < strAddr by decide) (by decide) hfit hroom
  have hr := vsnprintf_count fmt args (show 0 < strAddr by decide) (by decide) (by omega) hroom
  rw [hclamp] at hw
  have hwrites (d : Buf) : applyWrites d (simpleSprintf strAddr fmt args).1.writes =
      store d 0 (formatText fmt args ++ [0, 0]) := by
    have htwo : formatText fmt args ++ [0, 0] = formatText fmt args ++ [0] ++ [0] := by simp
    rw [simpleSprintf, hw, if_neg (by omega), List.append_nil,
      List.take_of_length_le (by simp; omega), ← applyWrites_store, htwo,
      stamp_append _ (formatText fmt args ++ [0]), Nat.zero_add, List.length_append,
      List.length_singleton]
    rfl
  have hcount : toInt32 ((formatText fmt args).length + 1) =
      (((formatText fmt args).length + 1 : Nat) : Int) := by
    simp only [toInt32, u32]
    omega
  simp only [sprintf, hwrites, mapFrom_store]
  rw [simpleSprintf, hr, hcount]

theorem digitsText_ten (flags : Flags) (n : Nat) : digitsText flags 10 n = decimal n := by
  unfold digitsText decimal
  split
  · rfl
  · refine congrArg List.reverse (List.map_congr_left ?_)
    intro d hd
    exact baseDigit_ten (Nat.digits_lt_base (by decide) hd)

theorem numberText_plain (flags : Flags) (hn : n < 9223372036854775808)
    (h : flags = {} ∨ flags = { sign := true }) :
    numberText n 10 (-1) (-1) flags = decimal n := by
  have hmag : ¬9223372036854775808 ≤ n := Nat.not_le.mpr hn
  rcases h with rfl | rfl
  · simp [numberText, signText, prefixText, magnitude, digitsText_ten]
  · simp [numberText, signText, prefixText, magnitude, digitsText_ten, hmag]

theorem formatText_lu (h : n < 4294967296) : formatText (ascii "%lu") [.word n] = decimal n := by
  have hfmt : ascii "%lu" = [37, 108, 117] := by decide
  have hconv := formatText_conversion [108, 117] [.word n]
  have hspec : getSpec [108, 117] [.word n] = (⟨{}, -1, -1, some 108⟩, [117], [.word n]) := rfl
  have htext : convertText ⟨{}, -1, -1, some 108⟩ [117] [.word n] = (decimal n, [], []) := by
    have hplain := numberText_plain {} (show n < 9223372036854775808 by omega) (Or.inl rfl)
    simp [convertText, numberArgText, getNumber, vaWord, u32_of_lt h, hplain]
  rw [hspec] at hconv
  simp only [htext] at hconv
  rw [hfmt, hconv]
  exact List.append_nil _

theorem formatText_d (h : n < 2147483648) (fmt : List UInt8) (args : List Arg) :
    formatText (37 :: 100 :: fmt) (.word n :: args) = decimal n ++ formatText fmt args := by
  have hconv := formatText_conversion (100 :: fmt) (.word n :: args)
  have hspec : getSpec (100 :: fmt) (.word n :: args) =
      (⟨{}, -1, -1, none⟩, 100 :: fmt, .word n :: args) := rfl
  have hplain :=
    numberText_plain { sign := true } (show n < 9223372036854775808 by omega) (Or.inr rfl)
  have hsign : ¬2147483648 ≤ n := Nat.not_le.mpr h
  have htext : convertText ⟨{}, -1, -1, none⟩ (100 :: fmt) (.word n :: args) =
      (decimal n, fmt, args) := by
    simp [convertText, numberArgText, getNumber, vaWord, u32_of_lt (show n < 4294967296 by omega),
      signExtend32, hsign, hplain]
  rw [hspec] at hconv
  simp only [htext] at hconv
  exact hconv

theorem formatText_blksize (h : n < 65536) :
    formatText (ascii "blksize%c%d%c") [.word 0, .word n, .word 0] =
      ascii "blksize" ++ [0] ++ decimal n ++ [0] := by
  have hfmt : ascii "blksize%c%d%c" =
      [98, 108, 107, 115, 105, 122, 101, 37, 99, 37, 100, 37, 99] := by decide
  have hname : ascii "blksize" = [98, 108, 107, 115, 105, 122, 101] := by decide
  have hchar (fmt : List UInt8) (args : List Arg) :
      formatText (37 :: 99 :: fmt) (.word 0 :: args) = 0 :: formatText fmt args :=
    formatText_conversion (99 :: fmt) (.word 0 :: args)
  rw [hfmt, hname]
  repeat rw [formatText_literal _ _ (by decide)]
  rw [hchar, formatText_d (by omega), hchar]
  simp [formatText, formatTextFrom]

theorem decimal_digits : ∀ c ∈ decimal n, isdigit c = true := by
  intro c hc
  unfold decimal at hc
  split at hc
  · rw [List.mem_singleton.mp hc]
    decide
  · obtain ⟨d, hd, rfl⟩ := List.mem_map.mp (List.mem_reverse.mp hc)
    have hlt : d < 10 := Nat.digits_lt_base (by decide) hd
    interval_cases d <;> decide

theorem decimal_zero_notMem : (0 : UInt8) ∉ decimal n :=
  fun h => absurd (decimal_digits _ h) (by decide)

theorem decimal_length (h : n < 4294967296) : (decimal n).length ≤ 10 := by
  unfold decimal
  split
  · decide
  · rw [List.length_reverse, List.length_map, Nat.digits_length_le_iff (by decide)]
    omega

theorem startsWith_strcpy (h : StartsWith (shift b xp) s) (bs : List UInt8)
    (hoff : off = xp + s.length) : StartsWith (shift (strcpy b off bs) xp) (s ++ (bs ++ [0])) :=
  hoff ▸ startsWith_extend h _

theorem strlen_eq (h : StartsWith (shift b off) (s ++ [0])) (hs : 0 ∉ s)
    (hlen : s.length < 4294967296) : strlen b off = s.length := by
  rw [strlen, cString, cStringFrom_eq h hs hlen]

theorem sprintf_decimal (h : StartsWith (shift b xp) s) (hn : n < 4294967296)
    (hoff : off = xp + s.length) :
    ∃ b' m, sprintf b off (ascii "%lu") [.word n] = (b', m) ∧
      StartsWith (shift b' xp) (s ++ (decimal n ++ [0])) ∧ strlen b' off = (decimal n).length := by
  subst hoff
  have hlen := decimal_length hn
  have htext := formatText_lu hn
  refine ⟨_, _, sprintf_eq _ _ _ _ (by rw [htext]; omega), ?_⟩
  have hnul : decimal n ++ [0, 0] = decimal n ++ [0] ++ [0] := by simp
  rw [htext, hnul]
  constructor
  · have hext := startsWith_extend h (decimal n ++ [0] ++ [0])
    rw [← List.append_assoc] at hext
    exact (startsWith_append.mp hext).1
  · have hstored : StartsWith (shift (store b (xp + s.length) (decimal n ++ [0] ++ [0]))
        (xp + s.length)) (decimal n ++ [0] ++ [0]) :=
      (shift_store_self b (xp + s.length) _) ▸ startsWith_store _ _
    exact strlen_eq (startsWith_append.mp hstored).1 decimal_zero_notMem (by omega)

theorem sprintf_blksize (h : StartsWith (shift b xp) s) (hn : n < 65536)
    (hoff : off = xp + s.length) :
    ∃ b', sprintf b off (ascii "blksize%c%d%c") [.word 0, .word n, .word 0] =
        (b', (((ascii "blksize" ++ [0] ++ decimal n ++ [0] ++ [0]).length : Nat) : Int)) ∧
      StartsWith (shift b' xp) (s ++ (ascii "blksize" ++ [0] ++ decimal n ++ [0] ++ [0])) := by
  subst hoff
  have hname : (ascii "blksize").length = 7 := rfl
  have hlen := decimal_length (n := n) (by omega)
  have htext := formatText_blksize hn
  have hprint := sprintf_eq b (xp + s.length) (ascii "blksize%c%d%c") [.word 0, .word n, .word 0]
    (by rw [htext]; simp only [List.length_append, List.length_singleton, hname]; omega)
  have hnul : ascii "blksize" ++ [0] ++ decimal n ++ [0] ++ [0, 0] =
      ascii "blksize" ++ [0] ++ decimal n ++ [0] ++ [0] ++ [0] := by simp
  have hcount : (ascii "blksize" ++ [0] ++ decimal n ++ [0]).length + 1 =
      (ascii "blksize" ++ [0] ++ decimal n ++ [0] ++ [0]).length := by
    simp only [List.length_append, List.length_singleton]
  rw [htext, hnul, hcount] at hprint
  refine ⟨_, hprint, ?_⟩
  have hext := startsWith_extend h (ascii "blksize" ++ [0] ++ decimal n ++ [0] ++ [0] ++ [0])
  rw [← List.append_assoc] at hext
  exact (startsWith_append.mp hext).1

theorem requestPayload_eq (hms : timeoutMSecs < 4294967296) (hblk : blkSizeOption < 65536)
    (filename : List UInt8) (b : Buf) (xp : Nat) :
    requestPayload timeoutMSecs blkSizeOption filename b xp =
      [0, 1] ++ encode 0 (requestFields timeoutMSecs blkSizeOption filename) ++ [0] := by
  have hseconds : timeoutMSecs / 1000 < 4294967296 := Nat.lt_of_le_of_lt (Nat.div_le_self _ _) hms
  have hoctet : (ascii "octet").length = 5 := rfl
  have htimeout : (ascii "timeout").length = 7 := rfl
  have h1 : StartsWith (shift (putBe16 b xp tftpRRQ) xp) [0, 1] :=
    startsWith_extend (b := b) (s := []) rfl _
  have h2 := startsWith_strcpy h1 filename (show xp + 2 = _ from rfl)
  have h3 := startsWith_strcpy h2 (ascii "octet")
    (show xp + 2 + filename.length + 1 = _ by
      simp only [List.length_append, List.length_cons, List.length_nil]; omega)
  have h4 := startsWith_strcpy h3 (ascii "timeout")
    (show xp + 2 + filename.length + 1 + 5 + 1 = _ by
      simp only [List.length_append, List.length_cons, List.length_nil, hoctet]; omega)
  obtain ⟨b₅, m, htimeoutPrinted, h5, hstrlen⟩ := sprintf_decimal h4 hseconds
    (show xp + 2 + filename.length + 1 + 5 + 1 + 7 + 1 = _ by
      simp only [List.length_append, List.length_cons, List.length_nil, hoctet, htimeout]; omega)
  obtain ⟨b₆, hblksizePrinted, h6⟩ := sprintf_blksize h5 hblk
    (show xp + 2 + filename.length + 1 + 5 + 1 + 7 + 1 +
        (decimal (timeoutMSecs / 1000)).length + 1 = _ by
      simp only [List.length_append, List.length_cons, List.length_nil, hoctet, htimeout]; omega)
  have htext : [0, 1] ++ (filename ++ [0]) ++ (ascii "octet" ++ [0]) ++ (ascii "timeout" ++ [0]) ++
      (decimal (timeoutMSecs / 1000) ++ [0]) ++
      (ascii "blksize" ++ [0] ++ decimal blkSizeOption ++ [0] ++ [0]) =
      [0, 1] ++ encode 0 (requestFields timeoutMSecs blkSizeOption filename) ++ [0] := by
    simp [encode, requestFields]
  have hlength := congrArg List.length htext
  rw [htext] at h6
  refine Eq.trans ?_ h6
  simp only [requestPayload, tftpRequest, htimeoutPrinted, hstrlen, hblksizePrinted]
  congr 1
  simp only [List.length_append, List.length_cons, List.length_nil, hoctet, htimeout,
    Int.toNat_natCast] at hlength ⊢
  omega

theorem requestFields_nul (timeoutMSecs blkSizeOption : Nat) (h : (0 : UInt8) ∉ filename) :
    ∀ f ∈ requestFields timeoutMSecs blkSizeOption filename, (0 : UInt8) ∉ f := by
  intro f hf
  simp only [requestFields, List.mem_cons, List.not_mem_nil, or_false] at hf
  rcases hf with rfl | rfl | rfl | rfl | rfl | rfl
  · exact h
  · decide
  · decide
  · exact decimal_zero_notMem
  · decide
  · exact decimal_zero_notMem

-- The NUL behind the last option starts one field too many.
theorem read_request_rejected (timeoutMSecs blkSizeOption : Nat) (filename : List UInt8) (b : Buf)
    (xp : Nat) (hms : timeoutMSecs < 4294967296) (hblk : blkSizeOption < 65536)
    (hname : (0 : UInt8) ∉ filename) :
    parseRequest (requestPayload timeoutMSecs blkSizeOption filename b xp) = none ∧
      parseRequest (requestPayload timeoutMSecs blkSizeOption filename b xp).dropLast =
        some (readRequest timeoutMSecs blkSizeOption filename) := by
  have hnul := requestFields_nul timeoutMSecs blkSizeOption hname
  have hfull := decode_encode hnul []
  have hlong := decode_encode hnul [0]
  have hrest : decode (0 : UInt8) [0] = ([[]], []) := by decide
  rw [requestPayload_eq hms hblk]
  constructor
  · rw [parseRequest, List.append_assoc]
    simp only [List.drop_left', List.take_left', List.length_cons, List.length_nil, hlong, hrest]
    refine if_neg ?_
    rintro ⟨-, -, -, hodd⟩
    simp [requestFields] at hodd
  · rw [List.dropLast_concat, parseRequest]
    rw [List.append_nil] at hfull
    simp only [List.drop_left', List.take_left', List.length_cons, List.length_nil, hfull]
    exact if_pos ⟨trivial, rfl, by simp [requestFields], by simp [requestFields, decode]⟩

theorem read_request_rejected_zImage :
    parseRequest (requestPayload 5000 1468 (ascii "zImage") (fun _ => 0) 42) = none ∧
      parseRequest (requestPayload 5000 1468 (ascii "zImage") (fun _ => 0) 42).dropLast =
        some (readRequest 5000 1468 (ascii "zImage")) :=
  read_request_rejected 5000 1468 (ascii "zImage") (fun _ => 0) 42 (by decide) (by decide)
    (by decide)

theorem read_request_extra_nul : ¬∀ (timeoutMSecs blkSizeOption : Nat) (filename : List UInt8)
    (b : Buf) (xp : Nat), timeoutMSecs < 4294967296 → blkSizeOption < 65536 →
    1 ≤ filename.length → filename.length ≤ 127 → (0 : UInt8) ∉ filename →
    parseRequest (requestPayload timeoutMSecs blkSizeOption filename b xp) =
      some (readRequest timeoutMSecs blkSizeOption filename) := by
  intro h
  have hparse := h 5000 1468 (ascii "zImage") (fun _ => 0) 42 (by decide) (by decide) (by decide)
    (by decide) (by decide)
  rw [requestPayload_eq (by decide) (by decide)] at hparse
  exact absurd hparse (by decide +kernel)

end NonOsLite
