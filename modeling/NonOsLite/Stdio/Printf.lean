import NonOsLite.Libc.Div64

namespace NonOsLite.Stdio

structure Flags where
  zeropad : Bool := false
  sign : Bool := false
  plus : Bool := false
  space : Bool := false
  left : Bool := false
  small : Bool := false
  special : Bool := false
deriving DecidableEq, Repr

-- One variadic argument. A double stands for the text __dtostr renders for it.
inductive Arg where
  | word (v : Nat)
  | quad (v : Nat)
  | str (s : Option (List UInt8))
  | double (dtostr : Int → Int → Bool → List UInt8)

def vaWord : List Arg → Nat × List Arg
  | .word v :: args => (u32 v, args)
  | args => (0, args.drop 1)

def vaQuad : List Arg → Nat × List Arg
  | .quad v :: args => (u64 v, args)
  | args => (0, args.drop 1)

def vaStr : List Arg → Option (List UInt8) × List Arg
  | .str s :: args => (s, args)
  | args => (none, args.drop 1)

def vaDouble : List Arg → (Int → Int → Bool → List UInt8) × List Arg
  | .double f :: args => (f, args)
  | args => (fun _ _ _ => [], args.drop 1)

-- str and limit (the source's end) are 32-bit pointers; the stores are kept as offsets from buf.
structure Out where
  buf : Nat
  str : Nat
  limit : Nat
  writes : List (Nat × UInt8) := []
  console : List UInt8 := []
  stored : List Nat := []

def putByte (o : Out) (ptr : Nat) (c : UInt8) : Out :=
  { o with writes := o.writes ++ [(sub32 ptr o.buf, c)] }

-- A null str, also one that has come to the end of the address space, prints to the console.
def addch (o : Out) (c : UInt8) : Out :=
  if o.str = 0 then { o with console := o.console ++ if c = 10 then [13, c] else [c] }
  else
    let o := if o.str < o.limit then putByte o o.str c else o
    { o with str := u32 (o.str + 1) }

def pad (o : Out) (c : UInt8) (n : Nat) : Out := (List.replicate n c).foldl addch o

def skipAtoi : Nat → List UInt8 → Nat × List UInt8
  | i, [] => (i, [])
  | i, c :: s => if 48 ≤ c ∧ c ≤ 57 then skipAtoi (i * 10 + c.toNat - 48) s else (i, c :: s)

theorem skipAtoi_length (i : Nat) (s : List UInt8) : (skipAtoi i s).2.length ≤ s.length := by
  induction s generalizing i with
  | nil => simp [skipAtoi]
  | cons c s ih =>
    simp only [skipAtoi]
    split_ifs
    · exact Nat.le_succ_of_le (ih _)
    · exact Nat.le_refl _

def digitChar (d : Nat) : UInt8 := UInt8.ofNat (d + 48)

def putDecTrunc (q : Nat) : List UInt8 :=
  let d1 := q / 16 % 16
  let d2 := q / 256 % 16
  let d3 := q / 4096
  let d0 := 6 * (d3 + d2 + d1) + q % 16
  let q := d0 * 205 / 2048
  let c0 := digitChar (sub32 d0 (10 * q))
  let d1 := q + 9 * d3 + 5 * d2 + d1
  if d1 = 0 then [c0]
  else
    let q := d1 * 205 / 2048
    let c1 := digitChar (sub32 d1 (10 * q))
    let d2 := q + 2 * d2
    if d2 = 0 ∧ d3 = 0 then [c0, c1]
    else
      let q := d2 * 13 / 128
      let c2 := digitChar (sub32 d2 (10 * q))
      let d3 := q + 4 * d3
      if d3 = 0 then [c0, c1, c2]
      else
        let q := d3 * 205 / 2048
        let c3 := digitChar (sub32 d3 (10 * q))
        if q = 0 then [c0, c1, c2, c3] else [c0, c1, c2, c3, digitChar q]

def putDecFull (q : Nat) : List UInt8 :=
  let d1 := q / 16 % 16
  let d2 := q / 256 % 16
  let d3 := q / 4096
  let d0 := 6 * (d3 + d2 + d1) + q % 16
  let q := d0 * 205 / 2048
  let c0 := digitChar (sub32 d0 (10 * q))
  let d1 := q + 9 * d3 + 5 * d2 + d1
  let q := d1 * 205 / 2048
  let c1 := digitChar (sub32 d1 (10 * q))
  let d2 := q + 2 * d2
  let q := d2 * 13 / 128
  let c2 := digitChar (sub32 d2 (10 * q))
  let d3 := q + 4 * d3
  let q := d3 * 205 / 2048
  let c3 := digitChar (sub32 d3 (10 * q))
  [c0, c1, c2, c3, digitChar q]

def putDecFrom : Nat → Nat → List UInt8
  | 0, num => putDecTrunc (u32 num)
  | fuel + 1, num =>
      if num < 100000 then putDecTrunc (u32 num)
      else
        let (num, rem) := doDiv num 100000
        putDecFull rem ++ putDecFrom fuel num

-- A 64-bit num leaves the loop after at most three divisions by 100000.
def putDec (num : Nat) : List UInt8 := putDecFrom 4 num

def digits : List UInt8 := ascii "0123456789ABCDEF"

def baseDigit (locase : UInt8) (d : Nat) : UInt8 := digits.getD d 0 ||| locase

def putBase (mask shift : Nat) (locase : UInt8) : Nat → Nat → List UInt8
  | 0, _ => []
  | fuel + 1, num =>
      let rest := num / 2 ^ shift
      baseDigit locase (num % 256 &&& mask) :: if rest = 0 then [] else putBase mask shift locase fuel rest

def numberSign (type : Flags) (num : Nat) (size : Int) : UInt8 × Nat × Int :=
  if type.sign then
    if 9223372036854775808 ≤ num then (45, 18446744073709551616 - num, size - 1)
    else if type.plus then (43, num, size - 1)
    else if type.space then (32, num, size - 1)
    else (0, num, size)
  else (0, num, size)

def numberTmp (locase : UInt8) (base num : Nat) : List UInt8 :=
  if num = 0 then [48]
  else if base ≠ 10 then putBase (base - 1) (if base = 16 then 4 else 3) locase 64 num
  else putDec num

def number (o : Out) (num base : Nat) (size precision : Int) (type : Flags) : Out :=
  let needPfx := type.special && base != 10
  let locase : UInt8 := if type.small then 32 else 0
  let type := if type.left then { type with zeropad := false } else type
  let (sign, num, size) := numberSign type num size
  let size := if needPfx then if base = 16 then size - 1 - 1 else size - 1 else size
  let tmp := numberTmp locase base num
  let i : Int := tmp.length
  let precision := if precision < i then i else precision
  let size := size - precision
  -- while (--size >= 0) leaves size at -1, or one below a negative start
  let (o, size) :=
    if !(type.zeropad || type.left) then (pad o 32 size.toNat, min size 0 - 1) else (o, size)
  let o := if sign ≠ 0 then addch o sign else o
  let o :=
    if needPfx then
      let o := addch o 48
      if base = 16 then addch o (88 ||| locase) else o
    else o
  let (o, size) :=
    if !type.left then
      (pad o (if type.zeropad then 48 else 32) size.toNat, min size 0 - 1)
    else (o, size)
  let o := pad o 48 (precision - i).toNat
  let o := tmp.reverse.foldl addch o
  pad o 32 size.toNat

def strnlen (s : List UInt8) (n : Nat) : Nat := min (s.takeWhile (· ≠ 0)).length n

def string (o : Out) (s : Option (List UInt8)) (fieldWidth precision : Int) (flags : Flags) : Out :=
  let s := s.getD (ascii "<NULL>")
  let len : Int := strnlen s (toU32 precision)
  -- while (len < field_width--) leaves field_width one below the smaller of the two
  let (o, fieldWidth) :=
    if !flags.left then (pad o 32 (fieldWidth - len).toNat, min fieldWidth len - 1)
    else (o, fieldWidth)
  let o := (s.take len.toNat).foldl addch o
  pad o 32 (fieldWidth - len).toNat

def pointer (o : Out) (ptr : Nat) (fieldWidth precision : Int) (flags : Flags) : Out :=
  if ptr = 0 then string o (some (ascii "(null)")) fieldWidth precision flags
  else
    let flags := { flags with small := true }
    if fieldWidth = -1 then number o ptr 16 8 precision { flags with zeropad := true }
    else number o ptr 16 fieldWidth precision flags

def isalnum (c : UInt8) : Bool :=
  (97 ≤ c && c ≤ 122) || (65 ≤ c && c ≤ 90) || (48 ≤ c && c ≤ 57)

structure Spec where
  flags : Flags
  fieldWidth : Int
  precision : Int
  qualifier : Option UInt8

def getFlags : Flags → List UInt8 → Flags × List UInt8
  | flags, [] => (flags, [])
  | flags, c :: fmt =>
      if c = 45 then getFlags { flags with left := true } fmt
      else if c = 43 then getFlags { flags with plus := true } fmt
      else if c = 32 then getFlags { flags with space := true } fmt
      else if c = 35 then getFlags { flags with special := true } fmt
      else if c = 48 then getFlags { flags with zeropad := true } fmt
      else (flags, c :: fmt)

def getFieldWidth (flags : Flags) (fmt : List UInt8) (args : List Arg) :
    Int × Flags × List UInt8 × List Arg :=
  match fmt with
  | [] => (-1, flags, [], args)
  | c :: fmt =>
      if 48 ≤ c ∧ c ≤ 57 then
        let (w, fmt) := skipAtoi 0 (c :: fmt)
        (w, flags, fmt, args)
      else if c = 42 then
        let (w, args) := vaWord args
        let w := toInt32 w
        if w < 0 then (-w, { flags with left := true }, fmt, args) else (w, flags, fmt, args)
      else (-1, flags, c :: fmt, args)

def getPrecision (fmt : List UInt8) (args : List Arg) : Int × List UInt8 × List Arg :=
  match fmt with
  | 46 :: c :: fmt =>
      if 48 ≤ c ∧ c ≤ 57 then
        let (p, fmt) := skipAtoi 0 (c :: fmt)
        (p, fmt, args)
      else if c = 42 then
        let (p, args) := vaWord args
        (max (toInt32 p) 0, fmt, args)
      else (0, c :: fmt, args)
  | [46] => (0, [], args)
  | fmt => (-1, fmt, args)

def getQualifier (fmt : List UInt8) : Option UInt8 × List UInt8 :=
  match fmt with
  | [] => (none, [])
  | c :: fmt =>
      if c = 104 ∨ c = 108 ∨ c = 76 ∨ c = 90 ∨ c = 122 ∨ c = 116 then
        match fmt with
        | 108 :: fmt' => if c = 108 then (some 76, fmt') else (some c, fmt)
        | _ => (some c, fmt)
      else (none, c :: fmt)

def getSpec (fmt : List UInt8) (args : List Arg) : Spec × List UInt8 × List Arg :=
  let (flags, fmt) := getFlags {} fmt
  let (fieldWidth, flags, fmt, args) := getFieldWidth flags fmt args
  let (precision, fmt, args) := getPrecision fmt args
  let (qualifier, fmt) := getQualifier fmt
  (⟨flags, fieldWidth, precision, qualifier⟩, fmt, args)

def signExtend32 (v : Nat) : Nat := if 2147483648 ≤ v then v + 18446744069414584320 else v

def signExtend16 (v : Nat) : Nat := if 32768 ≤ v then v + 18446744073709486080 else v

def getNumber (qualifier : Option UInt8) (sign : Bool) (args : List Arg) : Nat × List Arg :=
  if qualifier = some 76 then vaQuad args
  else
    let (v, args) := vaWord args
    if qualifier = some 90 ∨ qualifier = some 122 then (v, args)
    -- ptrdiff_t is signed: the conversion to the 64-bit num extends its sign
    else if qualifier = some 116 then (signExtend32 v, args)
    else if qualifier = some 104 then (if sign then signExtend16 (u16 v) else u16 v, args)
    else (if sign then signExtend32 v else v, args)

def convertNumber (o : Out) (spec : Spec) (base : Nat) (flags : Flags) (args : List Arg) :
    Out × List Arg :=
  let (num, args) := getNumber spec.qualifier flags.sign args
  (number o num base spec.fieldWidth spec.precision flags, args)

def convert (o : Out) (spec : Spec) (fmt : List UInt8) (args : List Arg) :
    Out × List UInt8 × List Arg :=
  match fmt with
  | [] => (addch o 37, [], args)
  | 99 :: fmt =>
      let (c, args) := vaWord args
      let n := (spec.fieldWidth - 1).toNat
      let o := if !spec.flags.left then pad o 32 n else o
      let o := addch o (UInt8.ofNat c)
      -- after the left padding the counter is not positive any more
      (if !spec.flags.left then o else pad o 32 n, fmt, args)
  | 115 :: fmt =>
      let (s, args) := vaStr args
      (string o s spec.fieldWidth spec.precision spec.flags, fmt, args)
  | 112 :: fmt =>
      let (ptr, args) := vaWord args
      (pointer o ptr spec.fieldWidth spec.precision spec.flags, fmt.dropWhile isalnum, args)
  | 110 :: fmt => ({ o with stored := o.stored ++ [sub32 o.str o.buf] }, fmt, args.drop 1)
  | 37 :: fmt => (addch o 37, fmt, args)
  | c :: fmt =>
      if c = 102 ∨ c = 103 then
        let (dtostr, args) := vaDouble args
        let precision := if 0 < spec.precision then spec.precision else 1
        let tmp := (dtostr spec.fieldWidth precision (c == 103)).takeWhile (· ≠ 0)
        (tmp.foldl addch o, fmt, args)
      else if c = 111 then
        let (o, args) := convertNumber o spec 8 spec.flags args
        (o, fmt, args)
      else if c = 120 then
        let (o, args) := convertNumber o spec 16 { spec.flags with small := true } args
        (o, fmt, args)
      else if c = 88 then
        let (o, args) := convertNumber o spec 16 spec.flags args
        (o, fmt, args)
      else if c = 100 ∨ c = 105 then
        let (o, args) := convertNumber o spec 10 { spec.flags with sign := true } args
        (o, fmt, args)
      else if c = 117 then
        let (o, args) := convertNumber o spec 10 spec.flags args
        (o, fmt, args)
      else (addch (addch o 37) c, fmt, args)

def formatLoop : Nat → List UInt8 → List Arg → Out → Out
  | 0, _, _, o => o
  | _ + 1, [], _, o => o
  | fuel + 1, c :: fmt, args, o =>
      if c ≠ 37 then formatLoop fuel fmt args (addch o c)
      else
        let (spec, fmt, args) := getSpec fmt args
        let (o, fmt, args) := convert o spec fmt args
        formatLoop fuel fmt args o

-- The address space behind buf bounds end, and size with it.
def clampEnd (buf size : Nat) : Nat × Nat :=
  if u32 (buf + size) < buf then (4294967295, 4294967295 - buf) else (u32 (buf + size), size)

def vsnprintfInternal (buf size : Nat) (fmt : List UInt8) (args : List Arg) : Out × Int :=
  let (limit, size) := clampEnd buf size
  let o : Out := { buf := buf, str := buf, limit := limit }
  let o := formatLoop (fmt.length + 1) fmt args o
  let o :=
    if 0 < size then
      let o := addch o 0
      if o.limit < o.str then putByte o (sub32 o.limit 1) 0 else o
    else o
  let o := if o.str ≠ 0 then putByte o o.str 0 else o
  (o, toInt32 (sub32 o.str o.buf))

def intMax : Nat := 2147483647

def simpleSprintf (str : Nat) (fmt : List UInt8) (args : List Arg) : Out × Int :=
  vsnprintfInternal str intMax fmt args

def simpleSnprintf (str size : Nat) (fmt : List UInt8) (args : List Arg) : Out × Int :=
  vsnprintfInternal str size fmt args

end NonOsLite.Stdio
