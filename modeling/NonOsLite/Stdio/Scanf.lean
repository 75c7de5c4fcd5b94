import NonOsLite.Libc.Strtol
import NonOsLite.Stdio.Printf

namespace NonOsLite.Scanf
open Stdio

def isspace (c : UInt8) : Bool := c == 32

inductive Stored where
  | int (bits : Nat) (value : Nat)
  | chars (bytes : List UInt8)
  | position (n : Nat)
deriving DecidableEq, Repr

-- str and next are positions in the input; next is none until it is first assigned.
structure Scan where
  fmt : List UInt8
  str : Nat
  next : Option Nat
  num : Nat
  stored : List Stored
deriving DecidableEq, Repr

-- An integer conversion. The width is the number skip_atoi reads, before it is cut to 16 bits.
structure IntConv where
  base : Nat
  isSign : Bool
  qualifier : UInt8
  width : Option Nat
  base_mem : base ∈ [0, 8, 10, 16]

-- How the loop ends: a break, a return, or the use of next before it is assigned.
inductive Exit where
  | stop (s : Scan)
  | ret (s : Scan)
  | undefined (s : Scan)

inductive Round where
  | again (s : Scan)
  | exit (e : Exit)

inductive Directive where
  | again (s : Scan)
  | stop (s : Scan)
  | ret (s : Scan)
  | integer (conv : IntConv) (s : Scan)

variable (buf : List UInt8)

def charAt (i : Nat) : UInt8 := buf.getD i 0

def skipSpaces (i : Nat) : Nat := i + ((buf.drop i).takeWhile isspace).length

-- field_width is an int16_t, and -1 when the format gives none.
def fieldWidth : Option Nat → Int
  | none => -1
  | some w => if w % 65536 < 32768 then (w % 65536 : Nat) else ((w % 65536 : Nat) : Int) - 65536

def getWidth (fmt : List UInt8) : Option Nat × List UInt8 :=
  if fmt.head?.any isdigit then (some (skipAtoi 0 fmt).1, (skipAtoi 0 fmt).2) else (none, fmt)

def noQualifier : UInt8 := 255

def getQualifier (fmt : List UInt8) : UInt8 × List UInt8 :=
  match fmt with
  | [] => (noQualifier, [])
  | c :: fmt =>
      if c = 104 ∨ tolower c = 108 ∨ tolower c = 122 then
        if fmt.head? = some c ∧ c = 104 then (72, fmt.drop 1)
        else if fmt.head? = some c ∧ c = 108 then (76, fmt.drop 1)
        else (c, fmt)
      else (noQualifier, c :: fmt)

def skipFormatSpaces (s : Scan) : Scan :=
  if s.fmt.head?.any isspace then
    { s with fmt := (s.fmt.drop 1).dropWhile isspace, str := skipSpaces buf s.str }
  else s

-- %*: both strings advance to their next white space.
def skipConversion (s : Scan) : Scan :=
  { s with
    fmt := s.fmt.dropWhile (fun c => !isspace c && c != 37)
    str := s.str + ((buf.drop s.str).takeWhile (fun c => !isspace c)).length }

-- The loop runs at least once, and from -32768 the decrement goes on with 32767.
def scanChars (width : Option Nat) (s : Scan) : Scan :=
  let count := if fieldWidth width = -32768 then 32768 else max 1 (fieldWidth width)
  let bytes := (buf.drop s.str).take count.toNat
  { s with
    str := s.str + bytes.length
    num := s.num + 1
    stored := s.stored ++ [.chars bytes] }

-- The test of field_width-- fails only at zero, so a negative width counts down through 65536.
def scanWord (width : Option Nat) (s : Scan) : Scan :=
  let fieldWidth := if fieldWidth width = -1 then 32767 else fieldWidth width
  let str := skipSpaces buf s.str
  let bytes := ((buf.drop str).takeWhile (fun c => !isspace c)).take (fieldWidth % 65536).toNat
  { s with
    str := str + bytes.length
    num := s.num + 1
    stored := s.stored ++ [.chars (bytes ++ [0])] }

def scanPosition (s : Scan) : Scan := { s with stored := s.stored ++ [.position s.str] }

def specifier (c : UInt8) (width : Option Nat) (qualifier : UInt8) (s : Scan) : Directive :=
  if c = 99 then .again (scanChars buf width s)
  else if c = 115 then .again (scanWord buf width s)
  else if c = 110 then .again (scanPosition s)
  else if c = 111 then .integer ⟨8, false, qualifier, width, by decide⟩ s
  else if c = 120 ∨ c = 88 then .integer ⟨16, false, qualifier, width, by decide⟩ s
  else if c = 105 then .integer ⟨0, true, qualifier, width, by decide⟩ s
  else if c = 100 then .integer ⟨10, true, qualifier, width, by decide⟩ s
  else if c = 117 then .integer ⟨10, false, qualifier, width, by decide⟩ s
  else if c = 37 then
    let t := { s with str := s.str + 1 }
    if charAt buf s.str = 37 then .again t else .ret t
  else .ret s

def conversion (s : Scan) : Directive :=
  if s.fmt.head? = some 42 then .again (skipConversion buf s)
  else
    let (width, fmt) := getWidth s.fmt
    let (qualifier, fmt) := getQualifier fmt
    match fmt with
    | [] => .stop { s with fmt := [] }
    | c :: fmt =>
        if charAt buf s.str = 0 then .stop { s with fmt := c :: fmt }
        else specifier buf c width qualifier { s with fmt := fmt }

def directive (s : Scan) : Directive :=
  let s := skipFormatSpaces buf s
  match s.fmt with
  | [] => .stop s
  | c :: fmt =>
      if c = 37 then conversion buf { s with fmt := fmt }
      else
        let t := { s with fmt := fmt, str := s.str + 1 }
        if c = charAt buf s.str then .again t else .stop t

def firstDigit (isSign : Bool) (str : Nat) : UInt8 :=
  if isSign ∧ charAt buf str = 45 then charAt buf (str + 1) else charAt buf str

def badDigit (base : Nat) (digit : UInt8) : Bool :=
  digit == 0 || (base == 16 && !isxdigit digit) || (base == 10 && !isdigit digit) ||
    (base == 8 && (!isdigit digit || 55 < digit)) || (base == 0 && !isdigit digit)

def isSize (qualifier : UInt8) : Bool := qualifier == 90 || qualifier == 122

-- An unsupported base gives zero and leaves *endptr alone.
def strto (conv : IntConv) (str : Nat) (next : Option Nat) : Nat × Option Nat :=
  if conv.base ≠ 0 ∧ conv.base ≠ 10 ∧ conv.base ≠ 16 then (0, next)
  else
    let r := if conv.isSign ∧ ¬isSize conv.qualifier then strtol (buf.drop str) conv.base
      else strtoul (buf.drop str) conv.base
    (r.1, some (buf.length - r.2.length))

def targetBits (qualifier : UInt8) : Nat :=
  if qualifier = 72 then 8 else if qualifier = 104 then 16 else 32

def integer (conv : IntConv) (s : Scan) : Round :=
  let s := { s with str := skipSpaces buf s.str }
  if badDigit conv.base (firstDigit buf conv.isSign s.str) then .exit (.stop s)
  else
    let (n, next) := strto buf conv s.str s.next
    let bits := targetBits conv.qualifier
    let s := { s with
      next := next
      num := s.num + 1
      stored := s.stored ++ [.int bits (n % 2 ^ bits)] }
    match next with
    | none => .exit (.undefined s)
    | some next => .again { s with str := next }

def scanRound (s : Scan) : Round :=
  match directive buf s with
  | .again s => .again s
  | .stop s => .exit (.stop s)
  | .ret s => .exit (.ret s)
  | .integer conv s => integer buf conv s

def inLoop (s : Scan) : Prop := s.fmt ≠ [] ∧ charAt buf s.str ≠ 0

instance (s : Scan) : Decidable (inLoop buf s) :=
  inferInstanceAs (Decidable (s.fmt ≠ [] ∧ charAt buf s.str ≠ 0))

def scanLoop : Nat → Scan → Exit
  | 0, s => .stop s
  | fuel + 1, s =>
      if inLoop buf s then
        match scanRound buf s with
        | .again t => scanLoop fuel t
        | .exit e => e
      else .stop s

-- A %n at the end of the input is still filled.
def finish (s : Scan) : Scan := if s.fmt.take 2 = [37, 110] then scanPosition s else s

def scanStart (fmt : List UInt8) : Scan := ⟨fmt, 0, none, 0, []⟩

def vsscanf (fuel : Nat) (fmt : List UInt8) : Option Scan :=
  match scanLoop buf fuel (scanStart fmt) with
  | .stop s => some (finish s)
  | .ret s => some s
  | .undefined _ => none

section
variable {buf} {conv : IntConv} {s : Scan}

theorem integer_stop {p : Nat} (hp : skipSpaces buf s.str = p)
    (h : badDigit conv.base (firstDigit buf conv.isSign p) = true) :
    integer buf conv s = .exit (.stop { s with str := p }) := by
  simp only [integer, hp, h, if_true]

theorem integer_counted {p n m : Nat} (hp : skipSpaces buf s.str = p)
    (h : badDigit conv.base (firstDigit buf conv.isSign p) = false)
    (hstrto : strto buf conv p s.next = (n, some m)) :
    integer buf conv s = .again
      { fmt := s.fmt
        str := m
        next := some m
        num := s.num + 1
        stored := s.stored ++ [.int (targetBits conv.qualifier)
          (n % 2 ^ targetBits conv.qualifier)] } := by
  simp only [integer, hp, h, hstrto, Bool.false_eq_true, if_false]

theorem integer_undefined {p n : Nat} (hp : skipSpaces buf s.str = p)
    (h : badDigit conv.base (firstDigit buf conv.isSign p) = false)
    (hstrto : strto buf conv p s.next = (n, none)) :
    integer buf conv s = .exit (.undefined
      { fmt := s.fmt
        str := p
        next := none
        num := s.num + 1
        stored := s.stored ++ [.int (targetBits conv.qualifier)
          (n % 2 ^ targetBits conv.qualifier)] }) := by
  simp only [integer, hp, h, hstrto, Bool.false_eq_true, if_false]

end

end NonOsLite.Scanf
