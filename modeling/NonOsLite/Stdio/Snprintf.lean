import NonOsLite.Lib.BoundedSink
import NonOsLite.Stdio.FormatText

namespace NonOsLite.Stdio
open BoundedSink

variable {buf size : Nat} (fmt : List UInt8) (args : List Arg)

def TextCut (n : Nat) (r : List UInt8) (writes : List (Nat × UInt8)) : Prop :=
  ∀ f : Nat → UInt8,
    (∀ i < min r.length (n - 1), applyWrites f writes i = r.getD i 0) ∧
      applyWrites f writes (min r.length (n - 1)) = 0

def SnprintfOk (buf size : Nat) (fmt : List UInt8) (args : List Arg) : Prop :=
  let r := formatText fmt args
  let writes := (simpleSnprintf buf size fmt args).1.writes
  (∀ w ∈ writes, w.1 < size) ∧
    (0 < size → TextCut size r writes) ∧
    (simpleSnprintf buf size fmt args).2 = r.length

def SprintfOk (buf : Nat) (fmt : List UInt8) (args : List Arg) : Prop :=
  let r := formatText fmt args
  (∀ (f : Nat → UInt8) i,
      applyWrites f (simpleSprintf buf fmt args).1.writes i = ((r ++ [0])[i]?).getD (f i)) ∧
    (simpleSprintf buf fmt args).2 = r.length

-- The text fills the address space to its end, and str comes back to 0 before the final NUL.
structure EndsAtTop (buf size : Nat) (r : List UInt8) : Prop where
  top : buf + r.length = 4294967296
  counted : r.length < 2147483648
  cut : size = 0 ∨ size < r.length ∧ r.getD (size - 1) 0 = 0

-- The buffer is the last byte of the address space, and there is no text.
structure EmptyAtTop (buf : Nat) (r : List UInt8) : Prop where
  top : buf = 4294967295
  empty : r = []

structure Inside (o : Out) : Prop where
  buf_pos : 0 < o.buf
  buf_le : o.buf ≤ o.str
  str_lt : o.str < 4294967296
  limit_lt : o.limit < 4294967296

-- The window as a bounded sink whose positions never wrap.
def Out.sink (o : Out) : Sink UInt8 where
  pos := o.str - o.buf
  limit := o.limit - o.buf
  writes := o.writes

structure Emitted (o o' : Out) (xs : List UInt8) : Prop where
  buf : o'.buf = o.buf
  limit : o'.limit = o.limit
  str : o'.str = if o.str + xs.length < 4294967296 then o.str + xs.length else 0
  writes : o'.writes = (pushAll o.sink xs).writes

variable {o : Out}

theorem emit_null (h : o.str = 0) (xs : List UInt8) :
    emit o xs = { o with console := (emit o xs).console } := by
  induction xs generalizing o with
  | nil => rfl
  | cons x xs ih =>
    have hnull : (addch o x).str = 0 := by
      rw [addch, if_pos h]
      exact h
    rw [emit_cons, ih hnull]
    simp [addch, h]

theorem addch_buf (h : Inside o) (c : UInt8) : addch o c =
    { o with str := u32 (o.str + 1), writes := (push o.sink c).writes } := by
  have hbuf := h.buf_pos
  have hle := h.buf_le
  have hoff : sub32 o.str o.buf = o.str - o.buf := sub32_of_le hle
  rw [addch, if_neg (by omega)]
  by_cases hroom : o.str < o.limit
  · have hin : o.str - o.buf < o.limit - o.buf := by omega
    simp [push, Out.sink, putByte, hroom, hin, hoff]
  · have hout : ¬o.str - o.buf < o.limit - o.buf := by omega
    simp [push, Out.sink, hroom, hout]

theorem emit_spec (h : Inside o) (xs : List UInt8) : Emitted o (emit o xs) xs := by
  induction xs generalizing o with
  | nil => exact ⟨rfl, rfl, by simp [h.str_lt], rfl⟩
  | cons x xs ih =>
    have hx := addch_buf h x
    have hlt := h.str_lt
    have hle := h.buf_le
    rw [emit_cons]
    by_cases hlast : o.str + 1 < 4294967296
    · rw [u32_of_lt hlast] at hx
      have hin : Inside (addch o x) := by
        rw [hx]
        exact { h with buf_le := Nat.le_succ_of_le hle, str_lt := hlast }
      have hsink : (addch o x).sink = push o.sink x := by
        simp only [hx, Out.sink, push, Sink.mk.injEq, and_true]
        omega
      have hxs := ih hin
      refine ⟨by rw [hxs.buf, hx], by rw [hxs.limit, hx], ?_, ?_⟩
      · rw [hxs.str, hx, List.length_cons, Nat.add_right_comm, Nat.add_assoc]
      · rw [hxs.writes, hsink, pushAll_cons]
    · have htop : o.str + 1 = 4294967296 := by omega
      have hnull : (addch o x).str = 0 := by
        rw [hx, htop]
        rfl
      rw [emit_null hnull, hx]
      refine ⟨rfl, rfl, ?_, ?_⟩
      · rw [List.length_cons, if_neg (by omega), htop]
        rfl
      · have hfull : (push o.sink x).limit - (push o.sink x).pos = 0 := by
          have hlimit := h.limit_lt
          simp only [push, Out.sink]
          omega
        rw [pushAll_cons, pushAll_writes, hfull, List.take_zero, stamp, List.append_nil]

theorem formatLoop_spec (h : Inside o) :
    Emitted o (formatLoop (fmt.length + 1) fmt args o) (formatText fmt args) := by
  have ht := formatLoop_eq (fmt.length + 1) fmt args o
  have htext : Inside o.text := { h with }
  have he := emit_spec htext (formatText fmt args)
  rw [formatText, ← ht] at he
  exact ⟨he.buf, he.limit, he.str, he.writes⟩

theorem clampEnd_limit (hb : buf < 4294967296) (hs : size < 4294967296) :
    (clampEnd buf size).1 = buf + (clampEnd buf size).2 ∧ (clampEnd buf size).1 < 4294967296 := by
  unfold clampEnd u32
  by_cases h : (buf + size) % 4294967296 < buf
  · rw [if_pos h]
    omega
  · rw [if_neg h]
    omega

theorem clampEnd_of_fits (h : buf + size < 4294967296) : (clampEnd buf size).2 = size := by
  rw [clampEnd, u32_of_lt h, if_neg (by omega)]

theorem clampEnd_of_wraps (hb : buf < 4294967296) (hs : size < 4294967296)
    (h : 4294967296 ≤ buf + size) : (clampEnd buf size).2 = 4294967295 - buf := by
  rw [clampEnd, if_pos]
  rw [u32]
  omega

def vsnprintfEnd (size : Nat) (o : Out) : Out × Int :=
  let o :=
    if 0 < size then
      let o := addch o 0
      if o.limit < o.str then putByte o (sub32 o.limit 1) 0 else o
    else o
  let o := if o.str ≠ 0 then putByte o o.str 0 else o
  (o, toInt32 (sub32 o.str o.buf))

theorem vsnprintf_eq (hb : 0 < buf) (hb' : buf < 4294967296) (hs : size < 4294967296) :
    ∃ o : Out, vsnprintfInternal buf size fmt args = vsnprintfEnd (clampEnd buf size).2 o ∧
      o.buf = buf ∧ o.limit = buf + (clampEnd buf size).2 ∧
      o.str = (if buf + (formatText fmt args).length < 4294967296 then
        buf + (formatText fmt args).length else 0) ∧
      o.writes = (pushAll ⟨0, (clampEnd buf size).2, []⟩ (formatText fmt args)).writes := by
  obtain ⟨hlimit, hlt⟩ := clampEnd_limit hb' hs
  have hin : Inside { buf := buf, str := buf, limit := (clampEnd buf size).1 } :=
    ⟨hb, Nat.le_refl _, hb', hlt⟩
  have he := formatLoop_spec fmt args hin
  refine ⟨_, rfl, he.buf, he.limit.trans hlimit, he.str, he.writes.trans ?_⟩
  simp only [Out.sink, Nat.sub_self, hlimit, Nat.add_sub_cancel_left]

-- An empty window: only the unguarded store of the final NUL is left.
theorem vsnprintf_noRoom (hb : 0 < buf) (hs : size < 4294967296)
    (hfit : buf + (formatText fmt args).length < 4294967296) (h : (clampEnd buf size).2 = 0) :
    (vsnprintfInternal buf size fmt args).1.writes = [((formatText fmt args).length, 0)] ∧
      (vsnprintfInternal buf size fmt args).2 = toInt32 (formatText fmt args).length := by
  obtain ⟨o, heq, hbuf, -, hstr, hwrites⟩ := vsnprintf_eq fmt args hb (by omega) hs
  rw [if_pos hfit] at hstr
  rw [h, pushAll_writes, Nat.zero_sub, List.take_zero] at hwrites
  have hoff : sub32 o.str o.buf = (formatText fmt args).length := by
    rw [hbuf, hstr, sub32_of_le (by omega)]
    omega
  have hne : o.str ≠ 0 := by omega
  rw [heq, vsnprintfEnd, h]
  simp [putByte, hne, hoff, hwrites, stamp]

theorem vsnprintf_count (hb : 0 < buf) (hs : size < 4294967296)
    (hfit : buf + (formatText fmt args).length < 4294967296) (h : 0 < (clampEnd buf size).2) :
    (vsnprintfInternal buf size fmt args).2 = toInt32 ((formatText fmt args).length + 1) := by
  obtain ⟨o, heq, hbuf, hlimit, hstr, -⟩ := vsnprintf_eq fmt args hb (by omega) hs
  obtain ⟨hend, hlt⟩ := clampEnd_limit (show buf < 4294967296 by omega) hs
  rw [if_pos hfit] at hstr
  have hin : Inside o := ⟨by omega, by omega, by omega, by omega⟩
  have hoff : sub32 (u32 (o.str + 1)) o.buf = (formatText fmt args).length + 1 := by
    rw [hbuf, hstr]
    unfold sub32 u32
    split_ifs <;> omega
  rw [heq, vsnprintfEnd, if_pos h, addch_buf hin]
  simp only [putByte]
  split_ifs <;> simp only [hoff]

theorem vsnprintf_room (hb : 0 < buf) (hs : size < 4294967296)
    (hfit : buf + (formatText fmt args).length + 1 < 4294967296)
    (h : 0 < (clampEnd buf size).2) :
    (vsnprintfInternal buf size fmt args).1.writes =
      stamp 0 ((formatText fmt args ++ [0]).take (clampEnd buf size).2) ++
        (if (clampEnd buf size).2 ≤ (formatText fmt args).length then
          [((clampEnd buf size).2 - 1, 0)] else []) ++
        [((formatText fmt args).length + 1, 0)] := by
  obtain ⟨o, heq, hbuf, hlimit, hstr, hwrites⟩ := vsnprintf_eq fmt args hb (by omega) hs
  obtain ⟨hend, hlt⟩ := clampEnd_limit (show buf < 4294967296 by omega) hs
  rw [if_pos (by omega)] at hstr
  generalize (clampEnd buf size).2 = n at *
  generalize formatText fmt args = r at *
  have hin : Inside o := ⟨by omega, by omega, by omega, by omega⟩
  have hnext : u32 (o.str + 1) = o.str + 1 := u32_of_lt (by omega)
  have hsink : o.sink = pushAll ⟨0, n, []⟩ r := by
    have hpos : (pushAll (⟨0, n, []⟩ : Sink UInt8) r).pos = o.str - o.buf := by
      rw [pushAll_pos, hstr, hbuf, Nat.add_sub_cancel_left]
      exact Nat.zero_add _
    have hlim : (pushAll (⟨0, n, []⟩ : Sink UInt8) r).limit = o.limit - o.buf := by
      rw [pushAll_limit, hlimit, hbuf, Nat.add_sub_cancel_left]
    rw [Out.sink, hwrites, ← hpos, ← hlim]
  have hpush : (push o.sink 0).writes = stamp 0 ((r ++ [0]).take n) := by
    have hall : push o.sink 0 = pushAll ⟨0, n, []⟩ (r ++ [0]) := by
      rw [hsink, pushAll_append]
      rfl
    rw [hall, pushAll_writes, List.nil_append, Nat.sub_zero]
  have hstop : sub32 (sub32 o.limit 1) o.buf = n - 1 := by
    have hlast : sub32 o.limit 1 = buf + n - 1 := by
      rw [hlimit, sub32_of_le (by omega)]
    rw [hlast, hbuf, sub32_of_le (by omega)]
    omega
  have hoff : sub32 (o.str + 1) o.buf = r.length + 1 := by
    rw [hstr, hbuf, sub32_of_le (by omega)]
    omega
  rw [heq, vsnprintfEnd, if_pos h, addch_buf hin, hnext, hpush]
  by_cases hcut : n ≤ r.length
  · have hpast : o.limit < o.str + 1 := by omega
    simp [putByte, hpast, hcut, hstop, hoff]
  · have hpast : ¬o.limit < o.str + 1 := by omega
    simp [putByte, hpast, hcut, hoff]

-- str is 0 before the final NUL: ADDCH prints it, and nothing more is stored.
theorem vsnprintf_wrapped (hb : 0 < buf) (hb' : buf < 4294967296) (hs : size < 4294967296)
    (hwrap : 4294967296 ≤ buf + (formatText fmt args).length) :
    (vsnprintfInternal buf size fmt args).1.writes =
        stamp 0 ((formatText fmt args).take (clampEnd buf size).2) ∧
      (vsnprintfInternal buf size fmt args).2 = toInt32 (4294967296 - buf) := by
  obtain ⟨o, heq, hbuf, -, hstr, hwrites⟩ := vsnprintf_eq fmt args hb hb' hs
  rw [if_neg (Nat.not_lt.mpr hwrap)] at hstr
  rw [pushAll_writes, List.nil_append, Nat.sub_zero] at hwrites
  have hoff : sub32 0 buf = 4294967296 - buf := by
    rw [sub32, if_neg (by omega), Nat.sub_zero]
  have hnul : addch o 0 = { o with console := o.console ++ [0] } := by
    rw [addch, if_pos hstr]
    rfl
  rw [heq, vsnprintfEnd, hnul]
  split_ifs <;> simp_all

theorem toInt32_succ_ne (n : Nat) : toInt32 (n + 1) ≠ n := by
  simp only [toInt32, u32]
  split_ifs <;> omega

theorem vsnprintf_text (hb : 0 < buf) (hs : size < 4294967296)
    (hfit : buf + (formatText fmt args).length + 1 < 4294967296)
    (h : 0 < (clampEnd buf size).2) :
    TextCut (clampEnd buf size).2 (formatText fmt args)
      (vsnprintfInternal buf size fmt args).1.writes := by
  intro f
  have hw := vsnprintf_room fmt args hb hs hfit h
  generalize (clampEnd buf size).2 = n at h hw ⊢
  generalize formatText fmt args = r at hw ⊢
  generalize (vsnprintfInternal buf size fmt args).1.writes = ws at hw ⊢
  have hlast (g : Nat → UInt8) (i : Nat) (hi : i ≤ r.length) :
      applyWrites g [(r.length + 1, 0)] i = g i :=
    Function.update_of_ne (by omega) _ _
  rw [hw, applyWrites_append, applyWrites_append]
  by_cases hle : n ≤ r.length
  · have hcut (g : Nat → UInt8) (i : Nat) :
        applyWrites g [(n - 1, 0)] i = if i = n - 1 then 0 else g i :=
      Function.update_apply _ _ _ _
    rw [if_pos hle, Nat.min_eq_right (by omega)]
    constructor
    · intro i hi
      rw [hlast _ _ (by omega), hcut, if_neg (by omega), applyWrites_stamp]
      simp [show i < n by omega, List.getElem?_append, show i < r.length by omega]
    · rw [hlast _ _ (by omega), hcut, if_pos rfl]
  · rw [if_neg hle, Nat.min_eq_left (by omega)]
    constructor
    · intro i hi
      rw [hlast _ _ (by omega)]
      simp only [applyWrites, List.foldl_nil]
      change applyWrites f _ i = _
      rw [applyWrites_stamp]
      simp [show i < n by omega, List.getElem?_append, hi]
    · rw [hlast _ _ (Nat.le_refl _)]
      simp only [applyWrites, List.foldl_nil]
      change applyWrites f _ _ = _
      rw [applyWrites_stamp]
      simp [show r.length < n by omega]

theorem vsnprintf_inBounds_iff (hb : 0 < buf) (hs : size < 4294967296)
    (hfit : buf + (formatText fmt args).length + 1 < 4294967296)
    (h : 0 < (clampEnd buf size).2) :
    (∀ w ∈ (vsnprintfInternal buf size fmt args).1.writes, w.1 < (clampEnd buf size).2) ↔
      (formatText fmt args).length + 1 < (clampEnd buf size).2 := by
  rw [vsnprintf_room fmt args hb hs hfit h]
  constructor
  · intro hall
    exact hall _ (List.mem_append_right _ (List.mem_singleton_self _))
  · intro hlt w hw
    rw [if_neg (by omega), List.append_nil, List.mem_append, List.mem_singleton] at hw
    rcases hw with hw | rfl
    · have hbound := (mem_stamp hw).2
      simp only [List.length_take, List.length_append, List.length_singleton] at hbound
      omega
    · exact hlt

theorem top_of_clampEnd (hb' : buf < 4294967296) (hs : size < 4294967296) (hpos : 0 < size)
    (h : (clampEnd buf size).2 = 0) : buf = 4294967295 := by
  rcases Nat.lt_or_ge (buf + size) 4294967296 with hfit | hwrap
  · rw [clampEnd_of_fits hfit] at h
    omega
  · rw [clampEnd_of_wraps hb' hs hwrap] at h
    omega

theorem clampEnd_top (hpos : 0 < size) (hs : size < 4294967296) :
    (clampEnd 4294967295 size).2 = 0 := by
  rw [clampEnd_of_wraps (by norm_num) hs (by omega), Nat.sub_self]

theorem wrapped_count (hb : 0 < buf) (hb' : buf < 4294967296) {n : Nat} (hwrap : 4294967296 ≤ buf + n)
    (h : toInt32 (4294967296 - buf) = n) : buf + n = 4294967296 ∧ n < 2147483648 := by
  simp only [toInt32, u32] at h
  split_ifs at h <;> omega

theorem applyWrites_behind {r : List UInt8} {n i : Nat} (h : n ≤ i) (f : Nat → UInt8) :
    applyWrites f (stamp 0 (r.take n)) i = f i := by
  rw [applyWrites_stamp, if_pos (Nat.zero_le i), Nat.sub_zero,
    List.getElem?_eq_none (by simp only [List.length_take]; omega)]
  rfl

theorem applyWrites_inside {r : List UInt8} {n i : Nat} (hn : i < n) (hr : i < r.length)
    (f : Nat → UInt8) : applyWrites f (stamp 0 (r.take n)) i = r.getD i 0 := by
  rw [applyWrites_stamp, if_pos (Nat.zero_le i), Nat.sub_zero]
  simp [hn, hr]

theorem EndsAtTop.of_wrapped (hb : 0 < buf) (hb' : buf < 4294967296) (hs : size < 4294967296)
    (hwrap : 4294967296 ≤ buf + (formatText fmt args).length)
    (h : SnprintfOk buf size fmt args) : EndsAtTop buf size (formatText fmt args) := by
  obtain ⟨hw, hr⟩ := vsnprintf_wrapped fmt args hb hb' hs hwrap
  simp only [SnprintfOk, simpleSnprintf] at h
  rw [hw, hr] at h
  obtain ⟨-, htext, hret⟩ := h
  obtain ⟨htop, hcounted⟩ := wrapped_count hb hb' hwrap hret
  refine ⟨htop, hcounted, ?_⟩
  rcases Nat.eq_zero_or_pos size with rfl | hpos
  · exact Or.inl rfl
  -- the caller's bytes may be other than NUL
  have hnul := (htext hpos (fun _ => 1)).2
  rcases Nat.lt_or_ge size (formatText fmt args).length with hlt | hge
  · rw [clampEnd_of_fits (by omega), Nat.min_eq_right (by omega),
      applyWrites_inside (by omega) (by omega)] at hnul
    exact Or.inr ⟨hlt, hnul⟩
  · rw [clampEnd_of_wraps hb' hs (by omega), applyWrites_behind (by omega)] at hnul
    exact absurd hnul (by decide)

theorem EndsAtTop.snprintfOk (hb : 0 < buf) (hb' : buf < 4294967296)
    (h : EndsAtTop buf size (formatText fmt args)) : SnprintfOk buf size fmt args := by
  obtain ⟨htop, hcounted, hcut⟩ := h
  have hsize : buf + size < 4294967296 := by
    rcases hcut with rfl | ⟨hlt, -⟩ <;> omega
  obtain ⟨hw, hr⟩ := vsnprintf_wrapped fmt args hb hb' (show size < 4294967296 by omega)
    (by omega)
  have hret : toInt32 (4294967296 - buf) = ((formatText fmt args).length : Int) := by
    simp only [toInt32, u32]
    split_ifs <;> omega
  rw [clampEnd_of_fits hsize] at hw
  simp only [SnprintfOk, simpleSnprintf]
  rw [hw, hr]
  refine ⟨fun w hmem => ?_, fun hpos f => ?_, hret⟩
  · have hbound := (mem_stamp hmem).2
    rw [List.length_take] at hbound
    omega
  · obtain ⟨hlt, hnul⟩ := hcut.resolve_left (by omega)
    rw [Nat.min_eq_right (by omega)]
    refine ⟨fun i hi => applyWrites_inside (by omega) (by omega) f, ?_⟩
    rw [applyWrites_inside (by omega) (by omega), hnul]

theorem snprintfOk_iff (hb : 0 < buf) (hb' : buf < 4294967296) (hs : size < 4294967296) :
    SnprintfOk buf size fmt args ↔
      (0 < size ∧ EmptyAtTop buf (formatText fmt args)) ∨
        EndsAtTop buf size (formatText fmt args) := by
  rcases Nat.lt_or_ge (buf + (formatText fmt args).length) 4294967296 with hfit | hwrap
  · have hends : ¬EndsAtTop buf size (formatText fmt args) := fun h => absurd h.top (by omega)
    rw [or_iff_left hends]
    simp only [SnprintfOk, simpleSnprintf]
    rcases Nat.eq_zero_or_pos (clampEnd buf size).2 with h | h
    · obtain ⟨hw, hr⟩ := vsnprintf_noRoom fmt args hb hs hfit h
      rw [hw, hr]
      constructor
      · rintro ⟨hbound, -, -⟩
        have hlen : (formatText fmt args).length < size := hbound _ (List.mem_singleton_self _)
        have htop := top_of_clampEnd hb' hs (by omega) h
        exact ⟨by omega, htop, List.length_eq_zero_iff.mp (by omega)⟩
      · rintro ⟨hpos, rfl, hnil⟩
        simp [hnil, hpos, TextCut, applyWrites, toInt32, u32]
    · rw [vsnprintf_count fmt args hb hs hfit h]
      constructor
      · rintro ⟨-, -, hret⟩
        exact absurd hret (toInt32_succ_ne _)
      · rintro ⟨hpos, rfl, -⟩
        exact absurd (clampEnd_top hpos hs) (by omega)
  · have hempty : ¬(0 < size ∧ EmptyAtTop buf (formatText fmt args)) := by
      rintro ⟨-, rfl, hnil⟩
      rw [hnil, List.length_nil] at hwrap
      omega
    rw [or_iff_right hempty]
    exact ⟨EndsAtTop.of_wrapped fmt args hb hb' hs hwrap, EndsAtTop.snprintfOk fmt args hb hb'⟩

theorem sprintfOk_iff (hb : 0 < buf) (hb' : buf < 4294967296) :
    SprintfOk buf fmt args ↔ EmptyAtTop buf (formatText fmt args) := by
  have hs : intMax < 4294967296 := by decide
  have hpos : 0 < intMax := by decide
  rw [SprintfOk, simpleSprintf]
  rcases Nat.lt_or_ge (buf + (formatText fmt args).length) 4294967296 with hfit | hwrap
  · rcases Nat.eq_zero_or_pos (clampEnd buf intMax).2 with h | h
    · obtain ⟨hw, hr⟩ := vsnprintf_noRoom fmt args hb hs hfit h
      have htop := top_of_clampEnd hb' hs hpos h
      have hnil : formatText fmt args = [] := List.length_eq_zero_iff.mp (by omega)
      refine iff_of_true ?_ ⟨htop, hnil⟩
      rw [hw, hr]
      refine ⟨fun f i => ?_, by simp [hnil, toInt32, u32]⟩
      cases i <;> simp [hnil, applyWrites]
    · rw [vsnprintf_count fmt args hb hs hfit h]
      constructor
      · rintro ⟨-, hret⟩
        exact absurd hret (toInt32_succ_ne _)
      · rintro ⟨rfl, -⟩
        exact absurd (clampEnd_top hpos hs) (by omega)
  · obtain ⟨hw, hr⟩ := vsnprintf_wrapped fmt args hb hb' hs hwrap
    rw [hw, hr]
    constructor
    · rintro ⟨htext, hret⟩
      obtain ⟨htop, hcounted⟩ := wrapped_count hb hb' hwrap hret
      have hnul := htext (fun _ => 1) (formatText fmt args).length
      rw [clampEnd_of_wraps hb' hs (by simp only [intMax]; omega),
        applyWrites_behind (by omega)] at hnul
      simp at hnul
    · rintro ⟨rfl, hnil⟩
      rw [hnil, List.length_nil] at hwrap
      omega

theorem snprintf_contract_iff (hb : 0 < buf) (hb' : buf < 4294967296) (hs : size < 4294967296) :
    (SnprintfOk buf size fmt args ↔
        (0 < size ∧ EmptyAtTop buf (formatText fmt args)) ∨
          EndsAtTop buf size (formatText fmt args)) ∧
      (SprintfOk buf fmt args ↔ EmptyAtTop buf (formatText fmt args)) ∧
      (buf + (formatText fmt args).length + 1 < 4294967296 → 0 < (clampEnd buf size).2 →
        TextCut (clampEnd buf size).2 (formatText fmt args)
            (simpleSnprintf buf size fmt args).1.writes ∧
          ((∀ w ∈ (simpleSnprintf buf size fmt args).1.writes, w.1 < (clampEnd buf size).2) ↔
            (formatText fmt args).length + 1 < (clampEnd buf size).2)) :=
  ⟨snprintfOk_iff fmt args hb hb' hs, sprintfOk_iff fmt args hb hb',
    fun hfit hroom => ⟨vsnprintf_text fmt args hb hs hfit hroom,
      vsnprintf_inBounds_iff fmt args hb hs hfit hroom⟩⟩

theorem snprintf_contract_iff_decimal :
    ¬SnprintfOk 4096 8 (ascii "%d") [.word 42] ∧ ¬SprintfOk 4096 (ascii "%d") [.word 42] ∧
      SnprintfOk 4294967295 0 (ascii "a") [] ∧ SprintfOk 4294967295 [] [] := by
  have hlow := snprintf_contract_iff (ascii "%d") [.word 42] (show 0 < 4096 by norm_num)
    (by norm_num) (show 8 < 4294967296 by norm_num)
  have htop := snprintf_contract_iff (ascii "a") [] (show 0 < 4294967295 by norm_num)
    (by norm_num) (show 0 < 4294967296 by norm_num)
  have hempty := snprintf_contract_iff [] [] (show 0 < 4294967295 by norm_num)
    (by norm_num) (show 0 < 4294967296 by norm_num)
  have ha : formatText (ascii "a") [] = [97] := by decide
  have hnil : formatText [] [] = [] := by decide
  have hends : EndsAtTop 4294967295 0 (formatText (ascii "a") []) := by
    rw [ha]
    exact ⟨by norm_num, by norm_num, Or.inl rfl⟩
  refine ⟨?_, ?_, htop.1.mpr (Or.inr hends), hempty.2.1.mpr ⟨rfl, hnil⟩⟩
  · rw [hlow.1]
    rintro (⟨-, h⟩ | h)
    · exact absurd h.top (by norm_num)
    · have hcounted := h.counted
      have := h.top
      omega
  · rw [hlow.2.1]
    exact fun h => absurd h.top (by norm_num)

theorem snprintf_counts_nul :
    ¬SnprintfOk 4096 8 (ascii "%d") [.word 42] ∧ ¬SnprintfOk 4096 0 (ascii "%d") [.word 42] ∧
      ¬SprintfOk 4096 (ascii "%d") [.word 42] := by
  have hlow {size : Nat} (hs : size < 4294967296) :
      ¬SnprintfOk 4096 size (ascii "%d") [.word 42] := by
    rw [snprintfOk_iff _ _ (by norm_num) (by norm_num) hs]
    rintro (⟨-, h⟩ | h)
    · exact absurd h.top (by norm_num)
    · have hcounted := h.counted
      have := h.top
      omega
  refine ⟨hlow (by norm_num), hlow (by norm_num), ?_⟩
  rw [sprintfOk_iff _ _ (by norm_num) (by norm_num)]
  exact fun h => absurd h.top (by norm_num)

end NonOsLite.Stdio
