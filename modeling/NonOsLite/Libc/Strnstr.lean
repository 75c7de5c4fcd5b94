import NonOsLite.Lib.ByteBuf
import NonOsLite.Libc.CInt

namespace NonOsLite
open ByteBuf

-- The inner loop at s1, with what is left of s2: whether it matched, and what it read of s1.
def matchAt (p : Buf) (s1 : Nat) : List UInt8 → Bool × List Nat
  | [] => (true, [])
  | c :: s2 =>
      if c ≠ p s1 then (false, [s1])
      else
        let (found, reads) := matchAt p (s1 + 1) s2
        (found, s1 :: reads)

-- The outer loop has max - s1 rounds, as s1 grows by one in each.
def searchFrom (p : Buf) (s2 : List UInt8) : Nat → Nat → Option Nat × List Nat
  | 0, _ => (none, [])
  | rounds + 1, s1 =>
      let (found, reads) := matchAt p s1 s2
      if found then (some s1, reads)
      else
        let (r, reads') := searchFrom p s2 rounds (s1 + 1)
        (r, reads ++ reads')

-- The result, and the addresses of s1 that were read.
def strnstr (p : Buf) (s1 : Nat) (s2 : List UInt8) (len : Nat) : Option Nat × List Nat :=
  let max := u32 (s1 + len)
  if p s1 = 0 then (if s2 = [] then some s1 else none, [s1])
  else
    let (r, reads) := searchFrom p s2 (max - s1) s1
    (r, s1 :: reads)

def OccursAt (s1 s2 : List UInt8) (len i : Nat) : Prop :=
  i + s2.length ≤ min len s1.length ∧ s2 <+: s1.drop i

instance (s1 s2 : List UInt8) (len i : Nat) : Decidable (OccursAt s1 s2 len i) :=
  inferInstanceAs (Decidable (_ ∧ _))

structure StrnstrRight (p : Buf) (a : Nat) (s1 s2 : List UInt8) (len : Nat) : Prop where
  result : ∀ b, (strnstr p a s2 len).1 = some b ↔
    ∃ i, b = a + i ∧ OccursAt s1 s2 len i ∧ ∀ j < i, ¬OccursAt s1 s2 len j
  reads : ∀ b ∈ (strnstr p a s2 len).2, b < a + len ∧ b ≤ a + s1.length

def Overruns (s1 s2 : List UInt8) (len i : Nat) : Prop :=
  len - i < s2.length ∧ s2.take (len - i) <+: s1.drop i

def SearchFits (a : Nat) (s1 s2 : List UInt8) (len : Nat) : Prop :=
  0 < len ∧ (s1 = [] ∨
    if a + len < 4294967296 then
      (∃ i, OccursAt s1 s2 len i) ∨ (len ≤ s1.length + 1 ∧ ∀ i < len, ¬Overruns s1 s2 len i)
    else ¬∃ i, OccursAt s1 s2 len i)

variable {p : Buf} {a k n len : Nat} {s t w : List UInt8}

theorem matchAt_hit {c : UInt8} (hc : p a = c) :
    matchAt p a (c :: w) = ((matchAt p (a + 1) w).1, a :: (matchAt p (a + 1) w).2) := by
  simp [matchAt, hc]

theorem matchAt_miss {c : UInt8} (hc : p a ≠ c) : matchAt p a (c :: w) = (false, [a]) := by
  simp [matchAt, hc.symm]

theorem matchAt_iff (h : StartsWith (shift p a) (t ++ [0])) (hw : 0 ∉ w) :
    (matchAt p a w).1 = true ↔ w <+: t := by
  induction w generalizing a t with
  | nil => simp [matchAt]
  | cons c w ih =>
    obtain ⟨hc, hwtail⟩ := List.ne_and_not_mem_of_not_mem_cons hw
    cases t with
    | nil =>
      have hnul : p a = 0 := (startsWith_cons.mp h).1
      rw [matchAt_miss (by rwa [hnul])]
      simp
    | cons d t =>
      obtain ⟨hd, hrest⟩ := startsWith_cons.mp h
      have hpa : p a = d := hd
      rw [shift_shift] at hrest
      by_cases hcd : d = c
      · rw [matchAt_hit (hpa.trans hcd), ih hrest hwtail, hcd, List.prefix_cons_inj]
      · rw [matchAt_miss (by rwa [hpa])]
        simp [List.cons_prefix_cons, Ne.symm hcd]

theorem matchAt_reads (h : StartsWith (shift p a) (t ++ [0])) (hw : 0 ∉ w) :
    (∀ b ∈ (matchAt p a w).2, b < a + k) ↔ ¬(k < w.length ∧ w.take k <+: t) := by
  induction w generalizing a t k with
  | nil => simp [matchAt]
  | cons c w ih =>
    obtain ⟨hc, hwtail⟩ := List.ne_and_not_mem_of_not_mem_cons hw
    have hone : (∀ b ∈ [a], b < a + k) ↔ k ≠ 0 := by
      rw [List.forall_mem_singleton]
      omega
    cases t with
    | nil =>
      have hnul : p a = 0 := (startsWith_cons.mp h).1
      rw [matchAt_miss (by rwa [hnul]), hone]
      cases k with
      | zero => simp
      | succ k => simp
    | cons d t =>
      obtain ⟨hd, hrest⟩ := startsWith_cons.mp h
      have hpa : p a = d := hd
      rw [shift_shift] at hrest
      by_cases hcd : d = c
      · rw [matchAt_hit (hpa.trans hcd), List.forall_mem_cons]
        cases k with
        | zero => simp
        | succ k =>
          have hsucc : a + (k + 1) = a + 1 + k := by omega
          rw [hsucc, ih hrest hwtail, hcd, List.take_succ_cons, List.prefix_cons_inj,
            List.length_cons, Nat.succ_lt_succ_iff]
          exact and_iff_right (by omega)
      · rw [matchAt_miss (by rwa [hpa]), hone]
        cases k with
        | zero => simp
        | succ k => simp [List.cons_prefix_cons, Ne.symm hcd]

theorem read_round_succ {b : Nat} :
    b ∈ (matchAt p a w).2 ∨ (∃ i < n, b ∈ (matchAt p (a + 1 + i) w).2) ↔
      ∃ i < n + 1, b ∈ (matchAt p (a + i) w).2 := by
  constructor
  · rintro (hb | ⟨i, hi, hb⟩)
    · exact ⟨0, by omega, hb⟩
    · rw [Nat.add_right_comm] at hb
      exact ⟨i + 1, by omega, hb⟩
  · rintro ⟨i, hi, hb⟩
    cases i with
    | zero => exact .inl hb
    | succ i =>
      rw [← Nat.add_assoc, Nat.add_right_comm] at hb
      exact .inr ⟨i, by omega, hb⟩

theorem searchFrom_found {j : Nat} (hmatch : (matchAt p (a + j) w).1 = true)
    (hfirst : ∀ i < j, (matchAt p (a + i) w).1 = false) (hj : j < n) :
    (searchFrom p w n a).1 = some (a + j) ∧
      ∀ b, b ∈ (searchFrom p w n a).2 ↔ ∃ i < j + 1, b ∈ (matchAt p (a + i) w).2 := by
  induction j generalizing a n with
  | zero =>
    obtain ⟨n, rfl⟩ := Nat.exists_eq_succ_of_ne_zero (by omega : n ≠ 0)
    rw [Nat.add_zero] at hmatch
    simp [searchFrom, hmatch]
  | succ j ih =>
    obtain ⟨n, rfl⟩ := Nat.exists_eq_succ_of_ne_zero (by omega : n ≠ 0)
    have hmiss : (matchAt p a w).1 = false := hfirst 0 (by omega)
    have hmatch' : (matchAt p (a + 1 + j) w).1 = true := by
      rwa [Nat.add_right_comm]
    have hfirst' : ∀ i < j, (matchAt p (a + 1 + i) w).1 = false := by
      intro i hi
      rw [Nat.add_right_comm]
      exact hfirst (i + 1) (by omega)
    obtain ⟨hr, hreads⟩ := ih hmatch' hfirst' (by omega : j < n)
    have hround : searchFrom p w (n + 1) a =
        ((searchFrom p w n (a + 1)).1, (matchAt p a w).2 ++ (searchFrom p w n (a + 1)).2) := by
      simp [searchFrom, hmiss]
    rw [hround]
    refine ⟨by rw [hr, Nat.add_right_comm, Nat.add_assoc], ?_⟩
    intro b
    rw [List.mem_append, hreads b, read_round_succ]

theorem searchFrom_none (hmiss : ∀ i < n, (matchAt p (a + i) w).1 = false) :
    (searchFrom p w n a).1 = none ∧
      ∀ b, b ∈ (searchFrom p w n a).2 ↔ ∃ i < n, b ∈ (matchAt p (a + i) w).2 := by
  induction n generalizing a with
  | zero => simp [searchFrom]
  | succ n ih =>
    have hhead : (matchAt p a w).1 = false := hmiss 0 (by omega)
    have hmiss' : ∀ i < n, (matchAt p (a + 1 + i) w).1 = false := by
      intro i hi
      rw [Nat.add_right_comm]
      exact hmiss (i + 1) (by omega)
    obtain ⟨hr, hreads⟩ := ih hmiss'
    have hround : searchFrom p w (n + 1) a =
        ((searchFrom p w n (a + 1)).1, (matchAt p a w).2 ++ (searchFrom p w n (a + 1)).2) := by
      simp [searchFrom, hhead]
    rw [hround]
    refine ⟨hr, ?_⟩
    intro b
    rw [List.mem_append, hreads b, read_round_succ]

theorem startsWith_drop (h : StartsWith (shift p a) (s ++ [0])) (hk : k ≤ s.length) :
    StartsWith (shift p (a + k)) (s.drop k ++ [0]) := by
  have hsplit : s ++ [0] = s.take k ++ (s.drop k ++ [0]) := by
    rw [← List.append_assoc, List.take_append_drop]
  rw [hsplit, startsWith_append, List.length_take, min_eq_left hk, shift_shift] at h
  exact h.2

theorem matchAt_position (h : StartsWith (shift p a) (s ++ [0])) (hw : 0 ∉ w)
    (hk : k ≤ s.length) : (matchAt p (a + k) w).1 = true ↔ w <+: s.drop k :=
  matchAt_iff (startsWith_drop h hk) hw

theorem round_before_limit (h : StartsWith (shift p a) (s ++ [0])) (hw : 0 ∉ w)
    (hk : k ≤ s.length) (hlen : k ≤ len) :
    (∀ b ∈ (matchAt p (a + k) w).2, b < a + len) ↔ ¬Overruns s w len k := by
  have hend : a + len = a + k + (len - k) := by omega
  rw [hend]
  exact matchAt_reads (startsWith_drop h hk) hw

theorem round_before_end (h : StartsWith (shift p a) (s ++ [0])) (hw : 0 ∉ w)
    (hk : k ≤ s.length) : ∀ b ∈ (matchAt p (a + k) w).2, b ≤ a + s.length := by
  have hbound := (matchAt_reads (k := s.length + 1 - k) (startsWith_drop h hk) hw).mpr ?_
  · intro b hb
    have hlt := hbound b hb
    omega
  · rintro ⟨hlong, hstarts⟩
    have hle := hstarts.length_le
    rw [List.length_take, List.length_drop] at hle
    omega

theorem first_read (hw : w ≠ []) : a ∈ (matchAt p a w).2 := by
  obtain ⟨c, t, rfl⟩ := List.exists_cons_of_ne_nil hw
  rw [matchAt]
  split_ifs
  · exact List.mem_singleton_self a
  · exact List.mem_cons_self

theorem occursAt_nil_pattern : OccursAt s [] len 0 := by
  simp [OccursAt]

theorem OccursAt.earlier {i j : Nat} (hj : OccursAt s w len j) (hij : i ≤ j)
    (hstarts : w <+: s.drop i) : OccursAt s w len i := by
  obtain ⟨hbound, -⟩ := hj
  exact ⟨by omega, hstarts⟩

theorem OccursAt.lt_of_first {i : Nat} (hi : OccursAt s w len i)
    (hfirst : ∀ j < i, ¬OccursAt s w len j) (hlen : 0 < len) : i < len := by
  obtain ⟨hbound, -⟩ := hi
  by_cases hw : w = []
  · subst hw
    have hzero : i = 0 := by
      by_contra hne
      exact hfirst 0 (by omega) occursAt_nil_pattern
    omega
  · have hpos : 0 < w.length := List.length_pos_iff.mpr hw
    omega

theorem search_finds {i : Nat} (h : StartsWith (shift p a) (s ++ [0])) (hw : 0 ∉ w)
    (hi : OccursAt s w len i) (hfirst : ∀ j < i, ¬OccursAt s w len j) (hlen : 0 < len) :
    (searchFrom p w len a).1 = some (a + i) ∧
      ∀ b ∈ (searchFrom p w len a).2, b < a + len ∧ b ≤ a + s.length := by
  have hlt := hi.lt_of_first hfirst hlen
  obtain ⟨hbound, hstarts⟩ := hi
  have hmatch := (matchAt_position h hw (by omega : i ≤ s.length)).mpr hstarts
  have hmiss : ∀ j < i, (matchAt p (a + j) w).1 = false := by
    intro j hj
    rw [Bool.eq_false_iff, ne_eq, matchAt_position h hw (by omega)]
    intro hearlier
    exact hfirst j hj (OccursAt.earlier ⟨hbound, hstarts⟩ hj.le hearlier)
  obtain ⟨hr, hreads⟩ := searchFrom_found hmatch hmiss hlt
  refine ⟨hr, ?_⟩
  intro b hb
  obtain ⟨j, hj, hround⟩ := (hreads b).mp hb
  have hlimit : ¬Overruns s w len j := by
    rintro ⟨hover, -⟩
    omega
  exact ⟨(round_before_limit h hw (by omega) (by omega)).mpr hlimit b hround,
    round_before_end h hw (by omega) b hround⟩

theorem search_misses (h : StartsWith (shift p a) (s ++ [0])) (hw : 0 ∉ w)
    (hno : ¬∃ i, OccursAt s w len i) (hlen : len ≤ s.length + 1)
    (hover : ∀ i < len, ¬Overruns s w len i) :
    (searchFrom p w len a).1 = none ∧
      ∀ b ∈ (searchFrom p w len a).2, b < a + len ∧ b ≤ a + s.length := by
  have hmiss : ∀ i < len, (matchAt p (a + i) w).1 = false := by
    intro i hi
    rw [Bool.eq_false_iff, ne_eq, matchAt_position h hw (by omega)]
    intro hstarts
    have hle := hstarts.length_le
    rw [List.length_drop] at hle
    -- It matches inside s but not inside the limit.
    have hbeyond : len < i + w.length := by
      by_contra hin
      exact hno ⟨i, by omega, hstarts⟩
    have hpart : w.take (len - i) <+: w := List.take_prefix _ _
    exact hover i hi ⟨by omega, hpart.trans hstarts⟩
  obtain ⟨hr, hreads⟩ := searchFrom_none hmiss
  refine ⟨hr, ?_⟩
  intro b hb
  obtain ⟨i, hi, hround⟩ := (hreads b).mp hb
  exact ⟨(round_before_limit h hw (by omega) hi.le).mpr (hover i hi) b hround,
    round_before_end h hw (by omega) b hround⟩

theorem search_fits (h : StartsWith (shift p a) (s ++ [0])) (hw : 0 ∉ w)
    (hno : ¬∃ i, OccursAt s w len i) (hr : (searchFrom p w len a).1 = none)
    (hreads : ∀ b ∈ (searchFrom p w len a).2, b < a + len ∧ b ≤ a + s.length) :
    len ≤ s.length + 1 ∧ ∀ i < len, ¬Overruns s w len i := by
  have hmiss : ∀ i < len, (matchAt p (a + i) w).1 = false := by
    by_contra hmatch
    push Not at hmatch
    obtain ⟨hlt, hfound⟩ := Nat.find_spec hmatch
    have hfirst : ∀ j < Nat.find hmatch, (matchAt p (a + j) w).1 = false := by
      intro j hj
      have hnot := Nat.find_min hmatch hj
      push Not at hnot
      exact hnot (hj.trans hlt)
    have hsome := (searchFrom_found (by simpa using hfound) hfirst hlt).1
    rw [hr] at hsome
    cases hsome
  obtain ⟨-, hrounds⟩ := searchFrom_none hmiss
  have hne : w ≠ [] := by
    rintro rfl
    exact hno ⟨0, occursAt_nil_pattern⟩
  have hshort : len ≤ s.length + 1 := by
    by_contra hlong
    have hpast := (hreads _ ((hrounds _).mpr ⟨s.length + 1, by omega, first_read hne⟩)).2
    omega
  refine ⟨hshort, ?_⟩
  intro i hi
  rw [← round_before_limit h hw (by omega) hi.le]
  intro b hb
  exact (hreads b ((hrounds b).mpr ⟨i, hi, hb⟩)).1

theorem result_of_first {i : Nat} {r : Option Nat} (hi : OccursAt s w len i)
    (hfirst : ∀ j < i, ¬OccursAt s w len j) (hr : r = some (a + i)) (b : Nat) :
    r = some b ↔ ∃ i, b = a + i ∧ OccursAt s w len i ∧ ∀ j < i, ¬OccursAt s w len j := by
  rw [hr]
  constructor
  · intro hb
    exact ⟨i, (Option.some.inj hb).symm, hi, hfirst⟩
  · rintro ⟨j, rfl, hj, hfirst'⟩
    rcases lt_trichotomy i j with hlt | rfl | hlt
    · exact absurd hi (hfirst' i hlt)
    · rfl
    · exact absurd hj (hfirst j hlt)

theorem result_of_none {r : Option Nat} (hno : ¬∃ i, OccursAt s w len i) (hr : r = none)
    (b : Nat) :
    r = some b ↔ ∃ i, b = a + i ∧ OccursAt s w len i ∧ ∀ j < i, ¬OccursAt s w len j := by
  rw [hr]
  constructor
  · intro hb
    cases hb
  · rintro ⟨i, -, hi, -⟩
    exact absurd ⟨i, hi⟩ hno

theorem StrnstrRight.none_iff (h : StrnstrRight p a s w len) :
    (strnstr p a w len).1 = none ↔ ¬∃ i, OccursAt s w len i := by
  constructor
  · intro hnone hsome
    have hfirst : ∀ j < Nat.find hsome, ¬OccursAt s w len j := fun j hj => Nat.find_min hsome hj
    have hres := (h.result _).mpr ⟨_, rfl, Nat.find_spec hsome, hfirst⟩
    rw [hnone] at hres
    cases hres
  · intro hno
    by_contra hsome
    obtain ⟨b, hb⟩ := Option.ne_none_iff_exists'.mp hsome
    obtain ⟨i, -, hi, -⟩ := (h.result b).mp hb
    exact hno ⟨i, hi⟩

theorem occursAt_nil {i : Nat} : OccursAt [] w len i ↔ w = [] ∧ i = 0 := by
  constructor
  · rintro ⟨hbound, -⟩
    rw [List.length_nil, Nat.min_zero] at hbound
    exact ⟨List.length_eq_zero_iff.mp (by omega), by omega⟩
  · rintro ⟨rfl, rfl⟩
    exact occursAt_nil_pattern

theorem strnstr_empty (h : StartsWith (shift p a) [0]) (hlen : 0 < len) :
    StrnstrRight p a [] w len := by
  have hnul : p a = 0 := (startsWith_cons.mp h).1
  have hrun : strnstr p a w len = (if w = [] then some a else none, [a]) := by
    simp [strnstr, hnul]
  constructor
  · rw [hrun]
    by_cases hw : w = []
    · exact result_of_first (i := 0) (occursAt_nil.mpr ⟨hw, rfl⟩) (fun j hj => by omega)
        (if_pos hw)
    · exact result_of_none (fun ⟨i, hi⟩ => hw (occursAt_nil.mp hi).1) (if_neg hw)
  · rw [hrun]
    simp [hlen]

theorem strnstr_search (w : List UInt8) (len : Nat) (h : StartsWith (shift p a) (s ++ [0]))
    (hs : 0 ∉ s) (hne : s ≠ []) :
    strnstr p a w len =
      ((searchFrom p w (u32 (a + len) - a) a).1,
        a :: (searchFrom p w (u32 (a + len) - a) a).2) := by
  obtain ⟨c, t, rfl⟩ := List.exists_cons_of_ne_nil hne
  have hc : p a = c := (startsWith_cons.mp h).1
  have hne0 : p a ≠ 0 := by
    rw [hc]
    exact fun h0 => hs (h0 ▸ List.mem_cons_self)
  simp [strnstr, hne0]

theorem strnstr_right_of_search {rounds : Nat} (hrounds : u32 (a + len) - a = rounds)
    (h : StartsWith (shift p a) (s ++ [0])) (hs : 0 ∉ s) (hne : s ≠ []) (hlen : 0 < len)
    (hr : ∀ b, (searchFrom p w rounds a).1 = some b ↔
      ∃ i, b = a + i ∧ OccursAt s w len i ∧ ∀ j < i, ¬OccursAt s w len j)
    (hreads : ∀ b ∈ (searchFrom p w rounds a).2, b < a + len ∧ b ≤ a + s.length) :
    StrnstrRight p a s w len := by
  have hrun := strnstr_search w len h hs hne
  rw [hrounds] at hrun
  constructor
  · rw [hrun]
    exact hr
  · rw [hrun]
    intro b hb
    rcases List.mem_cons.mp hb with rfl | hb
    · omega
    · exact hreads b hb

theorem rounds_of_fit (h : a + len < 4294967296) : u32 (a + len) - a = len := by
  rw [u32, Nat.mod_eq_of_lt h, Nat.add_sub_cancel_left]

theorem rounds_of_wrap (ha : a < 4294967296) (hlen : len < 4294967296)
    (h : ¬a + len < 4294967296) : u32 (a + len) - a = 0 := by
  rw [u32]
  omega

theorem strnstr_right_of_fits (h : StartsWith (shift p a) (s ++ [0])) (hs : 0 ∉ s) (hw : 0 ∉ w)
    (ha : a < 4294967296) (hlen : len < 4294967296) (hfits : SearchFits a s w len) :
    StrnstrRight p a s w len := by
  obtain ⟨hpos, hcase⟩ := hfits
  by_cases hne : s = []
  · subst hne
    exact strnstr_empty h hpos
  have hcase := hcase.resolve_left hne
  split_ifs at hcase with hwrap
  · have hrounds := rounds_of_fit hwrap
    rcases Classical.em (∃ i, OccursAt s w len i) with hocc | hno
    · have hfirst : ∀ j < Nat.find hocc, ¬OccursAt s w len j := fun j hj => Nat.find_min hocc hj
      obtain ⟨hr, hreads⟩ := search_finds h hw (Nat.find_spec hocc) hfirst hpos
      exact strnstr_right_of_search hrounds h hs hne hpos
        (result_of_first (Nat.find_spec hocc) hfirst hr) hreads
    · obtain ⟨hshort, hover⟩ := hcase.resolve_left hno
      obtain ⟨hr, hreads⟩ := search_misses h hw hno hshort hover
      exact strnstr_right_of_search hrounds h hs hne hpos (result_of_none hno hr) hreads
  · -- The limit wraps to an address below s1: no round at all.
    have hrounds := rounds_of_wrap ha hlen hwrap
    refine strnstr_right_of_search hrounds h hs hne hpos (result_of_none hcase rfl) ?_
    intro b hb
    cases hb

theorem strnstr_fits_of_right (h : StartsWith (shift p a) (s ++ [0])) (hs : 0 ∉ s) (hw : 0 ∉ w)
    (ha : a < 4294967296) (hlen : len < 4294967296)
    (hright : StrnstrRight p a s w len) : SearchFits a s w len := by
  have hstart : a ∈ (strnstr p a w len).2 := by
    by_cases hnul : p a = 0
    · simp [strnstr, hnul]
    · simp [strnstr, hnul]
  have hpos := (hright.reads a hstart).1
  refine ⟨by omega, ?_⟩
  by_cases hne : s = []
  · exact .inl hne
  refine .inr ?_
  have hrun := strnstr_search w len h hs hne
  have hnone := hright.none_iff
  have hreads := hright.reads
  rw [hrun] at hnone hreads
  split_ifs with hwrap
  · have hrounds := rounds_of_fit hwrap
    rw [hrounds] at hnone hreads
    rw [or_iff_not_imp_left]
    intro hno
    exact search_fits h hw hno (hnone.mpr hno) fun b hb => hreads b (List.mem_cons_of_mem a hb)
  · have hrounds := rounds_of_wrap ha hlen hwrap
    rw [hrounds] at hnone
    exact hnone.mp rfl

theorem strnstr_right_iff (p : Buf) (a : Nat) (s1 s2 : List UInt8) (len : Nat)
    (h1 : StartsWith (shift p a) (s1 ++ [0])) (hs1 : 0 ∉ s1) (hs2 : 0 ∉ s2)
    (ha : a + s1.length < 4294967296) (hlen : len < 4294967296) :
    StrnstrRight p a s1 s2 len ↔ SearchFits a s1 s2 len :=
  have hstart : a < 4294967296 := by omega
  ⟨strnstr_fits_of_right h1 hs1 hs2 hstart hlen, strnstr_right_of_fits h1 hs1 hs2 hstart hlen⟩

theorem strnstr_right_iff_abc :
    StrnstrRight (store (fun _ => 0) 0 (ascii "abc")) 0 (ascii "abc") (ascii "bc") 3 ∧
      ¬StrnstrRight (store (fun _ => 0) 0 (ascii "abc")) 0 (ascii "abc") (ascii "bc") 2 := by
  have h {len : Nat} := strnstr_right_iff (store (fun _ => 0) 0 (ascii "abc")) 0 (ascii "abc")
    (ascii "bc") len (by decide +kernel) (by decide +kernel) (by decide +kernel)
    (by decide +kernel)
  constructor
  · refine (h (by decide)).mpr ⟨by decide, Or.inr ?_⟩
    rw [if_pos (by decide)]
    exact Or.inl ⟨1, by decide +kernel⟩
  · intro hright
    obtain ⟨-, hnil | hfits⟩ := (h (by decide)).mp hright
    · exact absurd hnil (by decide)
    · rw [if_pos (by decide)] at hfits
      rcases hfits with ⟨i, hoccurs⟩ | ⟨-, hnone⟩
      · obtain rfl : i = 0 := by
          have hlen := hoccurs.1
          simp [ascii] at hlen
          omega
        exact absurd hoccurs (by decide +kernel)
      · exact hnone 1 (by decide) ⟨by decide, by decide +kernel⟩

-- "bc" is found in "abc" though only "ab" is to be searched.
theorem strnstr_beyond_limit :
    ¬∀ (p : Buf) (a : Nat) (s1 s2 : List UInt8) (len : Nat),
      StartsWith (shift p a) (s1 ++ [0]) → 0 ∉ s1 → 0 ∉ s2 → a + s1.length < 4294967296 →
        len < 4294967296 → StrnstrRight p a s1 s2 len := by
  intro hall
  have hright := hall (store (fun _ => 0) 0 (ascii "abc")) 0 (ascii "abc") (ascii "bc") 2
    (by decide +kernel) (by decide +kernel) (by decide +kernel) (by decide +kernel) (by decide)
  have hread : 2 ∈ (strnstr (store (fun _ => 0) 0 (ascii "abc")) 0 (ascii "bc") 2).2 := by
    decide +kernel
  exact absurd (hright.reads 2 hread).1 (by decide)

end NonOsLite
