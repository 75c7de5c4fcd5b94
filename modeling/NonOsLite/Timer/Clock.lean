import NonOsLite.Timer.Ticks

namespace NonOsLite.Timer
open WideCounter

structure Sample where
  time : Nat
  base : Nat

def clockRun (p : Platform) : Fttmr010 → List Sample → List (Nat × Nat)
  | _, [] => []
  | s, x :: xs =>
      let r := getTimer p s (timerCounter x.time) x.base
      ((getTicks s (timerCounter x.time)).1, r.1) :: clockRun p r.2 xs

def trueTime (p : Platform) (x : Sample) : Nat :=
  toU32 ((x.time * p.configSysHz / p.timerClock : Nat) - x.base)

structure ClockCorrect (p : Platform) (xs : List Sample) : Prop where
  ticks : (clockRun p ⟨0, 0⟩ xs).map Prod.fst = xs.map Sample.time
  timer : (clockRun p ⟨0, 0⟩ xs).map Prod.snd = xs.map (trueTime p)

variable {p : Platform} {s : Fttmr010} {t : Nat}

theorem clockRun_eq {xs : List Sample} (hlow : s.tbl < 4294967296)
    (hv : value 4294967296 (wide s) = t) (hgap : Gaps 4294967296 t (xs.map Sample.time))
    (hlt : ∀ x ∈ xs, x.time < 18446744073709551616) :
    clockRun p s xs = xs.map fun x => (x.time, toU32 ((tickToTime p x.time : Int) - x.base)) := by
  induction xs generalizing s t with
  | nil => rfl
  | cons x xs ih =>
    obtain ⟨hle, hnear, hrest⟩ := hgap
    have hx := hlt x List.mem_cons_self
    obtain ⟨hticks, hwide⟩ := getTicks_spec hlow hv hle hnear hx
    have htbl : (getTicks s (timerCounter x.time)).2.tbl = x.time % 4294967296 :=
      congrArg State.low hwide
    have hlow' : (getTicks s (timerCounter x.time)).2.tbl < 4294967296 :=
      htbl ▸ Nat.mod_lt _ (by decide)
    have hv' : value 4294967296 (wide (getTicks s (timerCounter x.time)).2) = x.time := by
      rw [hwide]
      exact value_sample (by decide) hlow hv hle hnear
    have htail := ih hlow' hv' hrest (fun y hy => hlt y (List.mem_cons_of_mem _ hy))
    simp only [clockRun, getTimer, hticks, htail, List.map_cons]

-- The wrapped product is q * 2^64 short, and 390625 divides q only beyond the range of t.
theorem axi_quotient_ne {k : Int} (h : t < 18014398509481984)
    (hover : 18446744073709551616 ≤ t * 1000000) :
    ((t * 1000000 / 50000000 : Nat) : Int) ≠
      (t * 1000000 % 18446744073709551616 / 50000000 : Nat) + 4294967296 * k := by
  intro heq
  have hq : 1 ≤ t * 1000000 / 18446744073709551616 := by omega
  have hq' : t * 1000000 / 18446744073709551616 ≤ 976 := by omega
  have hsplit := Nat.div_add_mod (t * 1000000) 18446744073709551616
  have hexact : 390625 * k = 33554432 * (t * 1000000 / 18446744073709551616 : Nat) := by omega
  omega

theorem tickToTime_iff (h : t < 18014398509481984) (b : Nat) :
    toU32 ((tickToTime p t : Int) - b) = toU32 ((t * p.configSysHz / p.timerClock : Nat) - b) ↔
      t * p.configSysHz < 18446744073709551616 := by
  rw [tickToTime_eq]
  constructor
  · intro heq
    by_contra hover
    cases p with
    | a320 =>
      simp only [Platform.configSysHz] at hover
      omega
    | ahb =>
      simp only [Platform.configSysHz] at hover
      omega
    | axi =>
      simp only [Platform.configSysHz, Platform.timerClock, toU32, u64] at heq hover
      generalize hA : t * 1000000 / 50000000 = A at heq
      generalize hB : t * 1000000 % 18446744073709551616 / 50000000 = B at heq
      have hk : (A : Int) = B + 4294967296 * (((A : Int) - B) / 4294967296) := by omega
      exact axi_quotient_ne h (Nat.le_of_not_lt hover) (hA ▸ hB ▸ hk)
  · intro hlt
    rw [u64_of_lt hlt]

theorem clock_correct_iff (p : Platform) (xs : List Sample)
    (hgap : Gaps 4294967296 0 (xs.map Sample.time))
    (h54 : ∀ x ∈ xs, x.time < 18014398509481984) :
    ClockCorrect p xs ↔ ∀ x ∈ xs, x.time * p.configSysHz < 18446744073709551616 := by
  have hrun := clockRun_eq (p := p) (s := ⟨0, 0⟩) (by decide) rfl hgap
    (fun x hx => Nat.lt_trans (h54 x hx) (by decide))
  constructor
  · intro h x hx
    have htimer := h.timer
    rw [hrun, List.map_map] at htimer
    exact (tickToTime_iff (h54 x hx) x.base).mp (List.map_inj_left.mp htimer x hx)
  · intro h
    refine ⟨?_, ?_⟩
    · rw [hrun, List.map_map]
      rfl
    · rw [hrun, List.map_map]
      exact List.map_congr_left fun x hx => (tickToTime_iff (h54 x hx) x.base).mpr (h x hx)

theorem clock_correct_wrap : ClockCorrect .ahb [⟨5, 0⟩, ⟨4294967290, 7⟩, ⟨4294967300, 7⟩] :=
  (clock_correct_iff _ _ (by decide +kernel) (by decide)).mpr (by decide)

def sampleDays : List Sample := (List.range' 0 4300 4294967295).map fun t => ⟨t, 0⟩

theorem clock_wrong_in_days : ¬∀ (p : Platform) (xs : List Sample),
    Gaps 4294967296 0 (xs.map Sample.time) → (∀ x ∈ xs, x.time < 18014398509481984) →
    ClockCorrect p xs := by
  intro h
  have htimes : sampleDays.map Sample.time = List.range' 0 4300 4294967295 := by
    simp only [sampleDays, List.map_map, Function.comp_def, List.map_id']
  have hgap : Gaps 4294967296 0 (sampleDays.map Sample.time) := by
    rw [htimes]
    exact gaps_range' (by decide) (Nat.le_refl 0) (by decide)
  have h54 : ∀ x ∈ sampleDays, x.time < 18014398509481984 := by
    intro x hx
    have htime := List.mem_map_of_mem (f := Sample.time) hx
    rw [htimes] at htime
    obtain ⟨i, hi, heq⟩ := List.mem_range'.mp htime
    omega
  have htimer := (h .axi sampleDays hgap h54).timer
  have hrun := clockRun_eq (p := .axi) (s := ⟨0, 0⟩) (by decide) rfl hgap
    (fun x hx => Nat.lt_trans (h54 x hx) (by decide))
  rw [hrun, List.map_map] at htimer
  have hmem : (⟨4299 * 4294967295, 0⟩ : Sample) ∈ sampleDays :=
    List.mem_map.mpr ⟨_, List.mem_range'.mpr ⟨4299, by decide, rfl⟩, rfl⟩
  have hlast := List.map_inj_left.mp htimer _ hmem
  exact absurd hlast (by decide +kernel)

end NonOsLite.Timer
