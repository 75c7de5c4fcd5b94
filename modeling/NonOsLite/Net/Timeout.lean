import NonOsLite.Net.Session
import NonOsLite.Timer.Ticks

namespace NonOsLite
open ByteBuf InputMachine Timer

structure SameTimer (s t : Net) : Prop where
  timeHandler : t.loop.timeHandler = s.loop.timeHandler
  timeStart : t.loop.timeStart = s.loop.timeStart
  timeDelta : t.loop.timeDelta = s.loop.timeDelta

def TimeoutPending : Loop → LoopInput → Prop
  | .running s, .frame inpkt len => SameTimer s (netReceive s inpkt len)
  | .running s, .poll key =>
      key ≠ 113 ∧ polled s = tick (arpTimeoutCheck s) ∧
        (polled s).loop.netState = .netloopContinue
  | .done _ _, _ => False

-- Every poll after NetSetTimeout(iv, f) with the timeout pending calls f exactly when more than the
-- requested time has passed; s₁ is the state from which the loop goes on after the call.
def TimeoutLasts (p : Platform) (iv : Nat) (f : THand) : Prop :=
  ∀ (protocol : Proto) (s₀ s₁ s : Net) (xs : List LoopInput), s₀.cfg.sysHz = p.configSysHz →
    SameTimer (netSetTimeout s₀ iv f) s₁ →
    Meets (netLoopStep protocol) TimeoutPending (.running s₁) xs →
    run (netLoopStep protocol) (.running s₁) xs = .running s →
    polled s =
      if iv * p.configSysHz / 1000 < sub32 (getTimer (arpTimeoutCheck s) 0) (getTimer s₀ 0) then
        thand f (expired (arpTimeoutCheck s))
      else tick (arpTimeoutCheck s)

variable {s t u : Net} {f : THand} {iv : Nat} {protocol : Proto}

theorem SameTimer.trans (h : SameTimer s t) (k : SameTimer t u) : SameTimer s u :=
  ⟨k.timeHandler.trans h.timeHandler, k.timeStart.trans h.timeStart, k.timeDelta.trans h.timeDelta⟩

theorem Sends.sameTimer (h : Sends s t) : SameTimer s t :=
  ⟨congrArg LoopVars.timeHandler h.loop, congrArg LoopVars.timeStart h.loop,
    congrArg LoopVars.timeDelta h.loop⟩

theorem netLoopStep_pending (protocol : Proto) {x : LoopInput} (h : TimeoutPending (.running s) x) :
    ∃ t, netLoopStep protocol (.running s) x = .running t ∧ SameTimer s t := by
  cases x with
  | frame inpkt len => exact ⟨_, rfl, h⟩
  | poll key =>
    obtain ⟨hkey, htick, hstate⟩ := h
    refine ⟨polled s, ?_, ?_⟩
    · have hpolled : timeoutCheck (arpTimeoutCheck s) = polled s := rfl
      simp only [netLoopStep, netLoopPoll, if_neg hkey, hpolled, hstate]
    · rw [htick]
      exact ((arpTimeoutCheck_sends s).trans (tick_sends _)).sameTimer

theorem run_pending {xs : List LoopInput}
    (h : Meets (netLoopStep protocol) TimeoutPending (.running s) xs)
    (hrun : run (netLoopStep protocol) (.running s) xs = .running t) : SameTimer s t := by
  induction xs generalizing s with
  | nil =>
    obtain rfl : s = t := Loop.running.inj hrun
    exact ⟨rfl, rfl, rfl⟩
  | cons x xs ih =>
    obtain ⟨hx, hxs⟩ := h
    obtain ⟨u, hu, hsame⟩ := netLoopStep_pending protocol hx
    rw [hu] at hxs
    rw [run_cons, hu] at hrun
    exact hsame.trans (ih hxs hrun)

theorem polled_set {s₀ : Net} (hiv : 1 ≤ iv) (h : SameTimer (netSetTimeout s₀ iv f) s) :
    polled s =
      if u32 (iv * s₀.cfg.sysHz) / 1000 <
          sub32 (getTimer (arpTimeoutCheck s) 0) (getTimer s₀ 0) then
        thand f (expired (arpTimeoutCheck s))
      else tick (arpTimeoutCheck s) := by
  have hpositive : iv ≠ 0 := Nat.one_le_iff_ne_zero.mp hiv
  obtain ⟨hhandler, hstart, hdelta⟩ := h.trans (arpTimeoutCheck_sends s).sameTimer
  simp only [netSetTimeout, if_neg hpositive, tick] at hhandler hstart hdelta
  simp only [polled, timeoutCheck_eq hhandler, timerExpired, hstart, hdelta]

theorem tftpTimeout_count (s : Net) :
    (tftpTimeout s).tftp.tftpTimeoutCount = s.tftp.tftpTimeoutCount + 1 := by
  unfold tftpTimeout
  extract_lets tftp s₁ s₂
  have harmed : s₂.tftp = s₁.tftp := (netSetTimeout_sets _ _ _).tftp
  split
  · rfl
  · split
    · rw [tftpSend_tftp, harmed]
    · rw [harmed]

theorem thand_expired_ne (s : Net) (f : THand) (h : s.loop.netState = .netloopContinue) :
    thand f (expired s) ≠ tick s := by
  intro heq
  cases f with
  | pingTimeout =>
    have hstate : NetLoopState.netloopFail = s.loop.netState :=
      congrArg (fun t : Net => t.loop.netState) heq
    rw [h] at hstate
    cases hstate
  | tftpTimeout =>
    have hcount := congrArg (fun t : Net => t.tftp.tftpTimeoutCount) heq
    exact absurd ((tftpTimeout_count (expired s)).symm.trans hcount) (Nat.succ_ne_self _)

theorem timeout_lasts_iff (p : Platform) (iv : Nat) (f : THand) (hiv : 1 ≤ iv)
    (hfit : iv * p.configSysHz / 1000 < 4294967296) :
    TimeoutLasts p iv f ↔ iv * p.configSysHz < 4294967296 := by
  constructor
  · intro h
    by_contra hover
    have hshort : u32 (iv * p.configSysHz) / 1000 + 1 ≤ iv * p.configSysHz / 1000 := by
      simp only [u32]
      omega
    -- the timer reads 0 when the timeout is set and one unit past the short delta from then on
    let clock : Nat → Nat := fun k => if k = 0 then 0 else u32 (iv * p.configSysHz) / 1000 + 1
    let s₀ : Net := netBoot netEtherNullAddr p.configSysHz clock (fun _ => 0)
    let s₁ : Net := netSetTimeout s₀ iv f
    have hsame : SameTimer s₁ s₁ := ⟨rfl, rfl, rfl⟩
    have hpositive : iv ≠ 0 := Nat.one_le_iff_ne_zero.mp hiv
    have hidle : arpTimeoutCheck s₁ = s₁ := by
      simp [arpTimeoutCheck, netSetTimeout, hpositive, tick, s₀, s₁, netBoot]
    have hcontinue : s₁.loop.netState = .netloopContinue := (netSetTimeout_sets s₀ iv f).netState
    have hread : sub32 (getTimer s₁ 0) (getTimer s₀ 0) = u32 (iv * p.configSysHz) / 1000 + 1 := by
      have hlt := u32_lt (iv * p.configSysHz)
      simp only [netSetTimeout, if_neg hpositive, getTimer, tick, s₀, s₁, netBoot, clock, if_true,
        if_neg (Nat.succ_ne_zero 0), u32_zero]
      rw [u32_of_lt (by omega)]
      simp [sub32]
    have hlasts := h .ping s₀ s₁ s₁ [] rfl hsame trivial rfl
    have hcalled : u32 (iv * s₀.cfg.sysHz) / 1000 < u32 (iv * p.configSysHz) / 1000 + 1 :=
      Nat.lt_succ_self _
    rw [polled_set hiv hsame, hidle, hread, if_pos hcalled,
      if_neg (Nat.not_lt.mpr hshort)] at hlasts
    exact thand_expired_ne s₁ f hcontinue hlasts
  · intro hlt protocol s₀ s₁ s xs hhz hset hpending hrun
    have hsame := hset.trans (run_pending hpending hrun)
    rw [polled_set hiv hsame, hhz, u32_of_lt hlt]

theorem timeout_lasts_ten_seconds : TimeoutLasts .ahb 10000 .pingTimeout :=
  (timeout_lasts_iff .ahb 10000 .pingTimeout (by decide) (by decide)).mpr (by decide)

theorem timeout_short : ¬∀ (p : Platform) (iv : Nat) (f : THand), 1 ≤ iv →
    iv * p.configSysHz / 1000 < 4294967296 → TimeoutLasts p iv f := by
  intro h
  have hlasts := h .axi 5000 .tftpTimeout (by decide) (by decide)
  let s₀ : Net := netBoot netEtherNullAddr 1000000 (fun k => 705033 * k) (fun _ => 0)
  have hpoll := hlasts .tftpget s₀ (netSetTimeout s₀ 5000 .tftpTimeout) _ [] rfl ⟨rfl, rfl, rfl⟩
    trivial rfl
  rw [if_neg (by decide +kernel)] at hpoll
  have hcount := congrArg (fun t : Net => t.tftp.tftpTimeoutCount) hpoll
  exact absurd hcount (by decide +kernel)

end NonOsLite
