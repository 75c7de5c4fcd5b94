import NonOsLite.Net.Cleanup

namespace NonOsLite
open ByteBuf InputMachine Timer

structure SameWait (s t : Net) : Prop where
  netArpWaitPacketIP : t.tx.netArpWaitPacketIP = s.tx.netArpWaitPacketIP
  netArpWaitTimerStart : t.tx.netArpWaitTimerStart = s.tx.netArpWaitTimerStart
  netArpWaitTry : t.tx.netArpWaitTry = s.tx.netArpWaitTry

inductive JustHeld (start : Nat) : Net → Prop where
  | udp {s : Net} {ether : EtherPtr} {dest : IPaddr} (h : Unresolved s ether dest)
      (dport sport payloadLen : Nat) (hstart : getTimer s 0 = start) :
      JustHeld start (netSendUdpPacket s ether dest dport sport payloadLen)
  | ping {s : Net} (h : s.ping.netPingIP ≠ 0) (hstart : getTimer s 0 = start) :
      JustHeld start (pingSend s)

def StaysHeld : Loop → LoopInput → Prop
  | .running s, .frame inpkt len =>
      let t := netReceive s inpkt len
      t.tx.netArpWaitPacketIP ≠ 0 ∧ t.tx.netIPID = s.tx.netIPID
  | .running s, .poll key =>
      key ≠ 113 ∧ (polled s).tx.netIPID = s.tx.netIPID ∧
        (polled s).loop.netState = .netloopContinue
  | .done _ _, _ => False

instance : (l : Loop) → (x : LoopInput) → Decidable (StaysHeld l x)
  | .running s, .frame inpkt len => inferInstanceAs (Decidable
      ((netReceive s inpkt len).tx.netArpWaitPacketIP ≠ 0 ∧
        (netReceive s inpkt len).tx.netIPID = s.tx.netIPID))
  | .running s, .poll key => inferInstanceAs (Decidable
      (key ≠ 113 ∧ (polled s).tx.netIPID = s.tx.netIPID ∧
        (polled s).loop.netState = .netloopContinue))
  | .done _ _, _ => inferInstanceAs (Decidable False)

def repeatAt : Loop → LoopInput → List Nat
  | .running s, .poll key =>
      if key ≠ 113 ∧ transmitted (arpTimeoutCheck s) ≠ transmitted s then [getTimer s 0] else []
  | _, _ => []

def RetryExceeded (s : Net) : Prop :=
  s.tx.netArpWaitPacketIP ≠ 0 ∧ arpExpired s ∧ arpTimeoutCount ≤ s.tx.netArpWaitTry + 1

-- At least the five seconds of ARP_TIMEOUT lie between two readings of the platform's timer.
def Apart (p : Platform) (t u : Nat) : Prop :=
  arpTimeoutMSecs * p.configSysHz ≤ sub32 u t * 1000

instance (p : Platform) (t u : Nat) : Decidable (Apart p t u) :=
  inferInstanceAs (Decidable (arpTimeoutMSecs * p.configSysHz ≤ sub32 u t * 1000))

def GivesUp (protocol : Proto) : Loop → LoopInput → Prop
  | .running s, .poll key => key ≠ 113 → RetryExceeded s →
      (netLoopPoll protocol s key).All
        (fun t => t.tx.netArpWaitPacketIP = 0 ∨ t.loop.netState ≠ .netloopContinue ∨
          t.tx.netIPID ≠ s.tx.netIPID)
        (fun _ _ => True)
  | _, _ => True

structure RetryBudget (p : Platform) (protocol : Proto) (start : Nat) (l : Loop)
    (xs : List LoopInput) : Prop where
  count : (start :: outputs (netLoopStep protocol) repeatAt l xs).length ≤ arpTimeoutCount
  apart : (start :: outputs (netLoopStep protocol) repeatAt l xs).IsChain (Apart p)
  givesUp : Meets (netLoopStep protocol) (GivesUp protocol) l xs

-- A poll that repeats the request comes in time on this platform's clock, and one that finds the
-- retry count exceeded is the last.
def TimelyRetry (p : Platform) : Loop → LoopInput → Prop
  | .running s, .poll key =>
      key ≠ 113 → s.tx.netArpWaitPacketIP ≠ 0 → arpExpired s →
        (s.tx.netArpWaitTry + 1 < arpTimeoutCount →
          Apart p s.tx.netArpWaitTimerStart (getTimer s 0)) ∧
        (arpTimeoutCount ≤ s.tx.netArpWaitTry + 1 → PollEnds s ∨ TimeoutSends s)
  | _, _ => True

instance (p : Platform) : (l : Loop) → (x : LoopInput) → Decidable (TimelyRetry p l x)
  | .running s, .poll key => inferInstanceAs (Decidable
      (key ≠ 113 → s.tx.netArpWaitPacketIP ≠ 0 → arpExpired s →
        (s.tx.netArpWaitTry + 1 < arpTimeoutCount →
          Apart p s.tx.netArpWaitTimerStart (getTimer s 0)) ∧
        (arpTimeoutCount ≤ s.tx.netArpWaitTry + 1 → PollEnds s ∨ TimeoutSends s)))
  | .running _, .frame _ _ => inferInstanceAs (Decidable True)
  | .done _ _, _ => inferInstanceAs (Decidable True)

def BuildsAtMostOne (s t : Net) : Prop := t.tx = s.tx ∨ t.tx.netIPID = u32 (s.tx.netIPID + 1)

structure Retrying (p : Platform) (s : Net) (times : List Nat) : Prop where
  state : s.loop.netState ≠ .netloopRestart
  waits : s.tx.netArpWaitPacketIP ≠ 0
  last : times.getLast? = some s.tx.netArpWaitTimerStart
  tries : s.tx.netArpWaitTry = times.length
  few : times.length < arpTimeoutCount
  apart : times.IsChain (Apart p)

variable {s t : Net} {p : Platform} {protocol : Proto} {times : List Nat}

theorem BuildsAtMostOne.tx_eq (h : BuildsAtMostOne s t) (hid : t.tx.netIPID = s.tx.netIPID) :
    t.tx = s.tx := by
  rcases h with h | h
  · exact h
  · exact absurd (h.symm.trans hid) (u32_succ_ne _)

theorem netSendUdpPacket_builds (s : Net) (ether : EtherPtr) (dest : IPaddr)
    (dport sport payloadLen : Nat) :
    (netSendUdpPacket s ether dest dport sport payloadLen).tx.netIPID =
      u32 (s.tx.netIPID + 1) := by
  by_cases h : Unresolved s ether dest
  · exact congrArg Transmit.netIPID (netSendUdpPacket_holds h dport sport payloadLen).tx
  · obtain ⟨pkt, -, htx, -⟩ := netSendUdpPacket_resolved h dport sport payloadLen
    exact congrArg Transmit.netIPID htx

theorem tftpSend_builds (s : Net) : (tftpSend s).tx.netIPID = u32 (s.tx.netIPID + 1) := by
  unfold tftpSend
  exact netSendUdpPacket_builds _ _ _ _ _ _

theorem TftpStep.builds (h : TftpStep s t) : BuildsAtMostOne s t := by
  rcases h with ht | ⟨u, hu, ht⟩
  · exact Or.inl ht.tx
  · refine Or.inr ?_
    rw [ht.tx, tftpSend_builds, hu.tx]

theorem receiveIcmp_tx (s : Net) (et : Buf) (ip : Nat) (len : Int) :
    (receiveIcmp s et ip len).tx = s.tx := by
  unfold receiveIcmp
  split
  · rfl
  · unfold pingReceive
    extract_lets icmph srcIP u
    split
    · split <;> rfl
    · split <;> rfl

theorem netReceive_waits (s : Net) (inpkt : Buf) (len : Int) :
    (netReceive s inpkt len).tx.netArpWaitPacketIP = 0 ∨
      BuildsAtMostOne s (netReceive s inpkt len) := by
  cases hd : netDecode s.cfg inpkt len with
  | drop =>
    simp only [netReceive, hd]
    exact Or.inr (Or.inl rfl)
  | arp ip n =>
    simp only [netReceive, hd]
    by_cases hwait : s.tx.netArpWaitPacketIP = 0
    · rcases arpReceive_idle hwait with heq | heq
      · rw [heq]
        exact Or.inl hwait
      · rw [heq]
        exact Or.inl hwait
    · by_cases hans : Answers s inpkt ip n
      · rw [arpReceive_answers hans hwait]
        exact Or.inl rfl
      · rcases arpReceive_not_answers hans with heq | heq
        · rw [heq]
          exact Or.inr (Or.inl rfl)
        · rw [heq]
          exact Or.inr (Or.inl rfl)
  | icmp ip n =>
    simp only [netReceive, hd]
    exact Or.inr (Or.inl (receiveIcmp_tx _ _ _ _))
  | udp ip n u =>
    simp only [netReceive, hd]
    cases s.loop.udpPacketHandler with
    | dummyHandler => exact Or.inr (Or.inl rfl)
    | tftpHandler => exact Or.inr (tftpHandler_step s u.pkt u.dport u.sip u.sport u.len).builds

theorem arpTimeoutCheck_ipID (s : Net) : (arpTimeoutCheck s).tx.netIPID = s.tx.netIPID := by
  rcases arpTimeoutCheck_cases s with ⟨-, h⟩ | ⟨-, -, h⟩ | ⟨-, -, -, h⟩ | ⟨-, -, -, h⟩
  · rw [h]
  · rw [h]
    rfl
  · rw [h]
    rfl
  · have hid := congrArg Transmit.netIPID h.tx
    exact hid

theorem polled_builds (s : Net) : BuildsAtMostOne (arpTimeoutCheck s) (polled s) := by
  rw [polled]
  generalize arpTimeoutCheck s = u
  cases hc : handlerCalled u with
  | none => exact Or.inl (timeoutCheck_tx hc)
  | some x =>
    rw [timeoutCheck_called hc]
    cases x with
    | pingTimeout => exact Or.inl rfl
    | tftpTimeout => exact (tftpTimeout_step (expired u)).builds

theorem polled_kept (h : (polled s).tx.netIPID = s.tx.netIPID) :
    (polled s).tx = (arpTimeoutCheck s).tx :=
  (polled_builds s).tx_eq (h.trans (arpTimeoutCheck_ipID s).symm)

theorem JustHeld.retrying {start : Nat} (p : Platform) (h : JustHeld start t) (hsame : SameWait t s)
    (hstate : s.loop.netState ≠ .netloopRestart) : Retrying p s [start] := by
  have hheld : ∃ ip mac size, ip ≠ 0 ∧ ∃ s₀, getTimer s₀ 0 = start ∧ HoldsFor s₀ t ip mac size := by
    cases h with
    | @udp s₀ ether dest hu dport sport payloadLen hstart =>
      refine ⟨_, _, _, ?_, s₀, hstart, netSendUdpPacket_holds hu dport sport payloadLen⟩
      split
      · decide
      · assumption
    | @ping s₀ hip hstart => exact ⟨_, _, _, hip, s₀, hstart, pingSend_holds s₀⟩
  obtain ⟨ip, mac, size, hip, s₀, hstart, hholds⟩ := hheld
  have hwait : t.tx.netArpWaitPacketIP = ip := congrArg Transmit.netArpWaitPacketIP hholds.tx
  have htimer : t.tx.netArpWaitTimerStart = getTimer s₀ 0 :=
    congrArg Transmit.netArpWaitTimerStart hholds.tx
  have htry : t.tx.netArpWaitTry = 1 := congrArg Transmit.netArpWaitTry hholds.tx
  exact {
    state := hstate
    waits := by rwa [hsame.netArpWaitPacketIP, hwait]
    last := by rw [hsame.netArpWaitTimerStart, htimer, hstart, List.getLast?_singleton]
    tries := by rw [hsame.netArpWaitTry, htry, List.length_singleton]
    few := Nat.lt_of_sub_eq_succ rfl
    apart := List.isChain_singleton _ }

theorem tftpTimeout_sends (hcount : s.tftp.tftpTimeoutCount + 1 ≤ s.tftp.tftpTimeoutCountMax)
    (hstate : s.tftp.tftpState ≠ .recvWrq) :
    (tftpTimeout s).tx.netIPID = u32 (s.tx.netIPID + 1) := by
  rcases tftpTimeout_cases s with ⟨hmax, -⟩ | ⟨hrecv, -⟩ | ⟨-, -, t, ht, -, heq⟩
  · exact absurd hcount (Nat.not_le.mpr hmax)
  · exact absurd hrecv hstate
  · rw [heq, tftpSend_builds, ht.tx]

theorem timeoutSends_builds (h : TimeoutSends s) :
    (polled s).tx.netIPID = u32 (s.tx.netIPID + 1) := by
  obtain ⟨hc, hcount, hstate⟩ := h
  have htftp : (expired (arpTimeoutCheck s)).tftp = s.tftp := (arpTimeoutCheck_sends s).tftp
  rw [polled, timeoutCheck_called hc, thand, tftpTimeout_sends (htftp ▸ hcount) (htftp ▸ hstate)]
  exact congrArg (fun n => u32 (n + 1)) (arpTimeoutCheck_ipID s)

theorem repeats_iff (s : Net) : transmitted (arpTimeoutCheck s) ≠ transmitted s ↔
    s.tx.netArpWaitPacketIP ≠ 0 ∧ arpExpired s ∧ s.tx.netArpWaitTry + 1 < arpTimeoutCount := by
  rcases arpTimeoutCheck_cases s with ⟨hw, h⟩ | ⟨-, he, h⟩ | ⟨-, -, ht, h⟩ | ⟨hw, he, ht, h⟩
  · rw [h]
    exact iff_of_false (fun hne => hne rfl) (fun hr => hr.1 hw)
  · rw [h]
    exact iff_of_false (fun hne => hne rfl) (fun hr => he hr.2.1)
  · rw [h]
    exact iff_of_false (fun hne => hne rfl) (fun hr => Nat.not_lt.mpr ht hr.2.2)
  · rw [h.transmitted]
    exact iff_of_true (List.cons_ne_self _ _) ⟨hw, he, ht⟩

theorem Retrying.same (h : Retrying p s times) (hstate : t.loop.netState ≠ .netloopRestart)
    (hsame : SameWait s t) : Retrying p t times where
  state := hstate
  waits := by rw [hsame.netArpWaitPacketIP]; exact h.waits
  last := by rw [hsame.netArpWaitTimerStart]; exact h.last
  tries := by rw [hsame.netArpWaitTry]; exact h.tries
  few := h.few
  apart := h.apart

theorem repeatAt_poll {key : UInt8} (hkey : key ≠ 113) : repeatAt (.running s) (.poll key) =
    if s.tx.netArpWaitPacketIP ≠ 0 ∧ arpExpired s ∧ s.tx.netArpWaitTry + 1 < arpTimeoutCount
      then [getTimer s 0] else [] := by
  simp only [repeatAt, repeats_iff, hkey, ne_eq, not_false_eq_true, true_and]

theorem Retrying.poll_cases (h : Retrying p s times) {key : UInt8} (hkey : key ≠ 113)
    (hok : TimelyRetry p (.running s) (.poll key)) :
    (repeatAt (.running s) (.poll key) = [] ∧ ¬RetryExceeded s ∧ SameWait s (arpTimeoutCheck s)) ∨
    (repeatAt (.running s) (.poll key) = [] ∧ (PollEnds s ∨ TimeoutSends s)) ∨
    (repeatAt (.running s) (.poll key) = [getTimer s 0] ∧ ¬RetryExceeded s ∧
      Apart p s.tx.netArpWaitTimerStart (getTimer s 0) ∧
      s.tx.netArpWaitTry + 1 < arpTimeoutCount ∧
      (arpTimeoutCheck s).tx.netArpWaitTimerStart = getTimer s 0 ∧
      (arpTimeoutCheck s).tx.netArpWaitTry = s.tx.netArpWaitTry + 1) := by
  rcases arpTimeoutCheck_cases s with ⟨hw, -⟩ | ⟨-, he, heq⟩ | ⟨hw, he, ht, -⟩ | ⟨hw, he, ht, hask⟩
  · exact absurd hw h.waits
  · have hx : repeatAt (.running s) (.poll key) = [] := by
      rw [repeatAt_poll hkey, if_neg (fun hr => he hr.2.1)]
    refine Or.inl ⟨hx, fun hr => he hr.2.1, ?_⟩
    rw [heq]
    exact ⟨rfl, rfl, rfl⟩
  · have hx : repeatAt (.running s) (.poll key) = [] := by
      rw [repeatAt_poll hkey, if_neg (fun hr => Nat.not_lt.mpr ht hr.2.2)]
    exact Or.inr (Or.inl ⟨hx, (hok hkey hw he).2 ht⟩)
  · have hx : repeatAt (.running s) (.poll key) = [getTimer s 0] := by
      rw [repeatAt_poll hkey, if_pos ⟨hw, he, ht⟩]
    have hstart := congrArg Transmit.netArpWaitTimerStart hask.tx
    have htry := congrArg Transmit.netArpWaitTry hask.tx
    exact Or.inr (Or.inr ⟨hx, fun hr => Nat.not_lt.mpr hr.2.2 ht, (hok hkey hw he).1 ht, ht,
      hstart, htry⟩)

theorem Retrying.again (h : Retrying p s times) {u : Nat} (hu : Apart p s.tx.netArpWaitTimerStart u) :
    (times ++ [u]).IsChain (Apart p) := by
  rw [List.isChain_append]
  refine ⟨h.apart, List.isChain_singleton u, ?_⟩
  intro x hx y hy
  rw [h.last] at hx
  obtain rfl : s.tx.netArpWaitTimerStart = x := Option.some.inj hx
  obtain rfl : u = y := Option.some.inj hy
  exact hu

theorem Retrying.budget (h : Retrying p s times) {x : LoopInput}
    (hok : TimelyRetry p (.running s) x) :
    (times ++ repeatAt (.running s) x).length ≤ arpTimeoutCount ∧
      (times ++ repeatAt (.running s) x).IsChain (Apart p) := by
  have hnone (hx : repeatAt (.running s) x = []) :
      (times ++ repeatAt (.running s) x).length ≤ arpTimeoutCount ∧
        (times ++ repeatAt (.running s) x).IsChain (Apart p) := by
    rw [hx, List.append_nil]
    exact ⟨h.few.le, h.apart⟩
  cases x with
  | frame inpkt len => exact hnone rfl
  | poll key =>
    by_cases hkey : key = 113
    · exact hnone (if_neg (fun hr => hr.1 hkey))
    · rcases h.poll_cases hkey hok with ⟨hx, -⟩ | ⟨hx, -⟩ | ⟨hx, -, hapart, -⟩
      · exact hnone hx
      · exact hnone hx
      · rw [hx]
        exact ⟨by simpa using h.few, h.again hapart⟩

theorem Retrying.givesUp (h : Retrying p s times) (protocol : Proto) {x : LoopInput}
    (hok : TimelyRetry p (.running s) x) :
    GivesUp protocol (.running s) x := by
  cases x with
  | frame inpkt len => trivial
  | poll key =>
    intro hkey hexceeded
    have hends : PollEnds s ∨ TimeoutSends s := by
      rcases h.poll_cases hkey hok with ⟨-, hfew, -⟩ | ⟨-, hends⟩ | ⟨-, hfew, -⟩
      · exact absurd hexceeded hfew
      · exact hends
      · exact absurd hexceeded hfew
    rcases netLoopPoll_cases protocol key (polled_not_restart h.state) with
      ⟨hq, -⟩ | ⟨-, hcontinue, heq⟩ | ⟨-, -, heq⟩ | ⟨-, -, heq⟩
    · exact absurd hq hkey
    · rw [heq]
      refine Or.inr (Or.inr ?_)
      rcases hends with hends | hsends
      · exact absurd hcontinue ((pollEnds_iff s).mp hends)
      · rw [timeoutSends_builds hsends]
        exact u32_succ_ne _
    · rw [heq]
      trivial
    · rw [heq]
      trivial

theorem Retrying.step (h : Retrying p s times) (protocol : Proto) {x : LoopInput}
    (hok : TimelyRetry p (.running s) x) (hstays : StaysHeld (.running s) x) :
    ∃ t, netLoopStep protocol (.running s) x = .running t ∧
      Retrying p t (times ++ repeatAt (.running s) x) := by
  cases x with
  | frame inpkt len =>
    obtain ⟨hwait, hid⟩ := hstays
    refine ⟨_, rfl, ?_⟩
    have htx : (netReceive s inpkt len).tx = s.tx :=
      ((netReceive_waits s inpkt len).resolve_left hwait).tx_eq hid
    have hx : repeatAt (.running s) (.frame inpkt len) = [] := rfl
    rw [hx, List.append_nil]
    exact h.same (netReceive_not_restart h.state) ⟨by rw [htx], by rw [htx], by rw [htx]⟩
  | poll key =>
    obtain ⟨hkey, hid, hcontinue⟩ := hstays
    have hpolled : timeoutCheck (arpTimeoutCheck s) = polled s := rfl
    refine ⟨polled s, ?_, ?_⟩
    · simp only [netLoopStep, netLoopPoll, if_neg hkey, hpolled, hcontinue]
    have htx := polled_kept hid
    rcases h.poll_cases hkey hok with
      ⟨hx, -, hsame⟩ | ⟨-, hends | hsends⟩ | ⟨hx, -, hapart, hfew, hstart, htry⟩
    · rw [hx, List.append_nil]
      refine h.same (by rw [hcontinue]; decide) ⟨?_, ?_, ?_⟩
      · rw [htx, hsame.netArpWaitPacketIP]
      · rw [htx, hsame.netArpWaitTimerStart]
      · rw [htx, hsame.netArpWaitTry]
    · exact absurd hcontinue ((pollEnds_iff s).mp hends)
    · exact absurd ((timeoutSends_builds hsends).symm.trans hid) (u32_succ_ne _)
    · rw [hx]
      exact {
        state := by rw [hcontinue]; decide
        waits := by rw [htx, arpTimeoutCheck_waits]; exact h.waits
        last := by rw [htx, hstart, List.getLast?_concat]
        tries := by rw [htx, htry, h.tries, List.length_append, List.length_singleton]
        few := by rwa [List.length_append, List.length_singleton, ← h.tries]
        apart := h.again hapart }

theorem Retrying.run {xs : List LoopInput} (h : Retrying p s times)
    (hstays : Meets (netLoopStep protocol) StaysHeld (.running s) xs.dropLast)
    (hok : Meets (netLoopStep protocol) (TimelyRetry p) (.running s) xs) :
    (times ++ outputs (netLoopStep protocol) repeatAt (.running s) xs).length ≤ arpTimeoutCount ∧
      (times ++ outputs (netLoopStep protocol) repeatAt (.running s) xs).IsChain (Apart p) ∧
      Meets (netLoopStep protocol) (GivesUp protocol) (.running s) xs := by
  induction xs generalizing s times with
  | nil =>
    rw [outputs, List.append_nil]
    exact ⟨h.few.le, h.apart, trivial⟩
  | cons x xs ih =>
    obtain ⟨hx, hxs⟩ := hok
    have hgives := h.givesUp protocol hx
    cases xs with
    | nil =>
      obtain ⟨hcount, hapart⟩ := h.budget hx
      rw [outputs, outputs, List.append_nil]
      exact ⟨hcount, hapart, hgives, trivial⟩
    | cons y ys =>
      obtain ⟨hstay, hstays⟩ := hstays
      obtain ⟨t, ht, hnext⟩ := h.step protocol hx hstay
      rw [outputs, ← List.append_assoc]
      rw [ht] at hstays hxs ⊢
      obtain ⟨hcount, hapart, hrest⟩ := ih hnext hstays hxs
      exact ⟨hcount, hapart, hgives, ht ▸ hrest⟩

theorem retry_within_budget (p : Platform) {start : Nat} {s₀ s₁ : Net} {ys xs : List LoopInput}
    (hrun : netLoop protocol s₀ ys = .running s₁) (hheld : JustHeld start t) (hsame : SameWait t s₁)
    (hstays : Meets (netLoopStep protocol) StaysHeld (.running s₁) xs.dropLast)
    (hok : Meets (netLoopStep protocol) (TimelyRetry p) (.running s₁) xs) :
    RetryBudget p protocol start (.running s₁) xs := by
  have hstate := netLoop_not_restart protocol s₀ ys
  rw [hrun] at hstate
  obtain ⟨hcount, hapart, hgives⟩ := (hheld.retrying p hsame hstate).run hstays hok
  exact ⟨hcount, hapart, hgives⟩

def pingingBoard (sysHz : Nat) : Net :=
  prepare (netBoot (Vector.replicate 6 2) sysHz (fun k => 3000 * k) (fun _ => 0)) sampleCommand

def armedBoard (sysHz : Nat) : Net :=
  netSetTimeout { netInitLoop (netSetState (netInit (pingingBoard sysHz)) .netloopContinue) with
    loop.netBootFileXferSize := 0 } 10000 .pingTimeout

theorem retry_within_budget_ping :
    RetryBudget .ahb .ping 3000 (.running (pingSend (armedBoard 1000))) [.poll 0, .poll 0] :=
  retry_within_budget .ahb
    (show netLoop .ping (pingingBoard 1000) [] = .running (pingSend (armedBoard 1000)) from rfl)
    (.ping (by decide) (by decide)) ⟨rfl, rfl, rfl⟩ (by decide +kernel) (by decide +kernel)

theorem retry_out_of_budget : ¬∀ (p : Platform) (protocol : Proto) (start : Nat) (s₀ s₁ t : Net)
    (ys xs : List LoopInput), s₀.cfg.sysHz = p.configSysHz →
    netLoop protocol s₀ ys = .running s₁ → JustHeld start t → SameWait t s₁ →
    Meets (netLoopStep protocol) StaysHeld (.running s₁) xs.dropLast →
    RetryBudget p protocol start (.running s₁) xs := by
  intro h
  let s₁ : Net := pingSend (armedBoard 1000000)
  have hbudget := h .axi .ping 3000 (pingingBoard 1000000) s₁ s₁ [] [.poll 0, .poll 0] rfl rfl
    (.ping (by decide) (by decide)) ⟨rfl, rfl, rfl⟩ (by decide +kernel)
  have hrepeat : outputs (netLoopStep .ping) repeatAt (.running s₁) [.poll 0, .poll 0] =
      [12000] := by decide +kernel
  have hapart := hbudget.apart
  rw [hrepeat] at hapart
  exact absurd hapart (by decide)

end NonOsLite
