import NonOsLite.Net.ArpHold
import NonOsLite.Net.Timeout

namespace NonOsLite
open ByteBuf InputMachine

structure Settled (s : Net) : Prop where
  udpPacketHandler : s.loop.udpPacketHandler = .dummyHandler
  arpPacketHandler : s.loop.arpPacketHandler = .dummyHandler
  timeHandler : s.loop.timeHandler = none
  netArpWaitPacketIP : s.tx.netArpWaitPacketIP = 0

def PollEnds (s : Net) : Prop :=
  s.loop.netState ≠ .netloopContinue ∨ handlerCalled (arpTimeoutCheck s) = some .pingTimeout

instance (s : Net) : Decidable (PollEnds s) :=
  inferInstanceAs (Decidable
    (s.loop.netState ≠ .netloopContinue ∨ handlerCalled (arpTimeoutCheck s) = some .pingTimeout))

def TimeoutSends (s : Net) : Prop :=
  handlerCalled (arpTimeoutCheck s) = some .tftpTimeout ∧
    s.tftp.tftpTimeoutCount + 1 ≤ s.tftp.tftpTimeoutCountMax ∧ s.tftp.tftpState ≠ .recvWrq

instance (s : Net) : Decidable (TimeoutSends s) :=
  inferInstanceAs (Decidable (handlerCalled (arpTimeoutCheck s) = some .tftpTimeout ∧
    s.tftp.tftpTimeoutCount + 1 ≤ s.tftp.tftpTimeoutCountMax ∧ s.tftp.tftpState ≠ .recvWrq))

def TimeoutHolds (s : Net) : Prop :=
  TimeoutSends s ∧ Unresolved s .netServerEther s.tftp.tftpRemoteIP

instance (s : Net) : Decidable (TimeoutHolds s) :=
  inferInstanceAs (Decidable
    (TimeoutSends s ∧ Unresolved s .netServerEther s.tftp.tftpRemoteIP))

-- No packet waits for ARP when the loop ends by a result and not by an abort.
def QuietEnd : Loop → LoopInput → Prop
  | .running s, .poll key =>
      key ≠ 113 → PollEnds s → s.tx.netArpWaitPacketIP = 0 ∧ ¬TimeoutHolds s
  | _, _ => True

instance : (l : Loop) → (x : LoopInput) → Decidable (QuietEnd l x)
  | .running s, .poll key => inferInstanceAs (Decidable
      (key ≠ 113 → PollEnds s → s.tx.netArpWaitPacketIP = 0 ∧ ¬TimeoutHolds s))
  | .running _, .frame _ _ => inferInstanceAs (Decidable True)
  | .done _ _, _ => inferInstanceAs (Decidable True)

inductive QuietSession : Net → Prop where
  | boot (enetaddr : Ether) (sysHz : Nat) (clock : Nat → Nat) (memory : Buf) :
      QuietSession (netBoot enetaddr sysHz clock memory)
  | command {s : Net} (c : Command) (h : QuietSession s) : QuietSession (prepare s c)
  | call {s t : Net} {ret : Int} (protocol : Proto) (xs : List LoopInput) (h : QuietSession s)
      (hquiet : Meets (netLoopStep protocol) QuietEnd (netLoopEntry protocol s) xs)
      (hrun : netLoop protocol s xs = .done ret t) : QuietSession t

variable {s t : Net} {protocol : Proto}

theorem tftpSend_waits (h : ¬Unresolved s .netServerEther s.tftp.tftpRemoteIP) :
    (tftpSend s).tx.netArpWaitPacketIP = s.tx.netArpWaitPacketIP := by
  let xp := netEthHdrSize s.cfg + ipUdpHdrSize
  let packet := tftpPacket s.tftp s.tx.netTxPacket xp
  let u : Net := { emitEvent s (.tftpSend (bytes (shift packet.1 xp) packet.2)) with
    tx.netTxPacket := packet.1 }
  have hu : ¬Unresolved u .netServerEther s.tftp.tftpRemoteIP := fun hu =>
    h ((unresolved_congr rfl rfl .netServerEther s.tftp.tftpRemoteIP).mp hu)
  obtain ⟨pkt, -, htx, -⟩ :=
    netSendUdpPacket_resolved hu s.tftp.tftpRemotePort s.tftp.tftpOurPort packet.2
  have hwait := congrArg Transmit.netArpWaitPacketIP htx
  exact hwait

theorem timeoutCheck_tx (hnone : handlerCalled s = none) : (timeoutCheck s).tx = s.tx := by
  cases hx : s.loop.timeHandler with
  | none => simp only [timeoutCheck, hx]
  | some x =>
    have he : ¬timerExpired s := fun he => by simp [(handlerCalled_some hx).mpr he] at hnone
    rw [timeoutCheck_eq hx, if_neg he]
    rfl

theorem tftpTimeout_waits (hmax : s.tftp.tftpTimeoutCount + 1 ≤ s.tftp.tftpTimeoutCountMax →
      s.tftp.tftpState ≠ .recvWrq → ¬Unresolved s .netServerEther s.tftp.tftpRemoteIP) :
    (tftpTimeout s).tx.netArpWaitPacketIP = s.tx.netArpWaitPacketIP := by
  rcases tftpTimeout_cases s with ⟨-, hquiet⟩ | ⟨-, hquiet⟩ | ⟨hcount, hstate, t, ht, hip, heq⟩
  · rw [hquiet.tx]
  · rw [hquiet.tx]
  · have hknown : ¬Unresolved t .netServerEther t.tftp.tftpRemoteIP := by
      rw [hip, unresolved_congr (s := s) (by rw [ht.tx]) (by rw [ht.tx])]
      exact hmax hcount hstate
    rw [heq, tftpSend_waits hknown, ht.tx]

theorem polled_waits (hwait : s.tx.netArpWaitPacketIP = 0) (h : ¬TimeoutHolds s) :
    (polled s).tx.netArpWaitPacketIP = 0 := by
  have hidle := arpTimeoutCheck_idle hwait
  rw [TimeoutHolds, TimeoutSends, hidle] at h
  rw [polled, hidle]
  cases hc : handlerCalled s with
  | none => rw [timeoutCheck_tx hc, hwait]
  | some x =>
    rw [timeoutCheck_called hc]
    cases x with
    | pingTimeout => exact hwait
    | tftpTimeout =>
      refine (tftpTimeout_waits ?_).trans hwait
      intro hcount hstate hu
      exact h ⟨⟨hc, hcount, hstate⟩, (unresolved_congr rfl rfl _ _).mp hu⟩

theorem pollEnds_iff (s : Net) : PollEnds s ↔ (polled s).loop.netState ≠ .netloopContinue := by
  have hloop := (arpTimeoutCheck_sends s).loop
  cases hc : handlerCalled (arpTimeoutCheck s) with
  | none =>
    have hkept : (polled s).loop = s.loop := (timeoutCheck_not_called hc).loop.trans hloop
    simp [PollEnds, hc, hkept]
  | some x =>
    have heq : polled s = thand x (expired (arpTimeoutCheck s)) := timeoutCheck_called hc
    cases x with
    | pingTimeout => simp [PollEnds, hc, heq, thand, pingTimeout, netSetState]
    | tftpTimeout => simp [PollEnds, hc, heq, tftpTimeout_polled_netState]

theorem Settled.clear (h : s.tx.netArpWaitPacketIP = 0) : Settled (netClearHandlers s) :=
  ⟨rfl, rfl, rfl, h⟩

theorem Settled.netInit (h : Settled s) : Settled (netInit s) := by
  cases hf : s.firstCall with
  | true =>
    simp only [NonOsLite.netInit, hf, if_true]
    exact ⟨rfl, rfl, rfl, rfl⟩
  | false =>
    simp only [NonOsLite.netInit, hf]
    exact ⟨h.udpPacketHandler, h.arpPacketHandler, h.timeHandler, h.netArpWaitPacketIP⟩

theorem Settled.entry (h : Settled s) (protocol : Proto) :
    (netLoopEntry protocol s).All (fun _ => True) (fun _ t => Settled t) := by
  rcases netLoopEntry_cases protocol s with heq | heq
  · rw [heq]
    have hinit := h.netInit
    exact ⟨hinit.udpPacketHandler, hinit.arpPacketHandler, hinit.timeHandler,
      hinit.netArpWaitPacketIP⟩
  · rw [heq]
    trivial

theorem Settled.netLoop (h : Settled s) {xs : List LoopInput}
    (hquiet : Meets (netLoopStep protocol) QuietEnd (netLoopEntry protocol s) xs) :
    (netLoop protocol s xs).All (fun t => t.loop.netState ≠ .netloopRestart)
      (fun _ t => Settled t) := by
  refine netLoop_invariant ?_ ?_ ?_ hquiet
  · exact ((netLoopEntry_not_restart protocol s).and (h.entry protocol)).mono
      (fun _ h => h.1) (fun _ _ h => h.2)
  · intro t inpkt len _ ht
    exact netReceive_not_restart ht
  · intro t key hok ht
    have hends (hkey : key ≠ 113) (hstop : (polled t).loop.netState ≠ .netloopContinue) :
        Settled (netClearHandlers (polled t)) := by
      obtain ⟨hwait, hholds⟩ := hok hkey ((pollEnds_iff t).mpr hstop)
      exact .clear (polled_waits hwait hholds)
    rcases netLoopPoll_cases protocol key (polled_not_restart ht) with
      ⟨-, heq⟩ | ⟨-, -, heq⟩ | ⟨hkey, hfail, heq⟩ | ⟨hkey, hsuccess, heq⟩
    · rw [heq]
      exact .clear rfl
    · rw [heq]
      exact polled_not_restart ht
    · rw [heq]
      exact hends hkey (by rw [hfail]; decide)
    · rw [heq]
      exact hends hkey (by rw [hsuccess]; decide)

theorem QuietSession.settled (h : QuietSession s) : Settled s := by
  induction h with
  | boot => exact ⟨rfl, rfl, rfl, rfl⟩
  | command c _ ih =>
    exact ⟨ih.udpPacketHandler, ih.arpPacketHandler, ih.timeHandler, ih.netArpWaitPacketIP⟩
  | call protocol xs _ hquiet hrun ih =>
    have hall := ih.netLoop hquiet
    rw [hrun] at hall
    exact hall

theorem netLoop_settles (hs : QuietSession s) (protocol : Proto) {xs : List LoopInput}
    (h : Meets (netLoopStep protocol) QuietEnd (netLoopEntry protocol s) xs) :
    (netLoop protocol s xs).All (fun _ => True) (fun _ t => Settled t) :=
  (hs.settled.netLoop h).mono (fun _ _ => trivial) (fun _ _ ht => ht)

theorem netLoop_settles_unanswered :
    (netLoop .ping (prepare silentBoard sampleCommand) [sampleArpReply samplePeer, .poll 0]).All
      (fun _ => True) (fun _ t => Settled t) :=
  netLoop_settles (.command _ (.boot _ _ _ _)) .ping (by decide +kernel)

theorem netLoop_unsettled : ¬∀ (s : Net) (protocol : Proto) (xs : List LoopInput), Session s →
    protocol = .tftpget ∨ protocol = .ping →
    (netLoop protocol s xs).All (fun _ => True) (fun _ t => Settled t) := by
  intro h
  have hall := h (prepare silentBoard sampleCommand) .ping [.poll 0]
    (.command _ (.boot _ _ _ _)) (Or.inr rfl)
  have hwait := hall.mono (fun _ h => h) (fun _ _ ht => ht.netArpWaitPacketIP)
  exact absurd hwait (by decide +kernel)

end NonOsLite
