import NonOsLite.Net.Tftp
import NonOsLite.Net.Ping

namespace NonOsLite
open ByteBuf

variable {s t u : Net}

def Event.isFrame : Event → Bool
  | .frame _ => true
  | _ => false

def marks (s : Net) : List Event := s.log.filter (fun e => !e.isFrame)

structure Sends (s t : Net) : Prop where
  cfg : t.cfg = s.cfg
  loop : t.loop = s.loop
  tftp : t.tftp = s.tftp
  ping : t.ping = s.ping
  memory : t.memory = s.memory
  clock : t.clock = s.clock
  firstCall : t.firstCall = s.firstCall
  marks : marks t = marks s
  mem_log : ∀ e ∈ s.log, e ∈ t.log

structure SetsTimeout (s t : Net) : Prop where
  cfg : t.cfg = s.cfg
  tx : t.tx = s.tx
  tftp : t.tftp = s.tftp
  netState : t.loop.netState = s.loop.netState
  udpPacketHandler : t.loop.udpPacketHandler = s.loop.udpPacketHandler
  log : t.log = s.log

theorem netSetTimeout_sets (s : Net) (iv : Nat) (f : THand) :
    SetsTimeout s (netSetTimeout s iv f) := by
  unfold netSetTimeout
  split <;> exact ⟨rfl, rfl, rfl, rfl, rfl, rfl⟩

theorem netSetEther_size (c : Config) (xet : Buf) (addr : Ether) (prot : Nat) :
    (netSetEther c xet addr prot).2 = netEthHdrSize c := by
  unfold netSetEther netEthHdrSize
  extract_lets xet₁ xet₂
  split <;> rfl

theorem Sends.refl (s : Net) : Sends s s := ⟨rfl, rfl, rfl, rfl, rfl, rfl, rfl, rfl, fun _ h => h⟩

theorem Sends.trans (h : Sends s t) (k : Sends t u) : Sends s u :=
  ⟨k.cfg.trans h.cfg, k.loop.trans h.loop, k.tftp.trans h.tftp, k.ping.trans h.ping,
    k.memory.trans h.memory, k.clock.trans h.clock, k.firstCall.trans h.firstCall,
    k.marks.trans h.marks, fun e he => k.mem_log e (h.mem_log e he)⟩

theorem sends_set (s : Net) (tx : Transmit) (n : Nat) :
    Sends s { s with tx := tx, clockPos := n } :=
  ⟨rfl, rfl, rfl, rfl, rfl, rfl, rfl, rfl, fun _ h => h⟩

theorem netSendPacket_sends (s : Net) (pkt : Buf) (len : Int) : Sends s (netSendPacket s pkt len) :=
  ⟨rfl, rfl, rfl, rfl, rfl, rfl, rfl, rfl, fun _ h => List.mem_cons_of_mem _ h⟩

theorem setEtherAt_sends (s : Net) (e : Ether) (p : EtherPtr) : Sends s (setEtherAt s e p) := by
  cases p <;> exact sends_set s _ _

theorem arpRawRequest_sends (s : Net) (ip : IPaddr) (e : Ether) (target : IPaddr) :
    Sends s (arpRawRequest s ip e target) := by
  unfold arpRawRequest
  refine Sends.trans ?_ (netSendPacket_sends _ _ _)
  exact sends_set s _ _

theorem arpRequest_sends (s : Net) : Sends s (arpRequest s) := by
  unfold arpRequest
  refine Sends.trans ?_ (arpRawRequest_sends _ _ _ _)
  exact sends_set s _ _

theorem arpTimeoutCheck_sends (s : Net) : Sends s (arpTimeoutCheck s) := by
  unfold arpTimeoutCheck
  split
  · exact Sends.refl s
  · extract_lets t s' _ s''
    have hs'' : Sends s s'' := sends_set s _ _
    split
    · split
      · exact hs''.trans (sends_set s'' _ _)
      · refine hs''.trans (Sends.trans ?_ (arpRequest_sends _))
        exact sends_set s'' _ _
    · exact sends_set s _ _

theorem arpReply_sends (s : Net) (et : Buf) (arp : Nat) : Sends s (arpReply s et arp) :=
  netSendPacket_sends _ _ _

theorem arpResolved_sends (s : Net) (sha : Ether) : Sends s (arpResolved s sha) := by
  unfold arpResolved
  extract_lets s' pkt _ s''
  have hs' : Sends s s' := by
    cases h : s.tx.netArpWaitPacketMAC with
    | none => simpa only [s', h] using Sends.refl s
    | some p => simpa only [s', h] using setEtherAt_sends s sha p
  have hs'' : Sends s s'' := (hs'.trans (sends_set s' _ _)).trans (netSendPacket_sends _ _ _)
  exact hs''.trans (sends_set s'' _ _)

theorem arpReceive_sends (s : Net) (et : Buf) (arp : Nat) (len : Int) :
    Sends s (arpReceive s et arp len) := by
  unfold arpReceive
  repeat' split
  any_goals exact Sends.refl s
  · exact arpReply_sends _ _ _
  · exact arpResolved_sends _ _

theorem netSendUdpPacket_sends (s : Net) (ether : EtherPtr) (dest : IPaddr)
    (dport sport payloadLen : Nat) :
    Sends s (netSendUdpPacket s ether dest dport sport payloadLen) := by
  unfold netSendUdpPacket
  extract_lets dest' ether'
  split
  extract_lets pkt s' len
  have hs' : Sends s s' := sends_set s _ _
  split
  · refine hs'.trans (Sends.trans ?_ (arpRequest_sends _))
    exact sends_set s' _ _
  · exact hs'.trans (netSendPacket_sends _ _ _)

structure Quiet (s t : Net) : Prop where
  cfg : t.cfg = s.cfg
  tx : t.tx = s.tx
  udpPacketHandler : t.loop.udpPacketHandler = s.loop.udpPacketHandler
  mem_log : ∀ e ∈ s.log, e ∈ t.log

theorem Quiet.refl (s : Net) : Quiet s s := ⟨rfl, rfl, rfl, fun _ h => h⟩

theorem Quiet.trans (h : Quiet s t) (k : Quiet t u) : Quiet s u :=
  ⟨k.cfg.trans h.cfg, k.tx.trans h.tx, k.udpPacketHandler.trans h.udpPacketHandler,
    fun e he => k.mem_log e (h.mem_log e he)⟩

theorem netSetTimeout_quiet (s : Net) (iv : Nat) (f : THand) : Quiet s (netSetTimeout s iv f) :=
  have h := netSetTimeout_sets s iv f
  ⟨h.cfg, h.tx, h.udpPacketHandler, fun _ he => h.log ▸ he⟩

def TftpStep (s u : Net) : Prop := Quiet s u ∨ ∃ t, Quiet s t ∧ Quiet (tftpSend t) u

theorem TftpStep.after (h : TftpStep t u) (hst : Quiet s t) : TftpStep s u := by
  rcases h with hu | ⟨v, hv, hu⟩
  · exact Or.inl (hst.trans hu)
  · exact Or.inr ⟨v, hst.trans hv, hu⟩

theorem tftpSend_step (h : Quiet s t) : TftpStep s (tftpSend t) :=
  Or.inr ⟨t, h, Quiet.refl _⟩

theorem storeBlock_quiet (s : Net) (block : Int) (src : Buf) (len : Nat) :
    Quiet s (storeBlock s block src len) :=
  ⟨rfl, rfl, rfl, fun _ h => List.mem_cons_of_mem _ h⟩

theorem tftpComplete_quiet (s : Net) : Quiet s (tftpComplete s) :=
  ⟨rfl, rfl, rfl, fun _ h => List.mem_cons_of_mem _ h⟩

theorem tftpNewBlock_step (s : Net) (pkt : Buf) (len : Nat) :
    TftpStep s (tftpNewBlock s pkt len) := by
  unfold tftpNewBlock
  extract_lets src s₁ s₂ s₃ s₄
  have hcounted : Quiet s s₁ := ⟨rfl, rfl, rfl, fun _ h => h⟩
  have harmed : Quiet s s₂ := hcounted.trans (netSetTimeout_quiet s₁ _ _)
  refine Or.inr ⟨s₃, harmed.trans (storeBlock_quiet s₂ _ _ _), ?_⟩
  split
  · exact tftpComplete_quiet s₄
  · exact Quiet.refl s₄

theorem tftpAcceptBlock_step (s : Net) (pkt : Buf) (len : Nat) :
    TftpStep s (tftpAcceptBlock s pkt len) := by
  unfold tftpAcceptBlock
  split
  · exact Or.inl (Quiet.refl s)
  · exact tftpNewBlock_step s pkt len

theorem updateBlockNumber_quiet (s : Net) : Quiet s (updateBlockNumber s) := by
  unfold updateBlockNumber
  split <;> exact ⟨rfl, rfl, rfl, fun _ h => h⟩

theorem tftpDataHandler_step (s : Net) (pkt : Buf) (src len : Nat) :
    TftpStep s (tftpDataHandler s pkt src len) := by
  unfold tftpDataHandler
  split
  · exact Or.inl (Quiet.refl s)
  · extract_lets n srcBlock s₁ srcFirst s₂
    have hcounted : Quiet s s₁ := by
      refine Quiet.trans ?_ (updateBlockNumber_quiet _)
      exact ⟨rfl, rfl, rfl, fun _ h => h⟩
    have hfirst : Quiet s s₂ :=
      hcounted.trans ⟨rfl, rfl, rfl, fun _ h => List.mem_cons_of_mem _ h⟩
    split
    · split
      · exact Or.inl hfirst
      · exact (tftpAcceptBlock_step s₂ pkt n).after hfirst
    · exact (tftpAcceptBlock_step s₁ pkt n).after hcounted

theorem tftpErrorHandler_quiet (s : Net) (pkt : Buf) : Quiet s (tftpErrorHandler s pkt) := by
  unfold tftpErrorHandler
  split
  · exact ⟨rfl, rfl, rfl, fun _ h => h⟩
  · exact Quiet.refl s

theorem tftpHandler_step (s : Net) (pkt : Buf) (dest : Nat) (sip : IPaddr) (src len : Nat) :
    TftpStep s (tftpHandler s pkt dest sip src len) := by
  have hignored : TftpStep s s := Or.inl (Quiet.refl s)
  unfold tftpHandler
  split
  · exact hignored
  · split
    · exact hignored
    · split
      · exact hignored
      · extract_lets n opcode body
        split
        · exact tftpSend_step ⟨rfl, rfl, rfl, fun _ h => h⟩
        · split
          · exact tftpDataHandler_step s body src n
          · split
            · exact Or.inl (tftpErrorHandler_quiet s body)
            · exact hignored

theorem tftpTimeout_cases (s : Net) :
    (s.tftp.tftpTimeoutCountMax < s.tftp.tftpTimeoutCount + 1 ∧ Quiet s (tftpTimeout s)) ∨
    (s.tftp.tftpState = .recvWrq ∧ Quiet s (tftpTimeout s)) ∨
    (s.tftp.tftpTimeoutCount + 1 ≤ s.tftp.tftpTimeoutCountMax ∧ s.tftp.tftpState ≠ .recvWrq ∧
      ∃ t, Quiet s t ∧ t.tftp.tftpRemoteIP = s.tftp.tftpRemoteIP ∧ tftpTimeout s = tftpSend t) := by
  unfold tftpTimeout
  extract_lets src s₁ s₂
  have harmed := netSetTimeout_sets s₁ tftpTimeoutMSecs .tftpTimeout
  have hquiet : Quiet s s₂ :=
    ⟨harmed.cfg, harmed.tx, harmed.udpPacketHandler, fun _ h => harmed.log ▸ h⟩
  have hstate := congrArg Tftp.tftpState harmed.tftp
  have hip := congrArg Tftp.tftpRemoteIP harmed.tftp
  split
  · exact Or.inl ⟨‹_›, rfl, rfl, rfl, fun _ h => h⟩
  · split
    · rename_i hcount hsends
      exact Or.inr (Or.inr ⟨Nat.not_lt.mp hcount, fun hs => hsends (hstate.trans hs), s₂, hquiet,
        hip, rfl⟩)
    · rename_i hrecv
      exact Or.inr (Or.inl ⟨hstate.symm.trans (not_not.mp hrecv), hquiet⟩)

theorem tftpTimeout_step (s : Net) : TftpStep s (tftpTimeout s) := by
  rcases tftpTimeout_cases s with ⟨-, hquiet⟩ | ⟨-, hquiet⟩ | ⟨-, -, t, ht, -, heq⟩
  · exact Or.inl hquiet
  · exact Or.inl hquiet
  · rw [heq]
    exact tftpSend_step ht

end NonOsLite
