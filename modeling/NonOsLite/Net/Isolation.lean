import NonOsLite.Net.Stale
import NonOsLite.Net.TftpRun

namespace NonOsLite
open ByteBuf InputMachine

structure Observation where
  tftpState : TftpState
  tftpRemotePort : Nat
  tftpBlock : Nat
  tftpLastBlock : Nat
  tftpBlockWrap : Nat
  tftpBlockWrapOffset : Nat
  tftpBlkSize : Nat
  netBootFileXferSize : Nat
  netState : NetLoopState
  timeHandler : Option THand
  timeStart : Nat
  timeDelta : Nat
  memory : Buf
  transmitted : List (List UInt8)

def observeNet (s : Net) : Observation where
  tftpState := s.tftp.tftpState
  tftpRemotePort := s.tftp.tftpRemotePort
  tftpBlock := s.tftp.tftpBlock
  tftpLastBlock := s.tftp.tftpLastBlock
  tftpBlockWrap := s.tftp.tftpBlockWrap
  tftpBlockWrapOffset := s.tftp.tftpBlockWrapOffset
  tftpBlkSize := s.tftp.tftpBlkSize
  netBootFileXferSize := s.loop.netBootFileXferSize
  netState := s.loop.netState
  timeHandler := s.loop.timeHandler
  timeStart := s.loop.timeStart
  timeDelta := s.loop.timeDelta
  memory := s.memory
  transmitted := transmitted s

def observe : Loop → Observation
  | .running s => observeNet s
  | .done _ s => observeNet s

def Foreign (t : Tftp) (u : UdpCall) : Prop :=
  ((t.tftpState = .oack ∨ t.tftpState = .data) ∧
      ¬(u.sip = t.tftpRemoteIP ∧ u.sport = t.tftpRemotePort)) ∨
    (t.tftpState = .sendRrq ∧ u.sip ≠ t.tftpRemoteIP)

-- The datagrams without any effect; the sender's address is nowhere looked at.
inductive Ignored (s : Net) (u : UdpCall) : Prop where
  | port (h : u.dport ≠ s.tftp.tftpOurPort)
  | source (h : s.tftp.tftpState ≠ .sendRrq) (hsrc : u.sport ≠ s.tftp.tftpRemotePort)
  | short (h : u.len < 2)
  | opcode (hoack : be16 u.pkt 0 ≠ tftpOACK) (hdata : be16 u.pkt 0 ≠ tftpDATA)
      (herror : be16 u.pkt 0 ≠ tftpERROR)
  | shortData (h : be16 u.pkt 0 = tftpDATA) (hlen : u.len < 4)
  | sameBlock (h : be16 u.pkt 0 = tftpDATA) (hstate : s.tftp.tftpState = .data)
      (hlast : be16 u.pkt 2 = s.tftp.tftpLastBlock) (hblock : be16 u.pkt 2 = s.tftp.tftpBlock)
      (hzero : be16 u.pkt 2 ≠ 0)
  | error (h : be16 u.pkt 0 = tftpERROR)
      (hcode : ¬(be16 u.pkt 2 = tftpErrFileNotFound ∨ be16 u.pkt 2 = tftpErrAccessDenied) ∨
        s.loop.netState = .netloopFail)

variable {s t : Net} {u : UdpCall}

theorem Foreign.state (h : Foreign s.tftp u) :
    s.tftp.tftpState = .sendRrq ∨ s.tftp.tftpState = .oack ∨ s.tftp.tftpState = .data := by
  rcases h with ⟨h | h, -⟩ | ⟨h, -⟩
  · exact Or.inr (Or.inl h)
  · exact Or.inr (Or.inr h)
  · exact Or.inl h

theorem tftpErrorHandler_failed (pkt : Buf) (h : s.loop.netState = .netloopFail) :
    tftpErrorHandler s pkt = s := by
  unfold tftpErrorHandler
  split
  · rw [netSetState, ← h]
  · rfl

theorem tftpDataHandler_same {pkt : Buf} {src len : Nat} (hstate : s.tftp.tftpState = .data)
    (hlast : be16 pkt 0 = s.tftp.tftpLastBlock) (hblock : be16 pkt 0 = s.tftp.tftpBlock)
    (hzero : be16 pkt 0 ≠ 0) : tftpDataHandler s pkt src len = s := by
  have hcount : updateBlockNumber { s with tftp.tftpBlock := be16 pkt 0 } = s := by
    rw [updateBlockNumber, if_neg hzero, hblock]
  have hawaits : ¬(s.tftp.tftpState = .sendRrq ∨ s.tftp.tftpState = .oack ∨
      s.tftp.tftpState = .recvWrq) := by simp [hstate]
  have haccept : tftpAcceptBlock s pkt (len - 2) = s := if_pos (hblock.symm.trans hlast)
  simp only [tftpDataHandler, hcount, if_neg hawaits, haccept, ite_self]

theorem Ignored.tftpHandler (h : Ignored s u) (hforeign : Foreign s.tftp u) :
    tftpHandler s u.pkt u.dport u.sip u.sport u.len = s := by
  by_cases hacc : Accepted s.tftp u.dport u.sport u.len
  · have hshort : u.len - 2 < 2 ↔ u.len < 4 := by have := hacc.long; omega
    rw [tftpHandler_accepted hacc]
    cases h with
    | port h => exact absurd hacc.port h
    | source h hsrc =>
      rcases hacc.server with hstate | hserver | hstate | hstate
      · exact absurd hstate h
      · exact absurd hserver hsrc
      · rcases hforeign.state with hf | hf | hf <;> simp [hstate] at hf
      · rcases hforeign.state with hf | hf | hf <;> simp [hstate] at hf
    | short h => exact absurd hacc.long (Nat.not_le.mpr h)
    | opcode hoack hdata herror => rw [if_neg hoack, if_neg hdata, if_neg herror]
    | shortData h hlen =>
      rw [h, if_neg (by decide), if_pos rfl, tftpDataHandler, if_pos (hshort.mpr hlen)]
    | sameBlock h hstate hlast hblock hzero =>
      rw [h, if_neg (by decide), if_pos rfl]
      exact tftpDataHandler_same hstate hlast hblock hzero
    | error h hcode =>
      rw [h, if_neg (by decide), if_neg (by decide), if_pos rfl]
      rcases hcode with hcode | hfail
      · exact if_neg hcode
      · exact tftpErrorHandler_failed _ hfail
  · exact tftpHandler_refused hacc

theorem ignored_of_refused (h : ¬Accepted s.tftp u.dport u.sport u.len) : Ignored s u := by
  by_cases hport : u.dport = s.tftp.tftpOurPort
  · by_cases hlen : u.len < 2
    · exact .short hlen
    · by_cases hstate : s.tftp.tftpState = .sendRrq
      · exact absurd ⟨hport, Or.inl hstate, Nat.not_lt.mp hlen⟩ h
      · refine .source hstate (fun hsrc => h ⟨hport, Or.inr (Or.inl hsrc), Nat.not_lt.mp hlen⟩)
  · exact .port hport

theorem tftpSend_transmits (s : Net) : ∃ frame, transmitted (tftpSend s) = frame :: transmitted s := by
  unfold tftpSend
  exact netSendUdpPacket_transmits _ _ _ _ _ _

theorem Receiver.newBlock_lastBlock {r : Receiver} (payload : Buf) (len : Nat) :
    (r.newBlock payload len).tftp.tftpLastBlock = r.tftp.tftpBlock := by
  simp only [Receiver.newBlock]
  split <;> rfl

theorem ignored_of_data (hstate : s.tftp.tftpState = .sendRrq ∨ s.tftp.tftpState = .oack ∨
      s.tftp.tftpState = .data) (hdata : be16 u.pkt 0 = tftpDATA)
    (hr : receiver t = (receiver s).data u.sport (be16 u.pkt 2) (shift u.pkt 4) (u.len - 4))
    (h : observeNet t = observeNet s) : Ignored s u := by
  have hst : t.tftp.tftpState = s.tftp.tftpState := congrArg Observation.tftpState h
  have hblock : t.tftp.tftpBlock = s.tftp.tftpBlock := congrArg Observation.tftpBlock h
  have hlast : t.tftp.tftpLastBlock = s.tftp.tftpLastBlock := congrArg Observation.tftpLastBlock h
  have hwrap : t.tftp.tftpBlockWrap = s.tftp.tftpBlockWrap := congrArg Observation.tftpBlockWrap h
  have htst : t.tftp.tftpState = _ := congrArg (fun r => r.tftp.tftpState) hr
  have htblock : t.tftp.tftpBlock = _ := congrArg (fun r => r.tftp.tftpBlock) hr
  have htlast : t.tftp.tftpLastBlock = _ := congrArg (fun r => r.tftp.tftpLastBlock) hr
  have htwrap : t.tftp.tftpBlockWrap = _ := congrArg (fun r => r.tftp.tftpBlockWrap) hr
  have hawaits (hf : Receiver.awaitsFirst s.tftp = true) (hnew : t.tftp.tftpState = .data) :
      Ignored s u := by
    rw [hst] at hnew
    simp [Receiver.awaitsFirst, hnew] at hf
  rcases (receiver s).data_cases u.sport (be16 u.pkt 2) (shift u.pkt 4) (u.len - 4) with
    ⟨hf, -, heq⟩ | ⟨hf, -, heq⟩ | ⟨hf, hdup, heq⟩ | ⟨-, hnew, heq⟩
  · rw [heq] at htst
    exact hawaits hf htst
  · rw [heq, Receiver.newBlock_state] at htst
    exact hawaits hf htst
  · rw [heq] at htblock htwrap
    rw [Receiver.countBlock_block] at htblock
    refine .sameBlock hdata (Receiver.data_of_not_awaits hf hstate) hdup (htblock.symm.trans hblock)
      (fun hzero => ?_)
    rw [hzero, hwrap] at htwrap
    exact u32_succ_ne _ htwrap.symm
  · rw [heq] at htlast
    rw [Receiver.newBlock_lastBlock, Receiver.countBlock_block] at htlast
    exact absurd (htlast.symm.trans hlast) hnew

theorem ignored_of_observe (hforeign : Foreign s.tftp u)
    (h : observeNet (tftpHandler s u.pkt u.dport u.sip u.sport u.len) = observeNet s) :
    Ignored s u := by
  by_cases hacc : Accepted s.tftp u.dport u.sport u.len
  · have hr := receiver_tftpHandler s u.pkt u.dport u.sip u.sport u.len
    by_cases ho : be16 u.pkt 0 = tftpOACK
    · rw [tftpHandler_accepted hacc, if_pos ho, tftpOackHandler] at h
      obtain ⟨frame, hframe⟩ := tftpSend_transmits { s with
        tftp.tftpState := .oack
        tftp.tftpRemotePort := u.sport
        tftp.tftpBlkSize := tftpOackBlkSize (shift u.pkt 2) (u.len - 2) s.tftp.tftpBlkSize }
      have hsent := congrArg Observation.transmitted h
      exact absurd (hframe.symm.trans hsent) (List.cons_ne_self _ _)
    · by_cases hd : be16 u.pkt 0 = tftpDATA
      · by_cases hlen : u.len < 4
        · exact .shortData hd hlen
        · rw [hacc.tftpMsg, if_neg ho, if_pos hd, if_neg hlen] at hr
          exact ignored_of_data hforeign.state hd hr h
      · by_cases he : be16 u.pkt 0 = tftpERROR
        · refine .error he ?_
          by_cases hcode : be16 u.pkt 2 = tftpErrFileNotFound ∨ be16 u.pkt 2 = tftpErrAccessDenied
          · rw [tftpHandler_accepted hacc, if_neg ho, if_neg hd, if_pos he, tftpErrorHandler,
              be16_shift, if_pos hcode] at h
            exact Or.inr (congrArg Observation.netState h).symm
          · exact Or.inl hcode
        · exact .opcode ho hd he
  · exact ignored_of_refused hacc

theorem tftpSend_loop (s : Net) : (tftpSend s).loop = s.loop := (tftpSend_sends s).loop

theorem TftpStep.udp (h : TftpStep s t) :
    t.loop.udpPacketHandler = s.loop.udpPacketHandler := by
  rcases h with ht | ⟨u, hu, ht⟩
  · exact ht.udpPacketHandler
  · rw [ht.udpPacketHandler, tftpSend_loop, hu.udpPacketHandler]

theorem netReceive_udp (s : Net) (inpkt : Buf) (len : Int) :
    (netReceive s inpkt len).loop.udpPacketHandler = s.loop.udpPacketHandler := by
  rcases netReceive_cases s inpkt len with hs | ⟨e, -, heq⟩ | ⟨u, -, heq⟩
  · rw [hs.loop]
  · rw [heq]
    by_cases hsrc : e.src = s.ping.netPingIP
    · rw [echoReplied_hit hsrc]
      rfl
    · rw [echoReplied_miss hsrc]
      rfl
  · rw [heq]
    cases hx : s.loop.udpPacketHandler with
    | dummyHandler => exact hx
    | tftpHandler => exact (tftpHandler_step s u.pkt u.dport u.sip u.sport u.len).udp.trans hx

theorem polled_udp (s : Net) : (polled s).loop.udpPacketHandler = s.loop.udpPacketHandler := by
  have hloop := congrArg LoopVars.udpPacketHandler (arpTimeoutCheck_sends s).loop
  rcases polled_cases s with hs | ⟨x, -, -, heq⟩
  · rw [hs.loop]
  · rw [heq]
    cases x with
    | pingTimeout => exact hloop
    | tftpTimeout => exact (tftpTimeout_step _).udp.trans hloop

theorem tftpget_handler (s : Net) (xs : List LoopInput) :
    (netLoop .tftpget s xs).All
      (fun t => t.loop.udpPacketHandler = .tftpHandler ∧ t.loop.netState ≠ .netloopRestart)
      (fun _ _ => True) := by
  refine netLoop_invariant ?_ ?_ ?_ (meets_true (netLoopStep .tftpget) _ xs)
  · rcases netLoopEntry_cases .tftpget s with heq | heq
    · rw [heq]
      trivial
    · have hstate := netLoopEntry_not_restart .tftpget s
      rw [heq] at hstate ⊢
      refine ⟨?_, hstate⟩
      exact congrArg LoopVars.udpPacketHandler (tftpSend_loop _)
  · rintro t inpkt len - ⟨ht, hstate⟩
    exact ⟨(netReceive_udp t inpkt len).trans ht, netReceive_not_restart hstate⟩
  · rintro t key - ⟨ht, hstate⟩
    rcases netLoopPoll_cases .tftpget key (polled_not_restart hstate) with
      ⟨-, heq⟩ | ⟨-, -, heq⟩ | ⟨-, -, heq⟩ | ⟨-, -, heq⟩
    · rw [heq]
      trivial
    · rw [heq]
      exact ⟨(polled_udp t).trans ht, polled_not_restart hstate⟩
    · rw [heq]
      trivial
    · rw [heq]
      trivial

theorem foreign_isolated_iff {s₀ : Net} {xs : List LoopInput} {inpkt : Buf} {ip : Nat} {len n : Int}
    (hrun : netLoop .tftpget s₀ xs = .running s) (hdec : netDecode s.cfg inpkt len = .udp ip n u)
    (hforeign : Foreign s.tftp u) :
    (∀ ys, observe (netLoop .tftpget s₀ (xs ++ .frame inpkt len :: ys)) =
      observe (netLoop .tftpget s₀ (xs ++ ys))) ↔ Ignored s u := by
  have hhandler := tftpget_handler s₀ xs
  rw [hrun] at hhandler
  have hstep : netLoopStep .tftpget (.running s) (.frame inpkt len) =
      .running (tftpHandler s u.pkt u.dport u.sip u.sport u.len) := by
    simp only [netLoopStep, netReceive, hdec, hhandler.1]
    rfl
  have hat : run (netLoopStep .tftpget) (netLoopEntry .tftpget s₀) xs = .running s := hrun
  refine (observe_insert_iff observe xs (.frame inpkt len)).trans ?_
  rw [hat, hstep]
  constructor
  · intro h
    exact ignored_of_observe hforeign (h [])
  · intro hignored ys
    rw [hignored.tftpHandler hforeign]

def foreignIp : IPaddr := stringToIp (ascii "10.0.0.77")

theorem foreign_isolated_other_port :
    observe (netLoop .tftpget sampleBoard
        [.frame (sampleFrame foreignIp 2000 [0, 3, 0, 1]) 64, .poll 113]) =
      observe (netLoop .tftpget sampleBoard [.poll 113]) :=
  (foreign_isolated_iff
    (show netLoop .tftpget sampleBoard [] = .running requestingBoard from rfl)
    (show netDecode requestingBoard.cfg (sampleFrame foreignIp 2000 [0, 3, 0, 1]) 64 =
      .udp 14 32 (sampleCall foreignIp 2000 [0, 3, 0, 1]) from rfl)
    (Or.inr ⟨by decide +kernel, by decide +kernel⟩)).mpr (.port (by decide +kernel)) [.poll 113]

theorem foreign_not_isolated : ¬∀ (s₀ s : Net) (xs ys : List LoopInput) (inpkt : Buf) (ip : Nat)
    (len n : Int) (u : UdpCall), Session s₀ → netLoop .tftpget s₀ xs = .running s →
    netDecode s.cfg inpkt len = .udp ip n u → Foreign s.tftp u →
    observe (netLoop .tftpget s₀ (xs ++ .frame inpkt len :: ys)) =
      observe (netLoop .tftpget s₀ (xs ++ ys)) := by
  intro h
  have hsame := h sampleBoard requestingBoard [] [] (sampleFrame foreignIp 1024 [0, 3, 0, 1]) 14 64 32
    (sampleCall foreignIp 1024 [0, 3, 0, 1]) (.boot _ _ _ _) rfl rfl
    (Or.inr ⟨by decide +kernel, by decide +kernel⟩)
  exact absurd (congrArg Observation.tftpState hsame) (by decide +kernel)

end NonOsLite
