import NonOsLite.Net.Watchdog
import NonOsLite.Net.Wire

namespace NonOsLite
open ByteBuf InputMachine

-- A block shorter than the block size was stored and taken for the last one, and its ACK was sent.
def Downloaded (t : Net) : Prop :=
  .tftpComplete ∈ t.log ∧ ∃ n blkSize offset len, .storeBlock n blkSize offset len ∈ t.log ∧
    len < blkSize ∧ u16 n ∈ acksSent t

def Answered (ip : IPaddr) (t : Net) : Prop :=
  ∃ id seq, (id, seq) ∈ echoRequestsSent t ∧ .echoReply ip id seq ∈ t.log

structure Finished (protocol : Proto) (ip : IPaddr) (l : Loop) : Prop where
  tftpget : protocol = .tftpget → l.All (fun _ => True) (fun ret t => 0 ≤ ret → Downloaded t)
  ping : protocol = .ping → l.All (fun _ => True) (fun ret t => 0 ≤ ret → Answered ip t)

-- Until the loop has succeeded, an echo reply from NetPingIP answers a request that was sent.
def ReplyExpected (protocol : Proto) (s : Net) (inpkt : Buf) (len : Int) : Prop :=
  ∀ e ∈ echoReplyOf s.cfg inpkt len, e.src = s.ping.netPingIP →
    s.loop.netState ≠ .netloopSuccess → protocol = .ping ∧ (e.id, e.seq) ∈ echoRequestsSent s

instance (protocol : Proto) (s : Net) (inpkt : Buf) (len : Int) :
    Decidable (ReplyExpected protocol s inpkt len) :=
  inferInstanceAs (Decidable (∀ e ∈ echoReplyOf s.cfg inpkt len, e.src = s.ping.netPingIP →
    s.loop.netState ≠ .netloopSuccess → protocol = .ping ∧ (e.id, e.seq) ∈ echoRequestsSent s))

def Stores (t : Tftp) (n : Nat) : Prop :=
  if Receiver.awaitsFirst t then n = 1 else n ≠ t.tftpLastBlock

instance (t : Tftp) (n : Nat) : Decidable (Stores t n) :=
  inferInstanceAs (Decidable (if Receiver.awaitsFirst t then n = 1 else n ≠ t.tftpLastBlock))

def TftpMsg.AckReady (s : Net) : TftpMsg → Prop
  | .data _ n _ len => s.loop.netState ≠ .netloopSuccess → Stores s.tftp n →
      len < s.tftp.tftpBlkSize → ¬Unresolved s .netServerEther s.tftp.tftpRemoteIP
  | _ => True

instance (s : Net) : (m : TftpMsg) → Decidable (m.AckReady s)
  | .data _ n _ len => inferInstanceAs (Decidable (s.loop.netState ≠ .netloopSuccess →
      Stores s.tftp n → len < s.tftp.tftpBlkSize →
        ¬Unresolved s .netServerEther s.tftp.tftpRemoteIP))
  | .ignored | .oack _ _ | .error _ => inferInstanceAs (Decidable True)

def FrameExpected (protocol : Proto) : Loop → LoopInput → Prop
  | .running s, .frame inpkt len => ReplyExpected protocol s inpkt len ∧
      ∀ u ∈ datagramOf s.cfg inpkt len, s.loop.udpPacketHandler = .tftpHandler →
        (tftpMsg s.tftp u.pkt u.dport u.sport u.len).AckReady s
  | _, _ => True

instance (protocol : Proto) : (l : Loop) → (x : LoopInput) → Decidable (FrameExpected protocol l x)
  | .running s, .frame inpkt len => inferInstanceAs (Decidable (ReplyExpected protocol s inpkt len ∧
      ∀ u ∈ datagramOf s.cfg inpkt len, s.loop.udpPacketHandler = .tftpHandler →
        (tftpMsg s.tftp u.pkt u.dport u.sport u.len).AckReady s))
  | .running _, .poll _ => inferInstanceAs (Decidable True)
  | .done _ _, _ => inferInstanceAs (Decidable True)

namespace Receiver

structure Earned (r : Receiver) : Prop where
  transfer : r.tftp.tftpState = .sendRrq ∨ r.tftp.tftpState = .oack ∨ r.tftp.tftpState = .data
  handler : r.timeHandler ≠ some .pingTimeout
  state : r.netState ≠ .netloopRestart

structure Completed (r : Receiver) (n len blkSize : Nat) : Prop where
  short : len < blkSize
  complete : .complete ∈ r.marks
  stored : ∃ offset, .store (toU32 ((n : Int) - 1 + 1)) blkSize offset len ∈ r.marks

variable {r : Receiver}

theorem Earned.send (h : Earned r) : Earned r.send := { h with }

theorem Earned.countBlock (h : Earned r) (n : Nat) : Earned (r.countBlock n) where
  transfer := by simpa using h.transfer
  handler := by simpa using h.handler
  state := by simpa using h.state

theorem Earned.firstBlock (h : Earned r) (src : Nat) : Earned (r.firstBlock src) :=
  { h with transfer := Or.inr (Or.inr rfl) }

theorem Earned.newBlock (h : Earned r) (payload : Buf) (len : Nat) :
    Earned (r.newBlock payload len) := by
  unfold Receiver.newBlock
  extract_lets _ r₁ r₂
  have h₂ : Earned r₂ := { h with handler := (fun hc => by cases hc) }
  split
  · exact { h₂ with state := (fun hc => by cases hc) }
  · exact h₂

theorem Earned.handle (h : Earned r) (m : TftpMsg) : Earned (r.handle m) := by
  cases m with
  | ignored => exact h
  | oack src blkSize => exact Earned.send { h with transfer := Or.inr (Or.inl rfl) }
  | data src n payload len =>
    have hcount := h.countBlock n
    simp only [Receiver.handle]
    rcases r.data_cases src n payload len with ⟨-, -, heq⟩ | ⟨-, -, heq⟩ | ⟨-, -, heq⟩ | ⟨-, -, heq⟩
    · exact heq ▸ hcount.firstBlock src
    · exact heq ▸ (hcount.firstBlock src).newBlock payload len
    · exact heq ▸ hcount
    · exact heq ▸ hcount.newBlock payload len
  | error code =>
    simp only [Receiver.handle, Receiver.error]
    split
    · exact { h with state := (fun hc => by cases hc) }
    · exact h

theorem newBlock_completes {payload : Buf} {len : Nat} (h : r.netState ≠ .netloopSuccess)
    (hs : (r.newBlock payload len).netState = .netloopSuccess) :
    Completed (r.newBlock payload len) r.tftp.tftpBlock len r.tftp.tftpBlkSize := by
  unfold Receiver.newBlock at hs ⊢
  extract_lets at hs ⊢
  split at hs
  · rename_i hshort
    rw [if_pos hshort]
    exact ⟨hshort, List.mem_cons_self,
      ⟨_, List.mem_cons_of_mem _ (List.mem_cons_of_mem _ List.mem_cons_self)⟩⟩
  · exact absurd hs h

theorem handle_completes {m : TftpMsg} (h : r.netState ≠ .netloopSuccess)
    (hs : (r.handle m).netState = .netloopSuccess) :
    ∃ src n payload len, m = .data src n payload len ∧ Stores r.tftp n ∧
      Completed (r.handle m) n len r.tftp.tftpBlkSize := by
  cases m with
  | ignored => exact absurd hs h
  | oack src blkSize => exact absurd hs h
  | error code =>
    simp only [Receiver.handle, Receiver.error] at hs
    split at hs
    · cases hs
    · exact absurd hs h
  | data src n payload len =>
    simp only [Receiver.handle] at hs ⊢
    have hcount : (r.countBlock n).netState ≠ .netloopSuccess := by rwa [countBlock_netState]
    refine ⟨src, n, payload, len, rfl, ?_⟩
    rcases r.data_cases src n payload len with ⟨-, -, heq⟩ | ⟨hf, h1, heq⟩ | ⟨-, -, heq⟩ |
      ⟨hf, hne, heq⟩
    · rw [heq] at hs
      exact absurd hs hcount
    · rw [heq] at hs ⊢
      have hdone := newBlock_completes (r := (r.countBlock n).firstBlock src) hcount hs
      have hblock : ((r.countBlock n).firstBlock src).tftp.tftpBlock = n := countBlock_block n
      have hsize : ((r.countBlock n).firstBlock src).tftp.tftpBlkSize = r.tftp.tftpBlkSize :=
        countBlock_blkSize n
      rw [hblock, hsize] at hdone
      exact ⟨(if_pos hf).mpr h1, hdone⟩
    · rw [heq] at hs
      exact absurd hs hcount
    · rw [heq] at hs ⊢
      have hdone := newBlock_completes hcount hs
      rw [countBlock_block, countBlock_blkSize] at hdone
      exact ⟨(if_neg (by simp [hf])).mpr hne, hdone⟩

theorem Earned.timeout (h : Earned r) : Earned (Receiver.timeout { r with timeHandler := none }) := by
  unfold Receiver.timeout
  extract_lets r₁ r₂ r₃
  have h₂ : Earned r₂ := { h with handler := (fun hc => by cases hc) }
  have h₃ : Earned r₃ := { h with handler := (fun hc => by cases hc) }
  split
  · exact h₂
  · split
    · exact h₃.send
    · exact h₃

theorem Earned.start (s : Net) (h : s.loop.netState = .netloopContinue) :
    Earned (receiver (tftpStart s)) := by
  obtain ⟨port, hr⟩ := receiver_tftpStart s
  rw [hr]
  refine Earned.send ?_
  exact {
    transfer := Or.inl rfl
    handler := (fun hc => by cases hc)
    state := fun hs => absurd (h.symm.trans hs) (by decide) }

end Receiver

variable {s t : Net} {xs : List LoopInput} {u : UdpCall}

theorem tftpNewBlock_ack {pkt : Buf} {len : Nat} (hstate : s.tftp.tftpState = .data)
    (h : ¬Unresolved s .netServerEther s.tftp.tftpRemoteIP) :
    u16 s.tftp.tftpBlock ∈ acksSent (tftpNewBlock s pkt len) := by
  unfold tftpNewBlock
  extract_lets src s₁ s₂ s₃ s₄
  have harmed := netSetTimeout_sets s₁ tftpTimeoutMSecs .tftpTimeout
  have htftp : s₃.tftp = s₁.tftp := harmed.tftp
  have htx : s₃.tx = s.tx := harmed.tx
  have hack : u16 s₃.tftp.tftpBlock ∈ acksSent s₄ := by
    refine tftpSend_ack (htftp ▸ hstate) ?_
    rw [unresolved_congr (s := s) (by rw [htx]) (by rw [htx]), htftp]
    exact h
  rw [htftp] at hack
  split
  · exact acksSent_mono (tftpComplete_quiet s₄).cfg (tftpComplete_quiet s₄).mem_log hack
  · exact hack

structure Recounted (s t : Net) : Prop where
  tx : t.tx = s.tx
  tftpState : t.tftp.tftpState = s.tftp.tftpState
  tftpBlock : t.tftp.tftpBlock = s.tftp.tftpBlock
  tftpLastBlock : t.tftp.tftpLastBlock = s.tftp.tftpLastBlock
  tftpRemoteIP : t.tftp.tftpRemoteIP = s.tftp.tftpRemoteIP

theorem updateBlockNumber_recounted (s : Net) : Recounted s (updateBlockNumber s) := by
  unfold updateBlockNumber
  split <;> exact ⟨rfl, rfl, rfl, rfl, rfl⟩

theorem tftpAcceptBlock_ack {pkt : Buf} {n len : Nat} (hblock : s.tftp.tftpBlock = n)
    (hne : n ≠ s.tftp.tftpLastBlock) (hstate : s.tftp.tftpState = .data)
    (h : ¬Unresolved s .netServerEther s.tftp.tftpRemoteIP) :
    u16 n ∈ acksSent (tftpAcceptBlock s pkt len) := by
  rw [tftpAcceptBlock, if_neg (hblock ▸ hne)]
  exact hblock ▸ tftpNewBlock_ack hstate h

theorem tftpDataHandler_ack {pkt : Buf} {src len : Nat} (hlen : 2 ≤ len)
    (htransfer : s.tftp.tftpState = .sendRrq ∨ s.tftp.tftpState = .oack ∨ s.tftp.tftpState = .data)
    (hst : Stores s.tftp (be16 pkt 0)) (h : ¬Unresolved s .netServerEther s.tftp.tftpRemoteIP) :
    u16 (be16 pkt 0) ∈ acksSent (tftpDataHandler s pkt src len) := by
  have hawaits : (s.tftp.tftpState = .sendRrq ∨ s.tftp.tftpState = .oack ∨
      s.tftp.tftpState = .recvWrq) ↔ Receiver.awaitsFirst s.tftp = true := by
    simp [Receiver.awaitsFirst, or_assoc]
  unfold tftpDataHandler
  rw [if_neg (Nat.not_lt.mpr hlen)]
  extract_lets _ _ s₁ _ s₂
  have hcount : Recounted { s with tftp.tftpBlock := be16 pkt 0 } s₁ :=
    updateBlockNumber_recounted _
  have hknown : ¬Unresolved s₁ .netServerEther s₁.tftp.tftpRemoteIP := fun hu =>
    h (hcount.tftpRemoteIP ▸ (unresolved_congr (by rw [hcount.tx]) (by rw [hcount.tx]) _ _).mp hu)
  rw [hcount.tftpState]
  by_cases hf : Receiver.awaitsFirst s.tftp = true
  · have h1 : be16 pkt 0 = 1 := (if_pos hf).mp hst
    have hblock : s₂.tftp.tftpBlock = be16 pkt 0 := hcount.tftpBlock
    rw [if_pos (hawaits.mpr hf), if_neg (not_not.mpr (hblock.trans h1))]
    exact tftpAcceptBlock_ack hblock (by rw [h1]; exact Nat.one_ne_zero) rfl hknown
  · have hdata := Receiver.data_of_not_awaits (r := receiver s) (Bool.eq_false_iff.mpr hf) htransfer
    have hne : be16 pkt 0 ≠ s.tftp.tftpLastBlock := (if_neg hf).mp hst
    rw [if_neg (mt hawaits.mp hf)]
    exact tftpAcceptBlock_ack hcount.tftpBlock (hcount.tftpLastBlock ▸ hne)
      (hcount.tftpState.trans hdata) hknown

theorem tftpHandler_ack {src n len : Nat} {payload : Buf}
    (hm : tftpMsg s.tftp u.pkt u.dport u.sport u.len = .data src n payload len)
    (htransfer : s.tftp.tftpState = .sendRrq ∨ s.tftp.tftpState = .oack ∨ s.tftp.tftpState = .data)
    (hst : Stores s.tftp n) (h : ¬Unresolved s .netServerEther s.tftp.tftpRemoteIP) :
    n ∈ acksSent (tftpHandler s u.pkt u.dport u.sip u.sport u.len) := by
  have hdata := tftpMsg_data hm
  have hlong := hdata.long
  have hblock : n = be16 (shift u.pkt 2) 0 := by rw [hdata.block_eq, be16_shift]
  by_cases hacc : Accepted s.tftp u.dport u.sport u.len
  · rw [hacc.tftpMsg] at hm
    have hopcode : ¬be16 u.pkt 0 = tftpOACK ∧ be16 u.pkt 0 = tftpDATA := by
      split at hm
      · cases hm
      · split at hm
        · exact ⟨‹_›, ‹_›⟩
        · split at hm <;> cases hm
    rw [tftpHandler_accepted hacc, if_neg hopcode.1, if_pos hopcode.2]
    have hack : u16 (be16 (shift u.pkt 2) 0) ∈
        acksSent (tftpDataHandler s (shift u.pkt 2) u.sport (u.len - 2)) :=
      tftpDataHandler_ack (by omega) htransfer (hblock ▸ hst) h
    rwa [← hblock, u16_of_lt hdata.block_lt] at hack
  · rw [tftpMsg_refused hacc] at hm
    cases hm

theorem tftpHandler_downloads {src n len : Nat} {payload : Buf}
    (hm : tftpMsg s.tftp u.pkt u.dport u.sport u.len = .data src n payload len)
    (hdone : (receiver (tftpHandler s u.pkt u.dport u.sip u.sport u.len)).Completed n len
      s.tftp.tftpBlkSize)
    (hack : n ∈ acksSent (tftpHandler s u.pkt u.dport u.sip u.sport u.len)) :
    Downloaded (tftpHandler s u.pkt u.dport u.sip u.sport u.len) := by
  obtain ⟨offset, hstored⟩ := hdone.stored
  obtain ⟨e, he, hmark⟩ := List.mem_filterMap.mp hdone.complete
  have hn : u16 (toU32 ((n : Int) - 1 + 1)) = n := by
    have hlt := (tftpMsg_data hm).block_lt
    simp only [toU32, u16]
    omega
  refine ⟨eventMark_complete hmark ▸ he, _, _, offset, len, mem_marks_store.mp hstored, hdone.short, ?_⟩
  rwa [hn]

structure Getting (s : Net) : Prop where
  earned : (receiver s).Earned
  success : s.loop.netState = .netloopSuccess → Downloaded s

theorem Downloaded.mono (h : Downloaded s) (hcfg : t.cfg = s.cfg) (hlog : ∀ e ∈ s.log, e ∈ t.log) :
    Downloaded t := by
  obtain ⟨hc, n, blkSize, offset, len, hs, hlt, ha⟩ := h
  exact ⟨hlog _ hc, n, blkSize, offset, len, hlog _ hs, hlt, acksSent_mono hcfg hlog ha⟩

theorem TftpStep.cfg (h : TftpStep s t) : t.cfg = s.cfg := by
  rcases h with h | ⟨v, hv, hu⟩
  · exact h.cfg
  · exact hu.cfg.trans ((tftpSend_sends v).cfg.trans hv.cfg)

theorem TftpStep.mem_log (h : TftpStep s t) : ∀ e ∈ s.log, e ∈ t.log := by
  rcases h with h | ⟨v, hv, hu⟩
  · exact h.mem_log
  · intro e he
    exact hu.mem_log e ((tftpSend_sends v).mem_log e (List.mem_cons_of_mem _ (hv.mem_log e he)))

theorem Getting.sends (h : Getting s) (hs : Sends s t) : Getting t where
  earned := by
    rw [hs.receiver_eq]
    exact h.earned
  success := by
    rw [hs.loop]
    exact fun hc => (h.success hc).mono hs.cfg hs.mem_log

theorem Getting.tftpHandler (h : Getting s)
    (hready : (tftpMsg s.tftp u.pkt u.dport u.sport u.len).AckReady s) :
    Getting (tftpHandler s u.pkt u.dport u.sip u.sport u.len) := by
  have hr := receiver_tftpHandler s u.pkt u.dport u.sip u.sport u.len
  have hstep := tftpHandler_step s u.pkt u.dport u.sip u.sport u.len
  refine ⟨hr ▸ h.earned.handle _, fun hs => ?_⟩
  by_cases hold : s.loop.netState = .netloopSuccess
  · exact (h.success hold).mono hstep.cfg hstep.mem_log
  · have hs' : ((receiver s).handle (tftpMsg s.tftp u.pkt u.dport u.sport u.len)).netState =
        .netloopSuccess := hr ▸ hs
    obtain ⟨src, n, payload, len, hm, hst, hdone⟩ := Receiver.handle_completes hold hs'
    rw [← hr] at hdone
    rw [hm] at hready
    exact tftpHandler_downloads hm hdone
      (tftpHandler_ack hm h.earned.transfer hst (hready hold hst hdone.short))

theorem Getting.netReceive {inpkt : Buf} {len : Int}
    (hok : FrameExpected .tftpget (.running s) (.frame inpkt len)) (h : Getting s) :
    Getting (netReceive s inpkt len) := by
  rcases netReceive_cases s inpkt len with hs | ⟨e, he, heq⟩ | ⟨u, hu, heq⟩
  · exact h.sends hs
  · rw [heq]
    have hlog (e' : Event) (he' : e' ∈ s.log) :
        e' ∈ (emitEvent s (.echoReply e.src e.id e.seq)).log := List.mem_cons_of_mem _ he'
    by_cases hsrc : e.src = s.ping.netPingIP
    · have hsuccess : s.loop.netState = .netloopSuccess := by
        by_contra hne
        exact absurd (hok.1 e he hsrc hne).1 (by decide)
      rw [echoReplied_hit hsrc]
      exact ⟨{ h.earned with state := (fun hc => by cases hc) },
        fun _ => (h.success hsuccess).mono rfl hlog⟩
    · rw [echoReplied_miss hsrc]
      exact ⟨{ h.earned with }, fun hc => (h.success hc).mono rfl hlog⟩
  · rw [heq]
    cases hf : s.loop.udpPacketHandler with
    | dummyHandler => exact h
    | tftpHandler => exact h.tftpHandler (hok.2 u hu hf)

theorem Getting.polled (h : Getting s) : Getting (NonOsLite.polled s) := by
  rcases polled_cases s with hs | ⟨x, hx, -, heq⟩
  · exact h.sends hs
  · cases x with
    | pingTimeout => exact absurd hx h.earned.handler
    | tftpTimeout =>
      have ha := h.sends (arpTimeoutCheck_sends s)
      have hstep := tftpTimeout_step (expired (arpTimeoutCheck s))
      have hstate : (NonOsLite.polled s).loop.netState = s.loop.netState := by
        rw [heq]
        exact tftpTimeout_polled_netState s
      refine ⟨?_, fun hc => ?_⟩
      · rw [heq, receiver_expired_timeout]
        exact h.earned.timeout
      · rw [heq]
        have hdone := h.success (hstate.symm.trans hc)
        have hsent := arpTimeoutCheck_sends s
        exact hdone.mono (hstep.cfg.trans hsent.cfg)
          (fun e he => hstep.mem_log e (hsent.mem_log e he))

theorem tftpget_finished
    (h : Meets (netLoopStep .tftpget) (FrameExpected .tftpget) (netLoopEntry .tftpget s) xs) :
    (netLoop .tftpget s xs).All Getting (fun ret t => 0 ≤ ret → Downloaded t) := by
  refine netLoop_invariant ?_ ?_ ?_ h
  · rcases netLoopEntry_cases .tftpget s with heq | heq
    · rw [heq]
      intro hret
      omega
    · rw [heq]
      refine ⟨Receiver.Earned.start _ rfl, fun hc => ?_⟩
      rw [tftpStart_netState] at hc
      cases hc
  · intro t inpkt len hok ht
    exact ht.netReceive hok
  · intro t key _ ht
    have hp := ht.polled
    rcases netLoopPoll_cases .tftpget key hp.earned.state with
      ⟨-, heq⟩ | ⟨-, -, heq⟩ | ⟨-, -, heq⟩ | ⟨-, hsuccess, heq⟩
    · rw [heq]
      intro hret
      omega
    · rw [heq]
      exact hp
    · rw [heq]
      intro hret
      omega
    · rw [heq]
      exact fun _ => hp.success hsuccess

structure Asked (ip : IPaddr) (s : Net) : Prop where
  pinging : Pinging s
  target : s.ping.netPingIP = ip
  success : s.loop.netState = .netloopSuccess → Answered ip s

variable {ip : IPaddr}

theorem Answered.mono (h : Answered ip s) (hcfg : t.cfg = s.cfg) (hlog : ∀ e ∈ s.log, e ∈ t.log) :
    Answered ip t := by
  obtain ⟨id, seq, hreq, hrep⟩ := h
  exact ⟨id, seq, echoRequestsSent_mono hcfg hlog hreq, hlog _ hrep⟩

theorem Asked.sends (h : Asked ip s) (hs : Sends s t) : Asked ip t where
  pinging := h.pinging.sends hs
  target := by rw [hs.ping]; exact h.target
  success := by
    rw [hs.loop]
    exact fun hc => (h.success hc).mono hs.cfg hs.mem_log

theorem Asked.netReceive {inpkt : Buf} {len : Int}
    (hok : FrameExpected .ping (.running s) (.frame inpkt len)) (h : Asked ip s) :
    Asked ip (netReceive s inpkt len) := by
  have hp := h.pinging.netReceive inpkt len
  rcases netReceive_cases s inpkt len with hs | ⟨e, he, heq⟩ | ⟨u, -, heq⟩
  · exact h.sends hs
  · rw [heq] at hp ⊢
    have hlog (e' : Event) (he' : e' ∈ s.log) : e' ∈ (emitEvent s (.echoReply e.src e.id e.seq)).log :=
      List.mem_cons_of_mem _ he'
    by_cases hsrc : e.src = s.ping.netPingIP
    · rw [echoReplied_hit hsrc] at hp ⊢
      refine ⟨hp, h.target, fun _ => ?_⟩
      by_cases hsuccess : s.loop.netState = .netloopSuccess
      · exact (h.success hsuccess).mono rfl hlog
      · have hreq := (hok.1 e he hsrc hsuccess).2
        have hip : e.src = ip := hsrc.trans h.target
        exact ⟨e.id, e.seq, echoRequestsSent_mono (by rfl) hlog hreq, hip ▸ List.mem_cons_self⟩
    · rw [echoReplied_miss hsrc] at hp ⊢
      exact ⟨hp, h.target, fun hc => (h.success hc).mono rfl hlog⟩
  · rw [heq, h.pinging.udpHandler]
    exact h

theorem Asked.polled (h : Asked ip s) : Asked ip (polled s) := by
  have hp := h.pinging.polled
  rcases polled_cases s with hs | ⟨x, hx, -, heq⟩
  · exact h.sends hs
  · cases x with
    | tftpTimeout => exact absurd hx h.pinging.handler
    | pingTimeout =>
      rw [heq] at hp ⊢
      have hs := h.sends (arpTimeoutCheck_sends s)
      exact ⟨hp, hs.target, (fun hc => by cases hc)⟩

theorem Asked.start (h : s.loop.udpPacketHandler = .dummyHandler)
    (hc : s.loop.netState = .netloopContinue) (hip : s.ping.netPingIP = ip) :
    Asked ip (pingStart s) where
  pinging := Pinging.start h hc
  target := by
    rw [pingStart, pingSend_ping]
    exact hip
  success := by
    have hloop : (pingStart s).loop.netState = .netloopContinue := by
      rw [pingStart, pingSend_loop, (netSetTimeout_sets _ _ _).netState, hc]
    intro hs
    rw [hloop] at hs
    cases hs

theorem netInit_ping (s : Net) : (netInit s).ping.netPingIP = s.ping.netPingIP := by
  cases hf : s.firstCall <;> simp [netInit, hf, netInitLoop, netClearHandlers, arpInit]

theorem ping_finished (hidle : s.loop.udpPacketHandler = .dummyHandler)
    (hip : s.ping.netPingIP = ip)
    (h : Meets (netLoopStep .ping) (FrameExpected .ping) (netLoopEntry .ping s) xs) :
    (netLoop .ping s xs).All (Asked ip) (fun ret t => 0 ≤ ret → Answered ip t) := by
  refine netLoop_invariant ?_ ?_ ?_ h
  · rcases netLoopEntry_cases .ping s with heq | heq
    · rw [heq]
      intro hret
      omega
    · rw [heq]
      refine Asked.start ?_ rfl ?_
      · simpa only [netInitLoop, netSetState] using netInit_idle hidle
      · simpa only [netInitLoop, netSetState] using (netInit_ping s).trans hip
  · intro t inpkt len hok ht
    exact ht.netReceive hok
  · intro t key _ ht
    have hp := ht.polled
    rcases netLoopPoll_cases .ping key hp.pinging.state with
      ⟨-, heq⟩ | ⟨-, -, heq⟩ | ⟨-, -, heq⟩ | ⟨-, hsuccess, heq⟩
    · rw [heq]
      intro hret
      omega
    · rw [heq]
      exact hp
    · rw [heq]
      intro hret
      omega
    · rw [heq]
      exact fun _ => hp.success hsuccess

theorem netLoop_finished {protocol : Proto} (hs : Session s) (c : Command)
    (h : Meets (netLoopStep protocol) (FrameExpected protocol)
      (netLoopEntry protocol (prepare s c)) xs) :
    Finished protocol c.netPingIP (netLoop protocol (prepare s c) xs) where
  tftpget := by
    rintro rfl
    exact (tftpget_finished h).mono (fun _ _ => trivial) (fun _ _ h => h)
  ping := by
    rintro rfl
    exact (ping_finished (hs.command c).idle rfl h).mono (fun _ _ => trivial) (fun _ _ h => h)

def samplePeer : IPaddr := stringToIp (ascii "10.0.0.1")

def sampleServer : IPaddr := stringToIp (ascii "10.0.0.128")

def sampleCommand : Command where
  bootFile := ascii "zImage"
  loadAddr := 0x2000000
  netServerIP := 0
  netPingIP := samplePeer
  enetaddr := Vector.replicate 6 2
  netOurVLAN := 0xFFFF
  netOurNativeVLAN := 0xFFFF
  memory := fun _ => 0
  clockPos := 0

def sampleArpBuf (sha : Ether) (ip : IPaddr) : Buf :=
  let arp := putBe16 (fun _ => 0) 0 1
  let arp := putBe16 arp 2 protIP
  let arp := store arp 4 [6, 4]
  let arp := putBe16 arp 6 2
  let arp := putEther arp 8 sha
  let arp := netWriteIP arp 14 ip
  netWriteIP arp 24 (stringToIp (ascii "10.0.0.179"))

def sampleArpReply (ip : IPaddr) : LoopInput :=
  .frame (mapFrom (putBe16 (fun _ => 0) 12 protARP) etherHdrSize
    (fun _ => sampleArpBuf (Vector.replicate 6 9) ip)) 64

def sampleEchoReply : LoopInput :=
  let ip := netSetIpHeader 0 (fun _ => 0) (stringToIp (ascii "10.0.0.179")) samplePeer
  let ip := putBe16 ip 2 ipIcmpHdrSize
  let ip := store ip 9 [ipprotoICMP]
  let ip := putLe16 ip 10 (65535 - netCksum ip (ipHdrSize / 2))
  let ip := store ip ipHdrSize [icmpEchoReply]
  .frame (mapFrom (putBe16 (fun _ => 0) 12 protIP) etherHdrSize (fun _ => ip)) 64

def sampleLastBlock : LoopInput := .frame (sampleFrame sampleServer 1024 [0, 3, 0, 1, 7, 8]) 64

def samplePingRun : Loop :=
  netLoop .ping (prepare sampleBoard sampleCommand)
    [sampleArpReply samplePeer, .poll 0, sampleEchoReply, .poll 0]

def sampleTftpRun : Loop :=
  netLoop .tftpget (prepare sampleBoard sampleCommand)
    [sampleArpReply sampleServer, .poll 0, sampleLastBlock, .poll 0]

theorem netLoop_finished_ping :
    samplePingRun.All (fun _ => False) (fun ret _ => 0 ≤ ret) ∧
      Finished .ping samplePeer samplePingRun ∧
      sampleTftpRun.All (fun _ => False) (fun ret _ => 0 ≤ ret) ∧
      Finished .tftpget samplePeer sampleTftpRun :=
  ⟨by decide +kernel, netLoop_finished (.boot _ _ _ _) sampleCommand (by decide +kernel),
    by decide +kernel, netLoop_finished (.boot _ _ _ _) sampleCommand (by decide +kernel)⟩

theorem netLoop_unfinished : ¬∀ (s : Net) (c : Command) (protocol : Proto) (xs : List LoopInput),
    Session s → Finished protocol c.netPingIP (netLoop protocol (prepare s c) xs) := by
  intro h
  have hf := h sampleBoard sampleCommand .tftpget [sampleEchoReply, .poll 0] (.boot _ _ _ _)
  have hall : (netLoop .tftpget (prepare sampleBoard sampleCommand)
      [sampleEchoReply, .poll 0]).All (fun _ => True)
        (fun ret t => 0 ≤ ret → .tftpComplete ∈ t.log) := by
    exact (hf.tftpget rfl).mono (fun _ h => h) (fun _ _ hd h0 => (hd h0).1)
  exact absurd hall (by decide +kernel)

end NonOsLite
