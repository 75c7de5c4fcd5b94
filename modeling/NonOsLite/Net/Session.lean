import NonOsLite.Net.Loop
import NonOsLite.Net.Receiver

namespace NonOsLite
open ByteBuf InputMachine

-- What do_tftpboot, do_ping and the rest of the system leave behind before a call of NetLoop.
structure Command where
  bootFile : List UInt8
  loadAddr : Nat
  netServerIP : IPaddr
  netPingIP : IPaddr
  enetaddr : Ether
  netOurVLAN : Nat
  netOurNativeVLAN : Nat
  memory : Buf
  clockPos : Nat

-- The log is that of the command, so the last call reads its own history there.
def prepare (s : Net) (c : Command) : Net :=
  { s with
    cfg.bootFile := c.bootFile
    cfg.loadAddr := c.loadAddr
    cfg.netServerIP := c.netServerIP
    cfg.enetaddr := c.enetaddr
    cfg.netOurVLAN := c.netOurVLAN
    cfg.netOurNativeVLAN := c.netOurNativeVLAN
    ping.netPingIP := c.netPingIP
    memory := c.memory
    clockPos := c.clockPos
    log := [] }

-- The states in which a command finds the network code, over any sequence of earlier calls.
inductive Session : Net → Prop where
  | boot (enetaddr : Ether) (sysHz : Nat) (clock : Nat → Nat) (memory : Buf) :
      Session (netBoot enetaddr sysHz clock memory)
  | command {s : Net} (c : Command) (h : Session s) : Session (prepare s c)
  | call {s t : Net} {ret : Int} (protocol : Proto) (xs : List LoopInput) (h : Session s)
      (hrun : netLoop protocol s xs = .done ret t) : Session t

structure EchoReply where
  src : IPaddr
  id : Nat
  seq : Nat

def echoReplyOf (c : Config) (inpkt : Buf) (len : Int) : Option EchoReply :=
  match netDecode c inpkt len with
  | .icmp ip _ =>
      if inpkt (ip + ipHdrSize) = icmpEchoReply then
        some ⟨netReadIP inpkt (ip + 12), be16 inpkt (ip + ipHdrSize + 4),
          be16 inpkt (ip + ipHdrSize + 6)⟩
      else none
  | _ => none

def datagramOf (c : Config) (inpkt : Buf) (len : Int) : Option UdpCall :=
  match netDecode c inpkt len with
  | .udp _ _ u => some u
  | _ => none

def echoReplied (s : Net) (e : EchoReply) : Net :=
  let s := emitEvent s (.echoReply e.src e.id e.seq)
  if e.src = s.ping.netPingIP then netSetState s .netloopSuccess else s

def timerExpired (s : Net) : Prop :=
  s.loop.timeDelta < sub32 (getTimer s 0) s.loop.timeStart

instance (s : Net) : Decidable (timerExpired s) :=
  inferInstanceAs (Decidable (s.loop.timeDelta < sub32 (getTimer s 0) s.loop.timeStart))

def handlerCalled (s : Net) : Option THand :=
  match s.loop.timeHandler with
  | none => none
  | some x => if timerExpired s then some x else none

def expired (s : Net) : Net := { tick s with loop.timeHandler := none }

-- The state the switch on net_state sees.
def polled (s : Net) : Net := timeoutCheck (arpTimeoutCheck s)

variable {s t : Net} {protocol : Proto} {key : UInt8} {inpkt : Buf} {len : Int} {f : THand}

theorem echoReplied_hit {e : EchoReply} (h : e.src = s.ping.netPingIP) :
    echoReplied s e = netSetState (emitEvent s (.echoReply e.src e.id e.seq)) .netloopSuccess :=
  if_pos h

theorem echoReplied_miss {e : EchoReply} (h : e.src ≠ s.ping.netPingIP) :
    echoReplied s e = emitEvent s (.echoReply e.src e.id e.seq) :=
  if_neg h

theorem receiveIcmp_cases (s : Net) (inpkt : Buf) (ip : Nat) (len : Int) :
    Sends s (receiveIcmp s inpkt ip len) ∨
      inpkt (ip + ipHdrSize) = icmpEchoReply ∧
        receiveIcmp s inpkt ip len = echoReplied s ⟨netReadIP inpkt (ip + 12),
          be16 inpkt (ip + ipHdrSize + 4), be16 inpkt (ip + ipHdrSize + 6)⟩ := by
  unfold receiveIcmp
  split
  · exact Or.inl (Sends.refl s)
  · unfold pingReceive
    extract_lets icmph
    by_cases hreply : inpkt icmph = icmpEchoReply
    · rw [if_pos hreply]
      exact Or.inr ⟨hreply, rfl⟩
    · rw [if_neg hreply]
      left
      split
      · exact netSendPacket_sends _ _ _
      · exact Sends.refl s

theorem netReceive_cases (s : Net) (inpkt : Buf) (len : Int) :
    Sends s (netReceive s inpkt len) ∨
    (∃ e, echoReplyOf s.cfg inpkt len = some e ∧ netReceive s inpkt len = echoReplied s e) ∨
    (∃ u, datagramOf s.cfg inpkt len = some u ∧
      netReceive s inpkt len = rxhand s.loop.udpPacketHandler s u) := by
  cases hd : netDecode s.cfg inpkt len with
  | drop =>
    simp only [netReceive, hd]
    exact Or.inl (Sends.refl s)
  | arp ip n =>
    simp only [netReceive, hd]
    exact Or.inl (arpReceive_sends _ _ _ _)
  | icmp ip n =>
    simp only [netReceive, hd, echoReplyOf]
    rcases receiveIcmp_cases s inpkt ip n with hs | ⟨hreply, heq⟩
    · exact Or.inl hs
    · rw [if_pos hreply]
      exact Or.inr (Or.inl ⟨_, rfl, heq⟩)
  | udp ip n u =>
    simp only [netReceive, hd, datagramOf]
    exact Or.inr (Or.inr ⟨u, rfl, rfl⟩)

theorem tick_sends (s : Net) : Sends s (tick s) := sends_set s _ _

theorem timeoutCheck_eq (h : s.loop.timeHandler = some f) :
    timeoutCheck s = if timerExpired s then thand f (expired s) else tick s := by
  simp only [timeoutCheck, h]
  rfl

theorem timeoutCheck_cases (s : Net) :
    Sends s (timeoutCheck s) ∨
    ∃ x, s.loop.timeHandler = some x ∧ timerExpired s ∧ timeoutCheck s = thand x (expired s) := by
  cases hx : s.loop.timeHandler with
  | none =>
    simp only [timeoutCheck, hx]
    exact Or.inl (Sends.refl s)
  | some x =>
    rw [timeoutCheck_eq hx]
    by_cases he : timerExpired s
    · exact Or.inr ⟨x, rfl, he, if_pos he⟩
    · rw [if_neg he]
      exact Or.inl (tick_sends s)

theorem handlerCalled_some (h : s.loop.timeHandler = some f) :
    handlerCalled s = some f ↔ timerExpired s := by
  simp only [handlerCalled, h]
  split <;> simp [*]

theorem timeoutCheck_called (h : handlerCalled s = some f) :
    timeoutCheck s = thand f (expired s) := by
  cases hx : s.loop.timeHandler with
  | none => simp [handlerCalled, hx] at h
  | some x =>
    by_cases he : timerExpired s
    · have hxf : handlerCalled s = some x := (handlerCalled_some hx).mpr he
      obtain rfl : x = f := Option.some.inj (hxf.symm.trans h)
      rw [timeoutCheck_eq hx, if_pos he]
    · simp [handlerCalled, hx, he] at h

theorem timeoutCheck_not_called (h : handlerCalled s = none) : Sends s (timeoutCheck s) := by
  rcases timeoutCheck_cases s with hs | ⟨x, hx, he, -⟩
  · exact hs
  · rw [(handlerCalled_some hx).mpr he] at h
    cases h

theorem netLoopPoll_cases (protocol : Proto) (key : UInt8)
    (h : (polled s).loop.netState ≠ .netloopRestart) :
    (key = 113 ∧ netLoopPoll protocol s key =
      .done (-1) (netClearHandlers { s with tx.netArpWaitPacketIP := 0 })) ∨
    (key ≠ 113 ∧ (polled s).loop.netState = .netloopContinue ∧
      netLoopPoll protocol s key = .running (polled s)) ∨
    (key ≠ 113 ∧ (polled s).loop.netState = .netloopFail ∧
      netLoopPoll protocol s key = .done (-1) (netClearHandlers (polled s))) ∨
    (key ≠ 113 ∧ (polled s).loop.netState = .netloopSuccess ∧ netLoopPoll protocol s key =
      .done (toInt32 (polled s).loop.netBootFileXferSize) (netClearHandlers (polled s))) := by
  by_cases hq : key = 113
  · exact Or.inl ⟨hq, if_pos hq⟩
  · have hpolled : timeoutCheck (arpTimeoutCheck s) = polled s := rfl
    simp only [netLoopPoll, if_neg hq, hpolled]
    cases hs : (polled s).loop.netState with
    | netloopRestart => exact absurd hs h
    | netloopContinue => exact Or.inr (Or.inl ⟨hq, rfl, rfl⟩)
    | netloopFail => exact Or.inr (Or.inr (Or.inl ⟨hq, rfl, rfl⟩))
    | netloopSuccess => exact Or.inr (Or.inr (Or.inr ⟨hq, rfl, rfl⟩))

def Loop.All (p : Net → Prop) (q : Int → Net → Prop) : Loop → Prop
  | .running s => p s
  | .done ret s => q ret s

instance (p : Net → Prop) (q : Int → Net → Prop) [DecidablePred p] [∀ ret, DecidablePred (q ret)] :
    (l : Loop) → Decidable (l.All p q)
  | .running s => inferInstanceAs (Decidable (p s))
  | .done ret s => inferInstanceAs (Decidable (q ret s))

theorem Loop.All.mono {p p' : Net → Prop} {q q' : Int → Net → Prop} {l : Loop} (h : l.All p q)
    (hp : ∀ s, p s → p' s) (hq : ∀ ret s, q ret s → q' ret s) : l.All p' q' := by
  cases l with
  | running s => exact hp s h
  | done ret s => exact hq ret s h

theorem Loop.All.and {p p' : Net → Prop} {q q' : Int → Net → Prop} {l : Loop} (h : l.All p q)
    (h' : l.All p' q') : l.All (fun s => p s ∧ p' s) (fun ret s => q ret s ∧ q' ret s) := by
  cases l with
  | running s => exact ⟨h, h'⟩
  | done ret s => exact ⟨h, h'⟩

theorem netLoop_invariant {p : Net → Prop} {q : Int → Net → Prop}
    {ok : Loop → LoopInput → Prop} {xs : List LoopInput}
    (hentry : (netLoopEntry protocol s).All p q)
    (hframe : ∀ s inpkt len, ok (.running s) (.frame inpkt len) → p s → p (netReceive s inpkt len))
    (hpoll : ∀ s key, ok (.running s) (.poll key) → p s → (netLoopPoll protocol s key).All p q)
    (h : Meets (netLoopStep protocol) ok (netLoopEntry protocol s) xs) :
    (netLoop protocol s xs).All p q := by
  have hstep : Preserves (netLoopStep protocol) ok (Loop.All p q) := by
    intro l x hok hl
    cases l with
    | done ret t => exact hl
    | running t =>
      cases x with
      | frame inpkt len => exact hframe t inpkt len hok hl
      | poll key => exact hpoll t key hok hl
  exact hstep.run hentry h

theorem netLoopEntry_cases (protocol : Proto) (s : Net) :
    netLoopEntry protocol s = .done (-1) (netInitLoop (netSetState (netInit s) .netloopContinue)) ∨
    netLoopEntry protocol s = .running
      (let s := netInitLoop (netSetState (netInit s) .netloopContinue)
       let s := { s with loop.netBootFileXferSize := 0 }
       match protocol with
       | .tftpget => tftpStart s
       | .ping => pingStart s
       | _ => s) := by
  unfold netLoopEntry netLoopRestart
  extract_lets s₁ s₂
  split
  · exact Or.inl rfl
  · exact Or.inr rfl

theorem polled_cases (s : Net) :
    Sends s (polled s) ∨
    ∃ x, s.loop.timeHandler = some x ∧ timerExpired (arpTimeoutCheck s) ∧
      polled s = thand x (expired (arpTimeoutCheck s)) := by
  have ha := arpTimeoutCheck_sends s
  rcases timeoutCheck_cases (arpTimeoutCheck s) with hs | ⟨x, hx, he, heq⟩
  · exact Or.inl (ha.trans hs)
  · exact Or.inr ⟨x, ha.loop ▸ hx, he, heq⟩

theorem receiver_expired (h : Sends s t) :
    receiver (expired t) = { receiver s with timeHandler := none } := by
  rw [← h.receiver_eq]
  rfl

theorem receiver_expired_timeout (s : Net) :
    receiver (thand .tftpTimeout (expired (arpTimeoutCheck s))) =
      Receiver.timeout { receiver s with timeHandler := none } := by
  rw [← receiver_expired (arpTimeoutCheck_sends s)]
  exact receiver_tftpTimeout _

theorem Receiver.handle_netState {r : Receiver} (m : TftpMsg)
    (h : r.netState ≠ .netloopRestart) : (r.handle m).netState ≠ .netloopRestart := by
  have hnew (r : Receiver) (payload : Buf) (len : Nat) (h : r.netState ≠ .netloopRestart) :
      (r.newBlock payload len).netState ≠ .netloopRestart := by
    simp only [Receiver.newBlock]
    split
    · simp [Receiver.complete]
    · exact h
  cases m with
  | ignored => exact h
  | oack src blkSize => exact h
  | data src n payload len =>
    have hcount : (r.countBlock n).netState ≠ .netloopRestart := by rwa [Receiver.countBlock_netState]
    simp only [Receiver.handle]
    rcases r.data_cases src n payload len with ⟨-, -, heq⟩ | ⟨-, -, heq⟩ | ⟨-, -, heq⟩ | ⟨-, -, heq⟩
    · exact heq ▸ hcount
    · exact heq ▸ hnew _ payload len hcount
    · exact heq ▸ hcount
    · exact heq ▸ hnew _ payload len hcount
  | error code =>
    simp only [Receiver.handle, Receiver.error]
    split
    · simp
    · exact h

theorem Receiver.timeout_netState (r : Receiver) : r.timeout.netState = r.netState := by
  simp only [Receiver.timeout]
  repeat' split
  all_goals rfl

-- No handler asks for a restart, so the restart label of NetLoop is reached once.
theorem netReceive_not_restart (h : s.loop.netState ≠ .netloopRestart) :
    (netReceive s inpkt len).loop.netState ≠ .netloopRestart := by
  rcases netReceive_cases s inpkt len with hs | ⟨e, -, heq⟩ | ⟨u, -, heq⟩
  · rwa [hs.loop]
  · rw [heq]
    by_cases hsrc : e.src = s.ping.netPingIP
    · rw [echoReplied_hit hsrc]
      simp [netSetState]
    · rw [echoReplied_miss hsrc]
      exact h
  · rw [heq]
    cases s.loop.udpPacketHandler with
    | dummyHandler => exact h
    | tftpHandler =>
      have hr : (rxhand .tftpHandler s u).loop.netState =
          ((receiver s).handle (tftpMsg s.tftp u.pkt u.dport u.sport u.len)).netState :=
        congrArg Receiver.netState (receiver_tftpHandler s u.pkt u.dport u.sip u.sport u.len)
      rw [hr]
      exact Receiver.handle_netState _ h

theorem tftpTimeout_polled_netState (s : Net) :
    (thand .tftpTimeout (expired (arpTimeoutCheck s))).loop.netState = s.loop.netState :=
  (congrArg Receiver.netState (receiver_expired_timeout s)).trans (Receiver.timeout_netState _)

theorem polled_not_restart (h : s.loop.netState ≠ .netloopRestart) :
    (polled s).loop.netState ≠ .netloopRestart := by
  rcases polled_cases s with hs | ⟨x, -, -, heq⟩
  · rwa [hs.loop]
  · rw [heq]
    cases x with
    | pingTimeout => simp [thand, pingTimeout, netSetState]
    | tftpTimeout => rwa [tftpTimeout_polled_netState]

theorem netInit_idle (h : s.loop.udpPacketHandler = .dummyHandler) :
    (netInit s).loop.udpPacketHandler = .dummyHandler := by
  cases hf : s.firstCall with
  | true => simp [netInit, hf, netInitLoop, netClearHandlers]
  | false => simp [netInit, hf, netInitLoop, h]

theorem tftpStart_netState (s : Net) : (tftpStart s).loop.netState = s.loop.netState := by
  obtain ⟨port, hr⟩ := receiver_tftpStart s
  exact congrArg Receiver.netState hr

theorem pingSend_loop (s : Net) : (pingSend s).loop = s.loop := by
  unfold pingSend
  exact (arpRequest_sends _).loop

theorem pingSend_ping (s : Net) :
    (pingSend s).ping = { s.ping with pingSeqNo := u16 (s.ping.pingSeqNo + 1) } := by
  unfold pingSend
  exact (arpRequest_sends _).ping

theorem netClearHandlers_idle (s : Net) :
    (netClearHandlers s).loop.udpPacketHandler = .dummyHandler := rfl

theorem pingStart_netState (s : Net) : (pingStart s).loop.netState = s.loop.netState := by
  rw [pingStart, pingSend_loop, (netSetTimeout_sets _ _ _).netState]

theorem netLoopEntry_not_restart (protocol : Proto) (s : Net) :
    (netLoopEntry protocol s).All (fun t => t.loop.netState ≠ .netloopRestart)
      (fun _ _ => True) := by
  rcases netLoopEntry_cases protocol s with heq | heq
  · rw [heq]
    trivial
  · rw [heq]
    cases protocol with
    | tftpget => simp [Loop.All, tftpStart_netState, netInitLoop, netSetState]
    | ping => simp [Loop.All, pingStart_netState, netInitLoop, netSetState]
    | _ => simp [Loop.All, netInitLoop, netSetState]

theorem netLoopEntry_idle (h : s.loop.udpPacketHandler = .dummyHandler) (protocol : Proto) :
    (netLoopEntry protocol s).All (fun _ => True)
      (fun _ t => t.loop.udpPacketHandler = .dummyHandler) := by
  rcases netLoopEntry_cases protocol s with heq | heq
  · rw [heq]
    simpa only [Loop.All, netInitLoop, netSetState] using netInit_idle h
  · rw [heq]
    trivial

theorem netLoop_exits {q : Int → Net → Prop}
    (hentry : (netLoopEntry protocol s).All (fun _ => True) q)
    (hclean : ∀ ret t, t.loop.udpPacketHandler = .dummyHandler → q ret t) (xs : List LoopInput) :
    (netLoop protocol s xs).All (fun t => t.loop.netState ≠ .netloopRestart) q := by
  refine netLoop_invariant ?_ ?_ ?_ (meets_true (netLoopStep protocol) _ xs)
  · exact ((netLoopEntry_not_restart protocol s).and hentry).mono
      (fun _ h => h.1) (fun _ _ h => h.2)
  · intro t inpkt len _ ht
    exact netReceive_not_restart ht
  · intro t key _ ht
    rcases netLoopPoll_cases protocol key (polled_not_restart ht) with
      ⟨-, heq⟩ | ⟨-, -, heq⟩ | ⟨-, -, heq⟩ | ⟨-, -, heq⟩
    · rw [heq]
      exact hclean _ _ (netClearHandlers_idle _)
    · rw [heq]
      exact polled_not_restart ht
    · rw [heq]
      exact hclean _ _ (netClearHandlers_idle _)
    · rw [heq]
      exact hclean _ _ (netClearHandlers_idle _)

theorem netLoop_not_restart (protocol : Proto) (s : Net) (xs : List LoopInput) :
    (netLoop protocol s xs).All (fun t => t.loop.netState ≠ .netloopRestart) (fun _ _ => True) := by
  refine netLoop_exits ?_ (fun _ _ _ => trivial) xs
  exact (netLoopEntry_not_restart protocol s).mono (fun _ _ => trivial) (fun _ _ h => h)

theorem netLoop_idle (h : s.loop.udpPacketHandler = .dummyHandler) (protocol : Proto)
    (xs : List LoopInput) :
    (netLoop protocol s xs).All (fun t => t.loop.netState ≠ .netloopRestart)
      (fun _ t => t.loop.udpPacketHandler = .dummyHandler) :=
  netLoop_exits (netLoopEntry_idle h protocol) (fun _ _ hidle => hidle) xs

theorem Session.idle (h : Session s) : s.loop.udpPacketHandler = .dummyHandler := by
  induction h with
  | boot => rfl
  | command c _ ih => exact ih
  | call protocol xs _ hrun ih =>
    have hidle := netLoop_idle ih protocol xs
    rw [hrun] at hidle
    exact hidle

end NonOsLite
