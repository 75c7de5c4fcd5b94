import NonOsLite.Net.Isolation
import NonOsLite.Net.RoundTrip

namespace NonOsLite
open ByteBuf InputMachine

-- The only bytes a round writes are the data of a datagram, at the offset of its block behind addr.
def StoresFrom (addr : Nat) (s : Net) : LoopInput → Net → Prop
  | .poll _, t => t.memory = s.memory
  | .frame inpkt len, t => t.memory = s.memory ∨
      ∃ ip n u, netDecode s.cfg inpkt len = .udp ip n u ∧
        t.memory = copy s.memory (u32 (addr + storeOffset t.tftp ((t.tftp.tftpBlock : Int) - 1)))
          (shift u.pkt 4) (u.len - 4)

variable {s t : Net} {addr : Nat} {x : LoopInput}

structure Keeps (s t : Net) : Prop where
  memory : t.memory = s.memory
  loadAddr : t.cfg.loadAddr = s.cfg.loadAddr

theorem Sends.keeps (h : Sends s t) : Keeps s t := ⟨h.memory, congrArg Config.loadAddr h.cfg⟩

theorem Keeps.trans {u : Net} (h : Keeps s t) (k : Keeps t u) : Keeps s u :=
  ⟨k.memory.trans h.memory, k.loadAddr.trans h.loadAddr⟩

theorem tftpStart_keeps (s : Net) : Keeps s (tftpStart s) := by
  obtain ⟨port, hr⟩ := receiver_tftpStart s
  exact ⟨congrArg Receiver.memory hr, congrArg Receiver.loadAddr hr⟩

theorem Receiver.timeout_keeps (r : Receiver) :
    r.timeout.memory = r.memory ∧ r.timeout.loadAddr = r.loadAddr := by
  simp only [Receiver.timeout]
  split
  · exact ⟨rfl, rfl⟩
  · split <;> exact ⟨rfl, rfl⟩

theorem tftpTimeout_keeps (s : Net) : Keeps s (tftpTimeout s) := by
  have hr := receiver_tftpTimeout s
  obtain ⟨hmemory, hloadAddr⟩ := (receiver s).timeout_keeps
  exact ⟨(congrArg Receiver.memory hr).trans hmemory,
    (congrArg Receiver.loadAddr hr).trans hloadAddr⟩

theorem polled_keeps (s : Net) : Keeps s (polled s) := by
  rcases polled_cases s with hs | ⟨x, -, -, heq⟩
  · exact hs.keeps
  · have harp : Keeps s (expired (arpTimeoutCheck s)) := by
      refine (arpTimeoutCheck_sends s).keeps.trans ?_
      exact ⟨rfl, rfl⟩
    rw [heq]
    cases x with
    | tftpTimeout => exact harp.trans (tftpTimeout_keeps _)
    | pingTimeout => exact harp.trans ⟨rfl, rfl⟩

def Loop.net : Loop → Net
  | .running s => s
  | .done _ s => s

theorem netLoopPoll_keeps (hstate : s.loop.netState ≠ .netloopRestart) (key : UInt8) :
    Keeps s (netLoopPoll .tftpget s key).net := by
  rcases netLoopPoll_cases .tftpget key (polled_not_restart hstate) with
    ⟨-, heq⟩ | ⟨-, -, heq⟩ | ⟨-, -, heq⟩ | ⟨-, -, heq⟩
  · rw [heq]
    exact ⟨rfl, rfl⟩
  · rw [heq]
    exact polled_keeps s
  · rw [heq]
    exact (polled_keeps s).trans ⟨rfl, rfl⟩
  · rw [heq]
    exact (polled_keeps s).trans ⟨rfl, rfl⟩

namespace Receiver

variable {r : Receiver} {m : TftpMsg}

theorem newBlock_stores (r : Receiver) (payload : Buf) (len : Nat) :
    (r.newBlock payload len).loadAddr = r.loadAddr ∧
      (r.newBlock payload len).memory = copy r.memory (u32 (r.loadAddr +
        storeOffset (r.newBlock payload len).tftp
          (((r.newBlock payload len).tftp.tftpBlock : Int) - 1))) payload len := by
  simp only [newBlock]
  split <;> exact ⟨rfl, rfl⟩

theorem firstBlock_stores (r : Receiver) (n src : Nat) (payload : Buf) (len : Nat) :
    (((r.countBlock n).firstBlock src).newBlock payload len).loadAddr = r.loadAddr ∧
      (((r.countBlock n).firstBlock src).newBlock payload len).memory =
        copy r.memory (u32 (r.loadAddr +
          storeOffset (((r.countBlock n).firstBlock src).newBlock payload len).tftp
            (((((r.countBlock n).firstBlock src).newBlock payload len).tftp.tftpBlock : Int) - 1)))
          payload len := by
  obtain ⟨hload, hmemory⟩ := newBlock_stores ((r.countBlock n).firstBlock src) payload len
  have haddr : ((r.countBlock n).firstBlock src).loadAddr = r.loadAddr := countBlock_loadAddr n
  have hmem : ((r.countBlock n).firstBlock src).memory = r.memory := countBlock_memory n
  rw [hmem, haddr] at hmemory
  exact ⟨hload.trans haddr, hmemory⟩

theorem handle_stores (r : Receiver) (m : TftpMsg) : (r.handle m).loadAddr = r.loadAddr ∧
    ((r.handle m).memory = r.memory ∨ ∃ src n payload len, m = .data src n payload len ∧
      (r.handle m).memory = copy r.memory (u32 (r.loadAddr +
        storeOffset (r.handle m).tftp (((r.handle m).tftp.tftpBlock : Int) - 1))) payload len) := by
  cases m with
  | ignored => exact ⟨rfl, Or.inl rfl⟩
  | oack src blkSize => exact ⟨rfl, Or.inl rfl⟩
  | error code =>
    simp only [handle, error]
    split <;> exact ⟨rfl, Or.inl rfl⟩
  | data src n payload len =>
    simp only [handle]
    rcases r.data_cases src n payload len with
      ⟨-, -, heq⟩ | ⟨-, -, heq⟩ | ⟨-, -, heq⟩ | ⟨-, -, heq⟩
    · rw [heq]
      exact ⟨countBlock_loadAddr n, Or.inl (countBlock_memory n)⟩
    · obtain ⟨hload, hmemory⟩ := r.firstBlock_stores n src payload len
      rw [heq]
      exact ⟨hload, Or.inr ⟨src, n, payload, len, rfl, hmemory⟩⟩
    · rw [heq]
      exact ⟨countBlock_loadAddr n, Or.inl (countBlock_memory n)⟩
    · obtain ⟨hload, hmemory⟩ := newBlock_stores (r.countBlock n) payload len
      rw [countBlock_memory, countBlock_loadAddr] at hmemory
      rw [heq]
      exact ⟨hload.trans (countBlock_loadAddr n), Or.inr ⟨src, n, payload, len, rfl, hmemory⟩⟩

theorem data_first (hr : r.tftp.tftpState = .sendRrq) (src : Nat) (payload : Buf) (len : Nat) :
    (r.data src 1 payload len).memory = copy r.memory (u32 r.loadAddr) payload len ∧
      storeOffset (r.data src 1 payload len).tftp
        (((r.data src 1 payload len).tftp.tftpBlock : Int) - 1) = 0 := by
  have hawaits : awaitsFirst r.tftp = true := by simp [awaitsFirst, hr]
  have hfirst : r.data src 1 payload len = ((r.countBlock 1).firstBlock src).newBlock payload len := by
    rcases r.data_cases src 1 payload len with
      ⟨-, hne, -⟩ | ⟨-, -, heq⟩ | ⟨hf, -, -⟩ | ⟨hf, -, -⟩
    · exact absurd rfl hne
    · exact heq
    · rw [hawaits] at hf
      cases hf
    · rw [hawaits] at hf
      cases hf
  have hmemory := (r.firstBlock_stores 1 src payload len).2
  have hoffset : storeOffset (((r.countBlock 1).firstBlock src).newBlock payload len).tftp
      (((((r.countBlock 1).firstBlock src).newBlock payload len).tftp.tftpBlock : Int) - 1) = 0 := by
    simp only [newBlock]
    split <;> simp [storeOffset, firstBlock, send, storeBlock, complete, toU32]
  rw [hoffset, Nat.add_zero] at hmemory
  rw [hfirst]
  exact ⟨hmemory, hoffset⟩

end Receiver

theorem tftpHandler_stores (s : Net) (u : UdpCall) :
    (rxhand .tftpHandler s u).cfg.loadAddr = s.cfg.loadAddr ∧
      ((rxhand .tftpHandler s u).memory = s.memory ∨
        (rxhand .tftpHandler s u).memory = copy s.memory (u32 (s.cfg.loadAddr +
          storeOffset (rxhand .tftpHandler s u).tftp
            (((rxhand .tftpHandler s u).tftp.tftpBlock : Int) - 1))) (shift u.pkt 4) (u.len - 4)) := by
  have hr := receiver_tftpHandler s u.pkt u.dport u.sip u.sport u.len
  obtain ⟨hload, hmemory⟩ :=
    (receiver s).handle_stores (tftpMsg s.tftp u.pkt u.dport u.sport u.len)
  rw [← hr] at hload hmemory
  refine ⟨hload, ?_⟩
  rcases hmemory with hsame | ⟨src, n, payload, len, hmsg, hstored⟩
  · exact Or.inl hsame
  · have hdata := tftpMsg_data hmsg
    rw [hdata.payload_eq, hdata.len_eq] at hstored
    exact Or.inr hstored

theorem echoReplied_keeps (s : Net) (e : EchoReply) : Keeps s (echoReplied s e) := by
  by_cases hsrc : e.src = s.ping.netPingIP
  · rw [echoReplied_hit hsrc]
    exact ⟨rfl, rfl⟩
  · rw [echoReplied_miss hsrc]
    exact ⟨rfl, rfl⟩

theorem Keeps.stores {inpkt : Buf} {len : Int} (h : Keeps s t) :
    t.cfg.loadAddr = s.cfg.loadAddr ∧ StoresFrom s.cfg.loadAddr s (.frame inpkt len) t :=
  ⟨h.loadAddr, Or.inl h.memory⟩

theorem netReceive_stores (s : Net) (inpkt : Buf) (len : Int) :
    (netReceive s inpkt len).cfg.loadAddr = s.cfg.loadAddr ∧
      StoresFrom s.cfg.loadAddr s (.frame inpkt len) (netReceive s inpkt len) := by
  cases hd : netDecode s.cfg inpkt len with
  | drop =>
    simp only [netReceive, hd]
    exact ⟨trivial, Or.inl rfl⟩
  | arp ip n =>
    simp only [netReceive, hd]
    exact (arpReceive_sends _ _ _ _).keeps.stores
  | icmp ip n =>
    simp only [netReceive, hd]
    rcases receiveIcmp_cases s inpkt ip n with hs | ⟨-, heq⟩
    · exact hs.keeps.stores
    · rw [heq]
      exact (echoReplied_keeps s _).stores
  | udp ip n u =>
    simp only [netReceive, hd]
    cases s.loop.udpPacketHandler with
    | dummyHandler => exact Keeps.stores ⟨rfl, rfl⟩
    | tftpHandler =>
      obtain ⟨hload, hmemory⟩ := tftpHandler_stores s u
      exact ⟨hload, hmemory.imp_right fun hstored => ⟨ip, n, u, hd, hstored⟩⟩

theorem netLoopStep_stores (hstate : s.loop.netState ≠ .netloopRestart) (x : LoopInput) :
    (netLoopStep .tftpget (.running s) x).net.cfg.loadAddr = s.cfg.loadAddr ∧
      StoresFrom s.cfg.loadAddr s x (netLoopStep .tftpget (.running s) x).net := by
  cases x with
  | frame inpkt len => exact netReceive_stores s inpkt len
  | poll key => exact ⟨(netLoopPoll_keeps hstate key).loadAddr, (netLoopPoll_keeps hstate key).memory⟩

def started (s : Net) : Net :=
  { netInitLoop (netSetState (netInit s) .netloopContinue) with loop.netBootFileXferSize := 0 }

theorem started_cfg (s : Net) : (started s).cfg =
    { s.cfg with
      netOurIP := stringToIp (ascii "10.0.0.179")
      netOurGatewayIP := stringToIp (ascii "10.0.0.254")
      netOurSubnetMask := stringToIp (ascii "255.255.255.0")
      netServerIP := stringToIp (ascii "10.0.0.128")
      netOurEther := s.cfg.enetaddr } := by
  cases hf : s.firstCall <;>
    simp [started, netInit, hf, netInitLoop, netSetState, netClearHandlers, arpInit]

theorem started_marks (s : Net) : marks (started s) = marks s := by
  cases hf : s.firstCall <;>
    simp [marks, started, netInit, hf, netInitLoop, netSetState, netClearHandlers, arpInit]

theorem netLoopEntry_tftpget (hmac : s.cfg.enetaddr ≠ netEtherNullAddr) :
    netLoopEntry .tftpget s = .running (tftpStart (started s)) := by
  have hours : stringToIp (ascii "10.0.0.179") ≠ 0 := by decide
  have hserver : stringToIp (ascii "10.0.0.128") ≠ 0 := by decide
  unfold netLoopEntry netLoopRestart
  extract_lets s₁ s₂
  have hcfg : s₁.cfg = (started s).cfg := rfl
  have hready : netCheckPrereq s₁ .tftpget = 0 := by
    simp only [netCheckPrereq, hcfg, started_cfg, if_neg hserver, if_neg hours, if_neg hmac]
  rw [if_neg (not_not.mpr hready)]
  rfl

theorem netLoop_loadAddr (hmac : s.cfg.enetaddr ≠ netEtherNullAddr) (xs : List LoopInput) :
    (netLoop .tftpget s xs).All (fun t => t.cfg.loadAddr = s.cfg.loadAddr ∧
      t.loop.netState ≠ .netloopRestart) (fun _ _ => True) := by
  refine netLoop_invariant ?_ ?_ ?_ (meets_true (netLoopStep .tftpget) _ xs)
  · have hstate := netLoopEntry_not_restart .tftpget s
    rw [netLoopEntry_tftpget hmac] at hstate ⊢
    refine ⟨(tftpStart_keeps (started s)).loadAddr.trans ?_, hstate⟩
    rw [started_cfg]
  · rintro t inpkt len - ⟨ht, hstate⟩
    exact ⟨(netReceive_stores t inpkt len).1.trans ht, netReceive_not_restart hstate⟩
  · rintro t key - ⟨ht, hstate⟩
    have hkeeps := (netLoopPoll_keeps hstate key).loadAddr
    rcases netLoopPoll_cases .tftpget key (polled_not_restart hstate) with
      ⟨-, heq⟩ | ⟨-, -, heq⟩ | ⟨-, -, heq⟩ | ⟨-, -, heq⟩
    · rw [heq]
      trivial
    · rw [heq] at hkeeps ⊢
      exact ⟨hkeeps.trans ht, polled_not_restart hstate⟩
    · rw [heq]
      trivial
    · rw [heq]
      trivial

theorem tftpHandler_first {u : UdpCall} {c : UInt8} (hstate : s.tftp.tftpState = .sendRrq)
    (hport : u.dport = s.tftp.tftpOurPort) (hlen : u.len = 5) (hpkt : StartsWith u.pkt [0, 3, 0, 1, c]) :
    (rxhand .tftpHandler s u).memory = copy s.memory (u32 s.cfg.loadAddr) (shift u.pkt 4) 1 ∧
      storeOffset (rxhand .tftpHandler s u).tftp
        (((rxhand .tftpHandler s u).tftp.tftpBlock : Int) - 1) = 0 := by
  obtain ⟨h0, h1, h2, h3⟩ : u.pkt 0 = 0 ∧ u.pkt 1 = 3 ∧ u.pkt 2 = 0 ∧ u.pkt 3 = 1 := by
    rw [startsWith_iff] at hpkt
    exact ⟨hpkt 0 (by simp), hpkt 1 (by simp), hpkt 2 (by simp), hpkt 3 (by simp)⟩
  have hopcode : be16 u.pkt 0 = tftpDATA := by
    rw [be16, h0, h1]
    rfl
  have hblock : be16 u.pkt 2 = 1 := by
    rw [be16, h2, h3]
    rfl
  have hacc : Accepted s.tftp u.dport u.sport u.len :=
    ⟨hport, Or.inl hstate, by rw [hlen]; decide⟩
  have hmsg : tftpMsg s.tftp u.pkt u.dport u.sport u.len = .data u.sport 1 (shift u.pkt 4) 1 := by
    have hno : ¬tftpDATA = tftpOACK := by decide
    rw [hacc.tftpMsg, hopcode, hblock, hlen, if_neg hno, if_pos rfl]
    rfl
  have hr := receiver_tftpHandler s u.pkt u.dport u.sip u.sport u.len
  obtain ⟨hmemory, hoffset⟩ := Receiver.data_first (r := receiver s) hstate u.sport (shift u.pkt 4) 1
  rw [hmsg] at hr
  rw [show (receiver s).data u.sport 1 (shift u.pkt 4) 1 =
    (receiver s).handle (.data u.sport 1 (shift u.pkt 4) 1) from rfl, ← hr] at hmemory hoffset
  exact ⟨hmemory, hoffset⟩

theorem stores_addr (hstate : s.tftp.tftpState = .sendRrq)
    (hudp : s.loop.udpPacketHandler = .tftpHandler) (hport : s.tftp.tftpOurPort < 65536)
    (h : ∀ inpkt len, StoresFrom addr s (.frame inpkt len) (netReceive s inpkt len)) :
    u32 addr = u32 s.cfg.loadAddr := by
  generalize hc : s.memory (u32 s.cfg.loadAddr) + 1 = c
  generalize hbase : netEthHdrSize s.cfg + ipUdpHdrSize = base
  have hxet : StartsWith (shift (store (fun _ => 0) base [0, 3, 0, 1, c]) base) [0, 3, 0, 1, c] := by
    rw [shift_store_self]
    exact startsWith_store _ _
  have hshort : netEthHdrSize s.cfg + ipUdpHdrSize + [0, 3, 0, 1, c].length ≤ 64 := by
    rcases netEthHdrSize_cases s.cfg with heq | heq <;> simp [heq, ipUdpHdrSize]
  generalize hframe : udpFrame s.cfg 0 (store (fun _ => 0) base [0, 3, 0, 1, c]) netEtherNullAddr
    s.cfg.netOurIP s.tftp.tftpOurPort wellKnownPort [0, 3, 0, 1, c].length = frame
  have hagree : Agree (netEthHdrSize s.cfg + ipUdpHdrSize + [0, 3, 0, 1, c].length) frame
      (udpFrame s.cfg 0 (store (fun _ => 0) base [0, 3, 0, 1, c]) netEtherNullAddr s.cfg.netOurIP
        s.tftp.tftpOurPort wellKnownPort [0, 3, 0, 1, c].length) :=
    fun i _ => (congrFun hframe i).symm
  have hdecode := netDecode_udpFrame hport (show wellKnownPort < 65536 by decide)
    hshort (show 64 ≤ pktSizeAlign by decide) rfl (fun _ => Or.inl rfl) hagree
  rw [Nat.cast_ofNat] at hdecode
  have hbuf := (udpFrame_payload (hbase ▸ hxet)).congr (Agree.shift hagree)
  have hreceive := (handles_of_decode hdecode).receive
  generalize shift frame (netEthHdrSize s.cfg + ipUdpHdrSize) = buf at hdecode hbuf hreceive
  rw [hudp] at hreceive
  obtain ⟨hmemory, hoffset⟩ := tftpHandler_first
    (u := ⟨buf, s.tftp.tftpOurPort, s.cfg.netOurIP, wellKnownPort, [0, 3, 0, 1, c].length⟩) hstate
    rfl rfl hbuf
  rw [← hreceive] at hmemory hoffset
  have hnew : (netReceive s frame 64).memory (u32 s.cfg.loadAddr) = c := by
    rw [startsWith_iff] at hbuf
    have hinside := copy_inside s.memory (u32 s.cfg.loadAddr) (shift buf 4) Nat.zero_lt_one
    rw [Nat.add_zero] at hinside
    rw [hmemory, hinside]
    exact hbuf 4 (by simp)
  have hne : (netReceive s frame 64).memory (u32 s.cfg.loadAddr) ≠ s.memory (u32 s.cfg.loadAddr) := by
    rw [hnew, ← hc]
    simp
  rcases h frame 64 with hsame | ⟨ip', n', u, hdecode', hstored⟩
  · exact absurd (congrFun hsame _) hne
  · rw [hdecode] at hdecode'
    cases hdecode'
    rw [hoffset, Nat.add_zero] at hstored
    by_contra hdiff
    refine hne ?_
    rw [hstored]
    rcases Nat.lt_or_gt_of_ne hdiff with hlt | hgt
    · exact copy_of_ge hlt
    · exact copy_of_lt hgt

theorem StoresFrom.congr {addr' : Nat} (h : StoresFrom addr s x t) (ha : u32 addr' = u32 addr) :
    StoresFrom addr' s x t := by
  have hoffset (n : Nat) : u32 (addr' + n) = u32 (addr + n) := by
    simp only [u32] at ha ⊢
    omega
  cases x with
  | poll key => exact h
  | frame inpkt len =>
    rcases h with hsame | ⟨ip, n, u, hdecode, hstored⟩
    · exact Or.inl hsame
    · refine Or.inr ⟨ip, n, u, hdecode, ?_⟩
      rw [hoffset]
      exact hstored

end NonOsLite
