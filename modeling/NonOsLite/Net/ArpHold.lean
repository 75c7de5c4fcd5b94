import NonOsLite.Net.ArpWait
import NonOsLite.Net.Outcome

namespace NonOsLite
open ByteBuf InputMachine

-- What touches a held packet; elsewhere stands for all the other code, which leaves the state t.
inductive ArpOp where
  | sendUdp (pkt : Buf) (ether : EtherPtr) (dest : IPaddr) (dport sport payloadLen : Nat)
  | pingSend
  | receive (et : Buf) (arp : Nat) (len : Int)
  | timeout
  | abort
  | elsewhere (t : Net)

def arpStep (s : Net) : ArpOp → Net
  | .sendUdp pkt ether dest dport sport payloadLen =>
      netSendUdpPacket { s with tx.netTxPacket := pkt } ether dest dport sport payloadLen
  | .pingSend => pingSend s
  | .receive et arp len => arpReceive s et arp len
  | .timeout => arpTimeoutCheck s
  | .abort => netClearHandlers { s with tx.netArpWaitPacketIP := 0 }
  | .elsewhere t => t

structure Held where
  frame : Buf
  size : Int
  buffer : Option EtherPtr

def Answers (s : Net) (et : Buf) (arp : Nat) (len : Int) : Prop :=
  arpForUs s et arp len = true ∧ be16 et (arp + 6) = 2 ∧
    netReadIP et (arp + 14) = s.tx.netArpWaitReplyIP

instance (s : Net) (et : Buf) (arp : Nat) (len : Int) : Decidable (Answers s et arp len) :=
  inferInstanceAs (Decidable (arpForUs s et arp len = true ∧ be16 et (arp + 6) = 2 ∧
    netReadIP et (arp + 14) = s.tx.netArpWaitReplyIP))

def heldAfter (s : Net) (held : Option Held) : ArpOp → Option Held
  | .sendUdp pkt ether dest dport sport payloadLen =>
      some {
        frame := (arpStep s (.sendUdp pkt ether dest dport sport payloadLen)).tx.netTxPacket
        size := (netEthHdrSize s.cfg + ipUdpHdrSize + payloadLen : Nat)
        buffer := some (etherOf ether dest) }
  | .pingSend =>
      some {
        frame := (pingSend s).tx.netTxPacket
        size := (netEthHdrSize s.cfg + ipIcmpHdrSize : Nat)
        buffer := none }
  | .receive et arp len => if Answers s et arp len then none else held
  | .abort => none
  | .timeout | .elsewhere _ => held

def holdStep (w : Net × Option Held) (op : ArpOp) : Net × Option Held :=
  (arpStep w.1 op, heldAfter w.1 w.2 op)

structure Releases (s t : Net) (p : Held) (sha : Ether) : Prop where
  transmitted : transmitted t =
    bytes (putEther p.frame 0 sha) (if p.size < 64 then 64 else p.size).toNat :: transmitted s
  netServerEther : t.tx.netServerEther =
    if p.buffer = some .netServerEther then sha else s.tx.netServerEther
  netBcastAddr : t.tx.netBcastAddr =
    if p.buffer = some .netBcastAddr then sha else s.tx.netBcastAddr

structure Withholds (s t : Net) (arp : List (List UInt8)) : Prop where
  transmitted : transmitted t = transmitted s ∨ transmitted t = arp
  netServerEther : t.tx.netServerEther = s.tx.netServerEther
  netBcastAddr : t.tx.netBcastAddr = s.tx.netBcastAddr

def ReleaseSound : Net × Option Held → ArpOp → Prop
  | (s, some p), .receive et arp len =>
      if Answers s et arp len then
        Releases s (arpReceive s et arp len) p (readEther et (arp + 8))
      else Withholds s (arpReceive s et arp len) (transmitted (arpReply s et arp))
  | (s, none), .receive et arp len =>
      Withholds s (arpReceive s et arp len) (transmitted (arpReply s et arp))
  | _, .elsewhere _ => True
  | (s, _), op =>
      let t := arpStep s op
      Withholds s t (bytes t.tx.netArpTxPacket 64 :: transmitted s)

structure SameHold (s t : Net) : Prop where
  netArpWaitPacketIP : t.tx.netArpWaitPacketIP = s.tx.netArpWaitPacketIP
  netArpWaitReplyIP : t.tx.netArpWaitReplyIP = s.tx.netArpWaitReplyIP
  netArpWaitPacketMAC : t.tx.netArpWaitPacketMAC = s.tx.netArpWaitPacketMAC
  netArpWaitTxPacketSize : t.tx.netArpWaitTxPacketSize = s.tx.netArpWaitTxPacketSize

-- UDP packets are sent to an unresolved address, ping_send runs after net_check_prereq, and the
-- other code builds no packet while one is held.
def HoldOp : Net × Option Held → ArpOp → Prop
  | (s, _), .sendUdp _ ether dest _ _ _ => Unresolved s ether dest
  | (s, _), .pingSend => s.ping.netPingIP ≠ 0
  | (s, held), .elsewhere t =>
      SameHold s t ∧ (held.isSome → t.tx.netTxPacket = s.tx.netTxPacket)
  | _, _ => True

-- ping_send does not set NetArpWaitPacketMAC, so it has to be NULL already.
def PointerReset : Net × Option Held → ArpOp → Prop
  | (s, _), .pingSend => s.tx.netArpWaitPacketMAC = none
  | _, _ => True

def HoldInv : Net × Option Held → Prop
  | (s, none) => s.tx.netArpWaitPacketIP = 0
  | (s, some p) =>
      s.tx.netArpWaitPacketIP ≠ 0 ∧ s.tx.netTxPacket = p.frame ∧
        s.tx.netArpWaitTxPacketSize = p.size ∧ s.tx.netArpWaitPacketMAC = p.buffer

variable {s t : Net} {held : Option Held} {p : Held} {et : Buf} {arp : Nat} {len : Int}

theorem arpReceive_answers (h : Answers s et arp len) (hwait : s.tx.netArpWaitPacketIP ≠ 0) :
    arpReceive s et arp len = arpResolved s (readEther et (arp + 8)) := by
  obtain ⟨hus, hop, hsender⟩ := h
  have hreply : ¬be16 et (arp + 6) = 1 := by omega
  unfold arpReceive
  rw [if_neg (by simp [hus]), if_neg hreply, if_pos hop, if_neg hwait, if_pos hsender]

theorem arpReceive_idle (hwait : s.tx.netArpWaitPacketIP = 0) :
    arpReceive s et arp len = s ∨ arpReceive s et arp len = arpReply s et arp := by
  unfold arpReceive
  split
  · exact Or.inl rfl
  · split
    · exact Or.inr rfl
    · rw [ite_self]
      exact Or.inl rfl

theorem arpReceive_not_answers (h : ¬Answers s et arp len) :
    arpReceive s et arp len = s ∨ arpReceive s et arp len = arpReply s et arp := by
  unfold arpReceive
  split
  · exact Or.inl rfl
  · rename_i hus
    split
    · exact Or.inr rfl
    · split
      · rename_i hop
        split
        · exact Or.inl rfl
        · rw [if_neg (fun hsender => h ⟨by simpa using hus, hop, hsender⟩)]
          exact Or.inl rfl
      · exact Or.inl rfl

theorem arpReceive_withholds (h : arpReceive s et arp len = s ∨
      arpReceive s et arp len = arpReply s et arp) :
    Withholds s (arpReceive s et arp len) (transmitted (arpReply s et arp)) := by
  rcases h with h | h
  · rw [h]
    exact ⟨Or.inl rfl, rfl, rfl⟩
  · rw [h]
    exact ⟨Or.inr rfl, rfl, rfl⟩

theorem arpResolved_releases (h : HoldInv (s, some p)) (sha : Ether) :
    Releases s (arpResolved s sha) p sha := by
  obtain ⟨frame, size, buffer⟩ := p
  obtain ⟨-, rfl, rfl, hbuffer⟩ := h
  cases buffer with
  | none =>
    simp only [arpResolved, hbuffer]
    exact ⟨rfl, rfl, rfl⟩
  | some q =>
    cases q with
    | netServerEther =>
      simp only [arpResolved, hbuffer, setEtherAt]
      exact ⟨rfl, rfl, rfl⟩
    | netBcastAddr =>
      simp only [arpResolved, hbuffer, setEtherAt]
      exact ⟨rfl, rfl, rfl⟩

theorem arpTimeoutCheck_withholds (s : Net) :
    Withholds s (arpTimeoutCheck s)
      (bytes (arpTimeoutCheck s).tx.netArpTxPacket 64 :: transmitted s) := by
  rcases arpTimeoutCheck_cases s with ⟨-, h⟩ | ⟨-, -, h⟩ | ⟨-, -, -, h⟩ | ⟨-, -, -, h⟩
  · rw [h]
    exact ⟨Or.inl rfl, rfl, rfl⟩
  · rw [h]
    exact ⟨Or.inl rfl, rfl, rfl⟩
  · rw [h]
    exact ⟨Or.inl rfl, rfl, rfl⟩
  · have hserver := congrArg Transmit.netServerEther h.tx
    have hbcast := congrArg Transmit.netBcastAddr h.tx
    exact ⟨Or.inr h.transmitted, hserver, hbcast⟩

theorem HoldsFor.withholds {ip : IPaddr} {mac : Option EtherPtr} {size : Int}
    (h : HoldsFor s t ip mac size) :
    Withholds s t (bytes t.tx.netArpTxPacket 64 :: NonOsLite.transmitted s) := by
  have hserver := congrArg Transmit.netServerEther h.tx
  have hbcast := congrArg Transmit.netBcastAddr h.tx
  exact ⟨Or.inr h.transmitted, hserver, hbcast⟩

theorem HoldsFor.inv {ip : IPaddr} {mac : Option EtherPtr} {size : Int}
    (h : HoldsFor s t ip mac size) (hip : ip ≠ 0) :
    HoldInv (t, some ⟨t.tx.netTxPacket, size, mac⟩) := by
  have hwait : t.tx.netArpWaitPacketIP = ip := congrArg Transmit.netArpWaitPacketIP h.tx
  have hsize := congrArg Transmit.netArpWaitTxPacketSize h.tx
  have hmac := congrArg Transmit.netArpWaitPacketMAC h.tx
  exact ⟨hwait ▸ hip, rfl, hsize, hmac⟩

theorem sendUdp_holds (s : Net) (pkt : Buf) {ether : EtherPtr} {dest : IPaddr}
    (h : Unresolved s ether dest) (dport sport payloadLen : Nat) :
    HoldsFor { s with tx.netTxPacket := pkt }
      (arpStep s (.sendUdp pkt ether dest dport sport payloadLen))
      (if dest = 0 then netBroadcastIP else dest) (some (etherOf ether dest))
      (netEthHdrSize s.cfg + ipUdpHdrSize + payloadLen : Nat) := by
  have hu : Unresolved { s with tx.netTxPacket := pkt } ether dest :=
    (unresolved_congr rfl rfl ether dest).mpr h
  exact netSendUdpPacket_holds hu dport sport payloadLen

theorem HoldInv.congr (h : HoldInv (s, held))
    (hwait : t.tx.netArpWaitPacketIP = s.tx.netArpWaitPacketIP)
    (hpkt : held.isSome → t.tx.netTxPacket = s.tx.netTxPacket)
    (hsize : t.tx.netArpWaitTxPacketSize = s.tx.netArpWaitTxPacketSize)
    (hmac : t.tx.netArpWaitPacketMAC = s.tx.netArpWaitPacketMAC) : HoldInv (t, held) := by
  cases held with
  | none => exact hwait.trans h
  | some p =>
    obtain ⟨hw, hf, hs, hm⟩ := h
    exact ⟨hwait ▸ hw, (hpkt rfl).trans hf, hsize.trans hs, hmac.trans hm⟩

theorem HoldInv.receive (h : HoldInv (s, held)) :
    HoldInv (holdStep (s, held) (.receive et arp len)) := by
  have hkeep (hsame : arpReceive s et arp len = s ∨ arpReceive s et arp len = arpReply s et arp) :
      HoldInv (arpReceive s et arp len, held) := by
    rcases hsame with heq | heq
    · rwa [heq]
    · rw [heq]
      exact h.congr rfl (fun _ => rfl) rfl rfl
  simp only [holdStep, arpStep, heldAfter]
  by_cases hans : Answers s et arp len
  · rw [if_pos hans]
    cases held with
    | none => exact hkeep (arpReceive_idle h)
    | some p =>
      rw [arpReceive_answers hans h.1]
      rfl
  · rw [if_neg hans]
    exact hkeep (arpReceive_not_answers hans)

theorem HoldInv.timeout (h : HoldInv (s, held)) : HoldInv (arpTimeoutCheck s, held) := by
  rcases arpTimeoutCheck_cases s with ⟨-, heq⟩ | ⟨-, -, heq⟩ | ⟨-, -, -, heq⟩ | ⟨-, -, -, hask⟩
  · rwa [heq]
  · rw [heq]
    exact h.congr rfl (fun _ => rfl) rfl rfl
  · rw [heq]
    exact h.congr rfl (fun _ => rfl) rfl rfl
  · have hpkt := congrArg Transmit.netTxPacket hask.tx
    have hsize := congrArg Transmit.netArpWaitTxPacketSize hask.tx
    have hmac := congrArg Transmit.netArpWaitPacketMAC hask.tx
    exact h.congr (arpTimeoutCheck_waits s) (fun _ => hpkt) hsize hmac

theorem holdInv_preserved :
    Preserves holdStep (fun w op => HoldOp w op ∧ PointerReset w op) HoldInv := by
  rintro ⟨s, held⟩ op ⟨hop, hreset⟩ h
  cases op with
  | sendUdp pkt ether dest dport sport payloadLen =>
    refine (sendUdp_holds s pkt hop dport sport payloadLen).inv ?_
    split
    · decide
    · assumption
  | pingSend =>
    have hsend := pingSend_holds s
    rw [show s.tx.netArpWaitPacketMAC = none from hreset] at hsend
    exact hsend.inv hop
  | receive et arp len => exact h.receive
  | timeout => exact h.timeout
  | abort => rfl
  | elsewhere t =>
    obtain ⟨hsame, hpkt⟩ := hop
    exact h.congr hsame.netArpWaitPacketIP hpkt hsame.netArpWaitTxPacketSize
      hsame.netArpWaitPacketMAC

theorem HoldInv.sound {op : ArpOp} (h : HoldInv (s, held)) (hop : HoldOp (s, held) op) :
    ReleaseSound (s, held) op := by
  cases op with
  | sendUdp pkt ether dest dport sport payloadLen =>
    obtain ⟨htx, hserver, hbcast⟩ := (sendUdp_holds s pkt hop dport sport payloadLen).withholds
    cases held with
    | none => exact ⟨htx, hserver, hbcast⟩
    | some p => exact ⟨htx, hserver, hbcast⟩
  | pingSend =>
    cases held with
    | none => exact (pingSend_holds s).withholds
    | some p => exact (pingSend_holds s).withholds
  | receive et arp len =>
    cases held with
    | none => exact arpReceive_withholds (arpReceive_idle h)
    | some p =>
      simp only [ReleaseSound]
      by_cases hans : Answers s et arp len
      · rw [if_pos hans, arpReceive_answers hans h.1]
        exact arpResolved_releases h _
      · rw [if_neg hans]
        exact arpReceive_withholds (arpReceive_not_answers hans)
  | timeout =>
    cases held with
    | none => exact arpTimeoutCheck_withholds s
    | some p => exact arpTimeoutCheck_withholds s
  | abort =>
    cases held with
    | none => exact ⟨Or.inl rfl, rfl, rfl⟩
    | some p => exact ⟨Or.inl rfl, rfl, rfl⟩
  | elsewhere t =>
    cases held with
    | none => trivial
    | some p => trivial

theorem ReleaseSound.ping_keeps {frame : Buf} {size : Int}
    (h : ReleaseSound (s, some ⟨frame, size, none⟩) (.receive et arp len))
    (hans : Answers s et arp len) :
    (arpReceive s et arp len).tx.netServerEther = s.tx.netServerEther := by
  simp only [ReleaseSound, if_pos hans] at h
  exact h.netServerEther

theorem hold_released {ops : List ArpOp} (hs : s.tx.netArpWaitPacketIP = 0)
    (hops : Meets holdStep HoldOp (s, none) ops)
    (hreset : Meets holdStep PointerReset (s, none) ops) :
    Meets holdStep ReleaseSound (s, none) ops :=
  holdInv_preserved.meets (fun _ _ hok h => HoldInv.sound h hok.1) hs (hops.and hreset)

def samplePing : Net := { sampleNet with ping.netPingIP := samplePeer }

theorem hold_released_ping : Meets holdStep ReleaseSound (samplePing, none)
    [.pingSend, .timeout, .receive (sampleArpBuf (Vector.replicate 6 9) samplePeer) 0 28] :=
  hold_released (by decide) ⟨(show samplePeer ≠ 0 by decide), trivial, trivial, trivial⟩
    ⟨rfl, trivial, trivial, trivial⟩

def sampleUdpSend : ArpOp :=
  .sendUdp (fun _ => 0) .netServerEther (stringToIp (ascii "10.0.0.128")) 69 1024 20

def abortedBoard : Net := arpStep (arpStep samplePing sampleUdpSend) .abort

theorem hold_released_stale : ¬∀ (s : Net) (ops : List ArpOp), s.tx.netArpWaitPacketIP = 0 →
    Meets holdStep HoldOp (s, none) ops → Meets holdStep ReleaseSound (s, none) ops := by
  intro h
  have hunresolved : Unresolved samplePing .netServerEther (stringToIp (ascii "10.0.0.128")) := by
    decide
  have hping : abortedBoard.ping.netPingIP ≠ 0 := by decide +kernel
  let et : Buf := sampleArpBuf (Vector.replicate 6 9) samplePeer
  have hsound := h samplePing [sampleUdpSend, .abort, .pingSend, .receive et 0 28]
    (by decide) ⟨hunresolved, trivial, hping, trivial, trivial⟩
  have hheld : ∃ frame size,
      holdStep (holdStep (holdStep (samplePing, none) sampleUdpSend) .abort) .pingSend =
        (pingSend abortedBoard, some ⟨frame, size, none⟩) := ⟨_, _, rfl⟩
  obtain ⟨frame, size, hheld⟩ := hheld
  have hanswers : Answers (pingSend abortedBoard) et 0 28 := by decide +kernel
  have hstored : (arpReceive (pingSend abortedBoard) et 0 28).tx.netServerEther ≠
      (pingSend abortedBoard).tx.netServerEther := by decide +kernel
  rw [meets_cons, meets_cons, meets_cons, meets_cons, hheld] at hsound
  clear_value et
  generalize pingSend abortedBoard = u at hsound hanswers hstored
  exact hstored (hsound.2.2.2.1.ping_keeps hanswers)

end NonOsLite
