import NonOsLite.Net.Receive

namespace NonOsLite
open ByteBuf

structure Handles (r : Net) (inpkt : Buf) (len : Int) (u : UdpCall) : Prop where
  decode : ∃ ip n, netDecode r.cfg inpkt len = .udp ip n u
  receive : netReceive r inpkt len = rxhand r.loop.udpPacketHandler r u

def UdpIgnored (c : Config) (inpkt : Buf) (len : Int) : Prop :=
  ∀ (s : Net) (h : RxHand), s.cfg = c →
    netReceive { s with loop.udpPacketHandler := h } inpkt len =
      { netReceive s inpkt len with loop.udpPacketHandler := h }

variable {s : Net} {c : Config} {inpkt et : Buf} {len n : Int} {ip : Nat} {u : UdpCall}

theorem handles_of_decode (h : netDecode s.cfg inpkt len = .udp ip n u) : Handles s inpkt len u :=
  ⟨⟨ip, n, h⟩, by simp only [netReceive, h]⟩

theorem arpReceive_ignores (s : Net) (h : RxHand) (et : Buf) (arp : Nat) (len : Int) :
    arpReceive { s with loop.udpPacketHandler := h } et arp len =
      { arpReceive s et arp len with loop.udpPacketHandler := h } := by
  have hresolved (sha : Ether) : arpResolved { s with loop.udpPacketHandler := h } sha =
      { arpResolved s sha with loop.udpPacketHandler := h } := by
    unfold arpResolved
    cases s.tx.netArpWaitPacketMAC with
    | none => rfl
    | some p => cases p <;> rfl
  have hforUs : arpForUs { s with loop.udpPacketHandler := h } et arp len = arpForUs s et arp len :=
    rfl
  unfold arpReceive
  rw [hresolved, hforUs]
  dsimp only
  repeat' split
  all_goals rfl

theorem receiveIcmp_ignores (s : Net) (h : RxHand) (et : Buf) (ip : Nat) (len : Int) :
    receiveIcmp { s with loop.udpPacketHandler := h } et ip len =
      { receiveIcmp s et ip len with loop.udpPacketHandler := h } := by
  unfold receiveIcmp pingReceive emitEvent
  dsimp only
  repeat' split
  all_goals rfl

theorem udpIgnored_of_decode (h : ∀ ip n u, netDecode c inpkt len ≠ .udp ip n u) :
    UdpIgnored c inpkt len := by
  rintro s x rfl
  simp only [netReceive]
  cases hd : netDecode s.cfg inpkt len with
  | drop => rfl
  | arp ip n => exact arpReceive_ignores s x inpkt ip n
  | icmp ip n => exact receiveIcmp_ignores s x inpkt ip n
  | udp ip n u => exact absurd hd (h ip n u)

end NonOsLite
