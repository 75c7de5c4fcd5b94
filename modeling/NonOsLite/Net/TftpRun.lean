import NonOsLite.Net.Loop
import NonOsLite.Net.Receiver
import NonOsLite.Lib.Machine
import NonOsLite.Lib.History

namespace NonOsLite
open ByteBuf InputMachine

-- What reaches tftp.c during NetLoop(TFTPGET): datagrams and expiries of its timer.
inductive TftpInput where
  | datagram (pkt : Buf) (dest : Nat) (sip : IPaddr) (src len : Nat)
  | timeout

def tftpStep (s : Net) : TftpInput → Net
  | .datagram pkt dest sip src len => tftpHandler s pkt dest sip src len
  | .timeout => tftpTimeout s

-- NetLoop prepares the loop variables before it calls TftpStart.
def tftpGetStart (s : Net) : Net :=
  tftpStart { s with
    loop.netState := .netloopContinue
    loop.netBootFileXferSize := 0
    log := [] }

def sampleNet : Net := netInit sampleBoard

def requestingBoard : Net :=
  tftpStart { netInitLoop (netSetState (netInit sampleBoard) .netloopContinue) with
    loop.netBootFileXferSize := 0 }

def sampleFrame (source : IPaddr) (dport : Nat) (payload : List UInt8) : Buf :=
  let sender : Config := { sampleNet.cfg with netOurIP := source }
  mapFrom (putBe16 (fun _ => 0) 12 protIP) etherHdrSize (fun _ =>
    netSetUdpHeader sender 0 (store (fun _ => 0) ipUdpHdrSize payload) sampleNet.cfg.netOurIP dport
      32768 payload.length)

def sampleCall (source : IPaddr) (dport : Nat) (payload : List UInt8) : UdpCall where
  pkt := shift (shift (sampleFrame source dport payload) etherHdrSize) ipUdpHdrSize
  dport := dport
  sip := source
  sport := 32768
  len := payload.length

def sampleData (n len : Nat) : TftpInput :=
  .datagram (store (fun _ => 0) 0 [0, 3, UInt8.ofNat (n / 256), UInt8.ofNat n]) 1024
    (stringToIp (ascii "10.0.0.128")) 32768 len

def tftpGet (s : Net) (xs : List TftpInput) : Net := run tftpStep (tftpGetStart s) xs

namespace Receiver

inductive Stimulus where
  | msg (m : TftpMsg)
  | timeout

def step (r : Receiver) : Stimulus → Receiver
  | .msg m => r.handle m
  | .timeout => r.timeout

structure Acks (r r' : Receiver) (new : List Mark) : Prop where
  marks : r'.marks = new ++ r.marks
  block : ∀ a, .ack a ∈ new → a = u16 r'.tftp.tftpBlock
  asked : ∀ a, .ack a ∈ new → r'.tftp.tftpState ≠ .sendRrq

variable {r r' : Receiver} {new : List Mark}

theorem Acks.refl (h : r'.marks = r.marks) : Acks r r' [] :=
  ⟨h, fun _ ha => by simp at ha, fun _ ha => by simp at ha⟩

theorem Acks.quiet (h : r'.marks = new ++ r.marks) (hq : ∀ a, .ack a ∉ new) : Acks r r' new :=
  ⟨h, fun a ha => absurd ha (hq a), fun a ha => absurd ha (hq a)⟩

theorem sendMark_eq_ack {t : Tftp} {a : Nat} (h : .ack a = sendMark t) :
    a = u16 t.tftpBlock ∧ t.tftpState ≠ .sendRrq := by
  unfold sendMark at h
  split at h
  case h_4 => cases h
  all_goals
    rename_i hs
    exact ⟨Mark.ack.inj h, by rw [hs]; decide⟩

theorem Acks.send (h : Acks r r' new) (hq : ∀ a, .ack a ∉ new) :
    Acks r r'.send (sendMark r'.tftp :: new) := by
  have hack (a : Nat) (ha : .ack a ∈ sendMark r'.tftp :: new) :
      a = u16 r'.tftp.tftpBlock ∧ r'.tftp.tftpState ≠ .sendRrq :=
    sendMark_eq_ack ((List.mem_cons.mp ha).resolve_right (hq a))
  exact ⟨congrArg _ h.marks, fun a ha => (hack a ha).1, fun a ha => (hack a ha).2⟩

theorem Acks.complete (h : Acks r r' new) : Acks r r'.complete (.complete :: new) := by
  have hack (a : Nat) (ha : .ack a ∈ Mark.complete :: new) : .ack a ∈ new :=
    (List.mem_cons.mp ha).resolve_left (by simp)
  exact ⟨congrArg _ h.marks, fun a ha => h.block a (hack a ha), fun a ha => h.asked a (hack a ha)⟩

theorem Acks.newBlock (h : Acks r r' new) (hq : ∀ a, .ack a ∉ new) (payload : Buf) (len : Nat) :
    ∃ new', Acks r (r'.newBlock payload len) new' := by
  unfold Receiver.newBlock
  extract_lets _ r₁ r₂
  obtain ⟨store, hm, hs⟩ : ∃ store,
      (r₁.storeBlock ((r₁.tftp.tftpBlock : Int) - 1) payload len).marks = store :: r'.marks ∧
        ∀ a, .ack a ≠ store := ⟨_, rfl, by simp⟩
  have hquiet (a : Nat) : .ack a ∉ store :: new := by
    rw [List.mem_cons, not_or]
    exact ⟨hs a, hq a⟩
  have h₁ : Acks r (r₁.storeBlock _ payload len) (store :: new) :=
    Acks.quiet (by rw [hm, h.marks]; rfl) hquiet
  have h₂ : Acks r r₂ _ := h₁.send hquiet
  split
  · exact ⟨_, h₂.complete⟩
  · exact ⟨_, h₂⟩

theorem data_acks (r : Receiver) (src n : Nat) (payload : Buf) (len : Nat) :
    ∃ new, Acks r (r.data src n payload len) new := by
  have hcount : Acks r (r.countBlock n) [] := Acks.refl (countBlock_marks n)
  have hfirst : Acks r ((r.countBlock n).firstBlock src) [.newTransfer] :=
    Acks.quiet (congrArg _ (countBlock_marks n)) (by simp)
  rcases r.data_cases src n payload len with ⟨-, -, heq⟩ | ⟨-, -, heq⟩ | ⟨-, -, heq⟩ | ⟨-, -, heq⟩
  · exact ⟨_, heq ▸ hfirst⟩
  · exact heq ▸ hfirst.newBlock (by simp) payload len
  · exact ⟨_, heq ▸ hcount⟩
  · exact heq ▸ hcount.newBlock (by simp) payload len

theorem timeout_acks (r : Receiver) : ∃ new, Acks r r.timeout new := by
  unfold timeout
  extract_lets _ r₁ r₂
  have h₂ : Acks r r₂ [] := Acks.refl rfl
  split
  · exact ⟨[], Acks.refl rfl⟩
  · split
    · exact ⟨_, h₂.send (by simp)⟩
    · exact ⟨_, h₂⟩

theorem step_acks (r : Receiver) (x : Stimulus) : ∃ new, Acks r (r.step x) new := by
  cases x with
  | timeout => exact timeout_acks r
  | msg m =>
    cases m with
    | ignored => exact ⟨_, Acks.refl rfl⟩
    | oack src blkSize =>
      have hkeep : Acks r { r with
          tftp.tftpState := .oack
          tftp.tftpRemotePort := src
          tftp.tftpBlkSize := blkSize } [] := Acks.refl rfl
      exact ⟨_, hkeep.send (by simp)⟩
    | data src n payload len => exact data_acks r src n payload len
    | error code =>
      refine ⟨[], Acks.refl ?_⟩
      simp only [step, handle, error]
      split <;> rfl

theorem newBlock_state (payload : Buf) (len : Nat) :
    (r.newBlock payload len).tftp.tftpState = r.tftp.tftpState := by
  simp only [newBlock]
  split <;> rfl

theorem step_asked (x : Stimulus) (h : (r.step x).tftp.tftpState = .sendRrq) :
    r.tftp.tftpState = .sendRrq := by
  cases x with
  | timeout =>
    simp only [step, timeout] at h
    repeat' split at h
    all_goals exact h
  | msg m =>
    cases m with
    | ignored => exact h
    | oack src blkSize => cases h
    | error code =>
      simp only [step, handle, error] at h
      split at h <;> exact h
    | data src n payload len =>
      simp only [step, handle] at h
      rcases r.data_cases src n payload len with ⟨-, -, heq⟩ | ⟨-, -, heq⟩ | ⟨-, -, heq⟩ |
        ⟨-, -, heq⟩
      · rw [heq] at h
        cases h
      · rw [heq, newBlock_state] at h
        cases h
      · rwa [heq, countBlock_state] at h
      · rwa [heq, newBlock_state, countBlock_state] at h

end Receiver

def stimulus (t : Tftp) : TftpInput → Receiver.Stimulus
  | .datagram pkt dest _ src len => .msg (tftpMsg t pkt dest src len)
  | .timeout => .timeout

theorem receiver_tftpStep (s : Net) (x : TftpInput) :
    receiver (tftpStep s x) = (receiver s).step (stimulus s.tftp x) := by
  cases x with
  | datagram pkt dest sip src len => exact receiver_tftpHandler s pkt dest sip src len
  | timeout => exact receiver_tftpTimeout s

theorem receiver_invariant {ok : Net → TftpInput → Prop} {inv : Receiver → Prop}
    (hstart : ∀ s, inv (receiver (tftpGetStart s)))
    (hstep : ∀ s x, ok s x → inv (receiver s) → inv ((receiver s).step (stimulus s.tftp x)))
    {s : Net} {xs : List TftpInput} (h : Meets tftpStep ok (tftpGetStart s) xs) :
    inv (receiver (tftpGet s xs)) := by
  have hp : Preserves tftpStep ok (fun s => inv (receiver s)) := by
    intro s x hok hinv
    rw [receiver_tftpStep]
    exact hstep s x hok hinv
  exact hp.run (hstart s) h

theorem receiver_tftpGetStart (s : Net) : ∃ port, receiver (tftpGetStart s) =
    { loadAddr := s.cfg.loadAddr
      tftp := { s.tftp with
        tftpRemoteIP := (tftpFilenameOf s.cfg).1
        tftpFilename := (tftpFilenameOf s.cfg).2
        tftpState := .sendRrq
        tftpTimeoutCountMax := tftpRRQTimeoutCountMax
        tftpRemotePort := wellKnownPort
        tftpTimeoutCount := 0
        tftpOurPort := port
        tftpBlock := 0
        tftpBlkSize := tftpBlockSize
        timeStart := 0 }
      netState := .netloopContinue
      size := 0
      timeHandler := some .tftpTimeout
      memory := s.memory
      marks := [.request] } :=
  receiver_tftpStart _

end NonOsLite
