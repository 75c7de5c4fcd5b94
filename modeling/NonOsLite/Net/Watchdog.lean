import NonOsLite.Net.Session
import NonOsLite.Net.TftpRun

namespace NonOsLite
open ByteBuf InputMachine

structure Watched (protocol : Proto) (l : Loop) : Prop where
  armed : l.All (fun s => s.loop.netState = .netloopContinue → s.loop.timeHandler ≠ none)
    (fun _ _ => True)
  retries : protocol = .tftpget →
    l.All (fun s => s.tftp.tftpTimeoutCountMax < s.tftp.tftpTimeoutCount →
      s.loop.netState ≠ .netloopContinue) (fun _ _ => True)

def RetriesLeft : Loop → LoopInput → Prop
  | .running s, .poll key =>
      key ≠ 113 → s.loop.netState = .netloopContinue → s.loop.timeHandler = some .tftpTimeout →
        timerExpired (arpTimeoutCheck s) →
          s.tftp.tftpTimeoutCount < s.tftp.tftpTimeoutCountMax
  | _, _ => True

instance : (l : Loop) → (x : LoopInput) → Decidable (RetriesLeft l x)
  | .running s, .poll key => inferInstanceAs (Decidable
      (key ≠ 113 → s.loop.netState = .netloopContinue → s.loop.timeHandler = some .tftpTimeout →
        timerExpired (arpTimeoutCheck s) →
          s.tftp.tftpTimeoutCount < s.tftp.tftpTimeoutCountMax))
  | .running _, .frame _ _ => inferInstanceAs (Decidable True)
  | .done _ _, _ => inferInstanceAs (Decidable True)

namespace Receiver

structure Armed (r : Receiver) : Prop where
  waiting : r.netState = .netloopContinue → r.timeHandler = some .tftpTimeout
  tries : r.tftp.tftpTimeoutCount ≤ timeoutCount
  countMax : r.tftp.tftpTimeoutCountMax = timeoutCount
  handler : r.timeHandler ≠ some .pingTimeout
  state : r.netState ≠ .netloopRestart

variable {r : Receiver}

theorem Armed.countBlock (h : Armed r) (n : Nat) : Armed (r.countBlock n) where
  waiting := by simpa using h.waiting
  tries := by
    have := h.tries
    simp only [Receiver.countBlock]
    split
    · exact Nat.zero_le _
    · exact this
  countMax := by
    simp only [Receiver.countBlock]
    split <;> exact h.countMax
  handler := by simpa using h.handler
  state := by simpa using h.state

theorem Armed.firstBlock (h : Armed r) (src : Nat) : Armed (r.firstBlock src) := { h with }

theorem Armed.newBlock (h : Armed r) (payload : Buf) (len : Nat) :
    Armed (r.newBlock payload len) := by
  unfold Receiver.newBlock
  extract_lets _ r₁ r₂
  have h₂ : Armed r₂ :=
    { h with waiting := fun _ => rfl, countMax := rfl, handler := by simp [r₂, r₁, Receiver.send,
      Receiver.storeBlock] }
  split
  · exact { h₂ with waiting := (fun hc => by cases hc), state := (fun hc => by cases hc) }
  · exact h₂

theorem Armed.handle (h : Armed r) (m : TftpMsg) : Armed (r.handle m) := by
  cases m with
  | ignored => exact h
  | oack src blkSize => exact { h with }
  | data src n payload len =>
    have hcount := h.countBlock n
    simp only [Receiver.handle]
    rcases r.data_cases src n payload len with ⟨-, -, heq⟩ | ⟨-, -, heq⟩ | ⟨-, -, heq⟩ | ⟨-, -, heq⟩
    · exact heq ▸ hcount.firstBlock src
    · exact heq ▸ (hcount.firstBlock src).newBlock payload len
    · exact heq ▸ hcount
    · exact heq ▸ hcount.newBlock payload len
  | error code =>
    simp only [Receiver.handle, Receiver.error]
    split
    · exact { h with waiting := (fun hc => by cases hc), state := (fun hc => by cases hc) }
    · exact h

theorem Armed.timeout (h : Armed r)
    (hleft : r.tftp.tftpTimeoutCount < r.tftp.tftpTimeoutCountMax) :
    Armed (Receiver.timeout { r with timeHandler := none }) := by
  have htries : r.tftp.tftpTimeoutCount + 1 ≤ timeoutCount := h.countMax ▸ hleft
  unfold Receiver.timeout
  extract_lets r₁ _ r₂
  have h₂ : Armed r₂ :=
    { h with waiting := fun _ => rfl, tries := htries, handler := (fun hc => by cases hc) }
  rw [if_neg (Nat.not_lt_of_le hleft)]
  split
  · exact { h₂ with }
  · exact h₂

theorem Armed.start (s : Net) (h : s.loop.netState = .netloopContinue) :
    Armed (receiver (tftpStart s)) := by
  obtain ⟨port, hr⟩ := receiver_tftpStart s
  rw [hr]
  exact {
    waiting := fun _ => rfl
    tries := Nat.zero_le _
    countMax := rfl
    handler := (fun hc => by cases hc)
    state := by simp [Receiver.send, receiver, h] }

end Receiver

structure Pinging (s : Net) : Prop where
  udpHandler : s.loop.udpPacketHandler = .dummyHandler
  waiting : s.loop.netState = .netloopContinue → s.loop.timeHandler = some .pingTimeout
  handler : s.loop.timeHandler ≠ some .tftpTimeout
  state : s.loop.netState ≠ .netloopRestart

variable {s t : Net} {protocol : Proto} {key : UInt8} {inpkt : Buf} {len : Int}

theorem Pinging.sends (h : Pinging s) (hs : Sends s t) : Pinging t where
  udpHandler := by rw [hs.loop]; exact h.udpHandler
  waiting := by rw [hs.loop]; exact h.waiting
  handler := by rw [hs.loop]; exact h.handler
  state := by rw [hs.loop]; exact h.state

theorem Pinging.netReceive (h : Pinging s) (inpkt : Buf) (len : Int) :
    Pinging (netReceive s inpkt len) := by
  rcases netReceive_cases s inpkt len with hs | ⟨e, -, heq⟩ | ⟨u, -, heq⟩
  · exact h.sends hs
  · rw [heq]
    by_cases hsrc : e.src = s.ping.netPingIP
    · rw [echoReplied_hit hsrc]
      exact { h with waiting := (fun hc => by cases hc), state := (fun hc => by cases hc) }
    · rw [echoReplied_miss hsrc]
      exact { h with }
  · rw [heq, h.udpHandler]
    exact h

theorem Pinging.polled (h : Pinging s) : Pinging (polled s) := by
  rcases polled_cases s with hs | ⟨x, hx, -, heq⟩
  · exact h.sends hs
  · rw [heq]
    cases x with
    | tftpTimeout => exact absurd hx h.handler
    | pingTimeout =>
      have hs := h.sends (arpTimeoutCheck_sends s)
      exact
        { hs with
          waiting := (fun hc => by cases hc)
          handler := (fun hc => by cases hc)
          state := (fun hc => by cases hc) }

theorem Pinging.start (h : s.loop.udpPacketHandler = .dummyHandler)
    (hc : s.loop.netState = .netloopContinue) : Pinging (pingStart s) := by
  have hloop : (pingStart s).loop = (netSetTimeout s 10000 .pingTimeout).loop := pingSend_loop _
  refine ⟨?_, ?_, ?_, ?_⟩
  · rw [hloop]
    exact h
  · intro _
    rw [hloop]
    rfl
  · rw [hloop]
    simp [netSetTimeout]
  · rw [hloop, (netSetTimeout_sets _ _ _).netState, hc]
    decide

theorem netReceive_armed (h : (receiver s).Armed) : (receiver (netReceive s inpkt len)).Armed := by
  rcases netReceive_cases s inpkt len with hs | ⟨e, -, heq⟩ | ⟨u, -, heq⟩
  · rwa [hs.receiver_eq]
  · rw [heq]
    by_cases hsrc : e.src = s.ping.netPingIP
    · rw [echoReplied_hit hsrc]
      exact { h with waiting := (fun hc => by cases hc), state := (fun hc => by cases hc) }
    · rw [echoReplied_miss hsrc]
      exact { h with }
  · rw [heq]
    cases s.loop.udpPacketHandler with
    | dummyHandler => exact h
    | tftpHandler =>
      simp only [rxhand, receiver_tftpHandler]
      exact h.handle _

theorem polled_armed (h : (receiver s).Armed) (hkey : key ≠ 113)
    (hleft : RetriesLeft (.running s) (.poll key))
    (hc : (polled s).loop.netState = .netloopContinue) : (receiver (polled s)).Armed := by
  rcases polled_cases s with hs | ⟨x, hx, he, heq⟩
  · rwa [hs.receiver_eq]
  · cases x with
    | pingTimeout => exact absurd hx h.handler
    | tftpTimeout =>
      have hr := receiver_expired_timeout s
      rw [← heq] at hr
      have hstate : s.loop.netState = .netloopContinue := by
        rw [← hc]
        exact ((congrArg Receiver.netState hr).trans (Receiver.timeout_netState _)).symm
      rw [hr]
      exact h.timeout (hleft hkey hstate hx he)

theorem tftpget_watched (xs : List LoopInput)
    (h : Meets (netLoopStep .tftpget) RetriesLeft (netLoopEntry .tftpget s) xs) :
    Watched .tftpget (netLoop .tftpget s xs) := by
  have hall : (netLoop .tftpget s xs).All (fun t => (receiver t).Armed) (fun _ _ => True) := by
    refine netLoop_invariant ?_ ?_ ?_ h
    · rcases netLoopEntry_cases .tftpget s with heq | heq
      · rw [heq]
        trivial
      · rw [heq]
        exact Receiver.Armed.start _ rfl
    · intro t inpkt len _ ht
      exact netReceive_armed ht
    · intro t key hleft ht
      rcases netLoopPoll_cases .tftpget key (polled_not_restart ht.state) with
        ⟨-, heq⟩ | ⟨hkey, hc, heq⟩ | ⟨-, -, heq⟩ | ⟨-, -, heq⟩
      · rw [heq]
        trivial
      · rw [heq]
        exact polled_armed ht hkey hleft hc
      · rw [heq]
        trivial
      · rw [heq]
        trivial
  refine ⟨hall.mono ?_ (fun _ _ h => h), fun _ => hall.mono ?_ (fun _ _ h => h)⟩
  · intro t ht hc
    have harmed : t.loop.timeHandler = some .tftpTimeout := ht.waiting hc
    simp [harmed]
  · intro t ht hlt
    have hle : t.tftp.tftpTimeoutCount ≤ timeoutCount := ht.tries
    have hmax : t.tftp.tftpTimeoutCountMax = timeoutCount := ht.countMax
    omega

theorem ping_watched (hidle : s.loop.udpPacketHandler = .dummyHandler) (xs : List LoopInput) :
    Watched .ping (netLoop .ping s xs) := by
  have hall : (netLoop .ping s xs).All Pinging (fun _ _ => True) := by
    refine netLoop_invariant ?_ ?_ ?_ (meets_true (netLoopStep .ping) _ xs)
    · rcases netLoopEntry_cases .ping s with heq | heq
      · rw [heq]
        trivial
      · rw [heq]
        refine Pinging.start ?_ rfl
        simpa only [netInitLoop, netSetState] using netInit_idle hidle
    · intro t inpkt len _ ht
      exact ht.netReceive inpkt len
    · intro t key _ ht
      rcases netLoopPoll_cases .ping key ht.polled.state with
        ⟨-, heq⟩ | ⟨-, -, heq⟩ | ⟨-, -, heq⟩ | ⟨-, -, heq⟩
      · rw [heq]
        trivial
      · rw [heq]
        exact ht.polled
      · rw [heq]
        trivial
      · rw [heq]
        trivial
  refine ⟨hall.mono ?_ (fun _ _ h => h), (fun hc => by cases hc)⟩
  intro t ht hc
  simp [ht.waiting hc]

theorem netLoop_watched (hs : Session s) (hp : protocol = .tftpget ∨ protocol = .ping)
    (xs : List LoopInput)
    (h : Meets (netLoopStep protocol) RetriesLeft (netLoopEntry protocol s) xs) :
    Watched protocol (netLoop protocol s xs) := by
  rcases hp with rfl | rfl
  · exact tftpget_watched xs h
  · exact ping_watched hs.idle xs

def silentBoard : Net := netBoot (Vector.replicate 6 2) 1000 (fun k => 6000 * k) (fun _ => 0)

theorem netLoop_watched_retry :
    Watched .tftpget (netLoop .tftpget silentBoard (List.replicate 10 (.poll 0))) :=
  netLoop_watched (.boot _ _ _ _) (Or.inl rfl) _ (by decide +kernel)

theorem netLoop_unwatched : ¬∀ (s : Net) (protocol : Proto) (xs : List LoopInput), Session s →
    protocol = .tftpget ∨ protocol = .ping → Watched protocol (netLoop protocol s xs) := by
  intro h
  have hw := h silentBoard .tftpget (List.replicate 11 (.poll 0)) (.boot _ _ _ _) (Or.inl rfl)
  exact absurd hw.armed (by decide +kernel)

end NonOsLite
