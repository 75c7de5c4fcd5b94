import NonOsLite.Net.TftpRun

namespace NonOsLite
open ByteBuf InputMachine History

-- The transfer an event belongs to starts at the last new_transfer before it.
def AcksStored (log : List Event) : Prop :=
  ∀ post pre n, log = post ++ .tftpSend (ackBytes n) :: pre → n ≠ 0 → n < 65536 →
    ∃ blkSize offset len, .storeBlock n blkSize offset len ∈ since (· == .newTransfer) pre

-- No block but 0 or 1 arrives while the transfer waits for its first block.
def FirstBlockRegular (s : Net) (x : TftpInput) : Prop :=
  ∀ src n payload len, stimulus s.tftp x = .msg (.data src n payload len) →
    Receiver.awaitsFirst s.tftp → n = 0 ∨ n = 1

def Mark.isNewTransfer : Mark → Bool
  | .newTransfer => true
  | _ => false

def StoredIn (n : Nat) (marks : List Mark) : Prop :=
  ∃ blkSize offset len, .store n blkSize offset len ∈ since Mark.isNewTransfer marks

def AckAfterStore (m : Mark) (pre : List Mark) : Prop := ∀ n, m = .ack n → n ≠ 0 → StoredIn n pre

structure AckInv (r : Receiver) : Prop where
  state : r.tftp.tftpState = .sendRrq ∨ r.tftp.tftpState = .oack ∨ r.tftp.tftpState = .data
  acks : EachAfter AckAfterStore r.marks
  block_lt : r.tftp.tftpBlock < 65536
  block : r.tftp.tftpBlock = 0 ∨ StoredIn r.tftp.tftpBlock r.marks
  last : r.tftp.tftpState = .data →
    r.tftp.tftpLastBlock = 0 ∨ StoredIn r.tftp.tftpLastBlock r.marks

variable {r : Receiver} {n : Nat} {m : Mark} {marks : List Mark}

theorem StoredIn.cons (hm : m.isNewTransfer = false) (h : StoredIn n marks) :
    StoredIn n (m :: marks) := by
  obtain ⟨blkSize, offset, len, hmem⟩ := h
  exact ⟨blkSize, offset, len, mem_since_cons hm hmem⟩

theorem storedIn_store (n blkSize offset len : Nat) (marks : List Mark) :
    StoredIn n (.store n blkSize offset len :: marks) := by
  refine ⟨blkSize, offset, len, ?_⟩
  rw [since_cons_of_false rfl]
  exact List.mem_cons_self

theorem sendMark_quiet (t : Tftp) : (sendMark t).isNewTransfer = false := by
  unfold sendMark
  split <;> rfl

theorem sendMark_ack {t : Tftp} (hlt : t.tftpBlock < 65536) (h : sendMark t = .ack n) :
    n = t.tftpBlock := by
  unfold sendMark at h
  split at h
  all_goals first | exact (Mark.ack.inj h).symm.trans (u16_of_lt hlt) | cases h

theorem AckInv.send (h : AckInv r) : AckInv r.send where
  state := h.state
  acks := by
    refine ⟨?_, h.acks⟩
    intro n hm hn
    obtain rfl := sendMark_ack h.block_lt hm
    exact h.block.resolve_left hn
  block_lt := h.block_lt
  block := h.block.imp_right (StoredIn.cons (sendMark_quiet _))
  last := fun hs => (h.last hs).imp_right (StoredIn.cons (sendMark_quiet _))

theorem AckInv.oack (h : AckInv r) (src blkSize : Nat) : AckInv (r.oack src blkSize) := by
  refine AckInv.send ⟨Or.inr (Or.inl rfl), h.acks, h.block_lt, h.block, ?_⟩
  intro hs
  cases hs

theorem AckInv.error (h : AckInv r) (code : Nat) : AckInv (r.error code) := by
  unfold Receiver.error
  split
  · exact ⟨h.state, h.acks, h.block_lt, h.block, h.last⟩
  · exact h

theorem AckInv.timeout (h : AckInv r) : AckInv r.timeout := by
  unfold Receiver.timeout
  extract_lets _ r₁ r₂
  split
  · exact ⟨h.state, h.acks, h.block_lt, h.block, h.last⟩
  · have h₂ : AckInv r₂ := ⟨h.state, h.acks, h.block_lt, h.block, h.last⟩
    split
    · exact h₂.send
    · exact h₂

theorem AckInv.newBlock (hs : r.tftp.tftpState = .data) (hacks : EachAfter AckAfterStore r.marks)
    (hlt : r.tftp.tftpBlock < 65536) (payload : Buf) (len : Nat) :
    AckInv (r.newBlock payload len) := by
  have hnum : toU32 ((r.tftp.tftpBlock : Int) - 1 + 1) = r.tftp.tftpBlock := by
    rw [Int.sub_add_cancel]
    exact toU32_ofNat (by omega)
  unfold Receiver.newBlock
  extract_lets _ r₁ r₂
  have h₁ : AckInv (r₁.storeBlock ((r₁.tftp.tftpBlock : Int) - 1) payload len) := by
    have hstored : StoredIn r.tftp.tftpBlock
        (r₁.storeBlock ((r₁.tftp.tftpBlock : Int) - 1) payload len).marks := by
      simp only [Receiver.storeBlock]
      rw [show toU32 ((r₁.tftp.tftpBlock : Int) - 1 + 1) = r.tftp.tftpBlock from hnum]
      exact storedIn_store _ _ _ _ _
    refine ⟨Or.inr (Or.inr hs), ⟨?_, hacks⟩, hlt, Or.inr hstored, fun _ => Or.inr hstored⟩
    intro n hm
    cases hm
  have h₂ : AckInv r₂ := h₁.send
  split
  · refine ⟨h₂.state, ⟨?_, h₂.acks⟩, h₂.block_lt, ?_, ?_⟩
    · intro n hm
      cases hm
    · exact h₂.block.imp_right (StoredIn.cons rfl)
    · exact fun hs => (h₂.last hs).imp_right (StoredIn.cons rfl)
  · exact h₂

theorem AckInv.data (h : AckInv r) {block : Nat} (src : Nat) (payload : Buf) (len : Nat)
    (hlt : block < 65536) (hfirst : Receiver.awaitsFirst r.tftp → block = 0 ∨ block = 1) :
    AckInv (r.data src block payload len) := by
  have hnew : EachAfter AckAfterStore ((r.countBlock block).firstBlock src).marks := by
    refine ⟨?_, ?_⟩
    · intro n hm
      cases hm
    · rw [Receiver.countBlock_marks]
      exact h.acks
  have hfb : ((r.countBlock block).firstBlock src).tftp.tftpBlock = block :=
    Receiver.countBlock_block block
  rcases r.data_cases src block payload len with ⟨hf, hne, heq⟩ | ⟨-, -, heq⟩ | ⟨hf, hdup, heq⟩ |
    ⟨hf, -, heq⟩
  · rw [heq]
    have h0 : block = 0 := (hfirst hf).resolve_right hne
    exact ⟨Or.inr (Or.inr rfl), hnew, by rwa [hfb], Or.inl (hfb.trans h0), fun _ => Or.inl rfl⟩
  · rw [heq]
    exact AckInv.newBlock rfl hnew (by rwa [hfb]) payload len
  · rw [heq]
    have hstored := h.last (Receiver.data_of_not_awaits hf h.state)
    exact ⟨by simpa using h.state, by simpa using h.acks, by simpa using hlt,
      by simpa [hdup] using hstored, fun _ => by simpa using hstored⟩
  · rw [heq]
    exact AckInv.newBlock (by simpa using Receiver.data_of_not_awaits hf h.state)
      (by simpa using h.acks) (by simpa using hlt) payload len

theorem AckInv.step {s : Net} {x : TftpInput} (hok : FirstBlockRegular s x)
    (h : AckInv (receiver s)) : AckInv ((receiver s).step (stimulus s.tftp x)) := by
  cases x with
  | timeout => exact h.timeout
  | datagram pkt dest sip src len =>
    simp only [stimulus, Receiver.step]
    cases hm : tftpMsg s.tftp pkt dest src len with
    | ignored => exact h
    | oack src' blkSize => exact h.oack src' blkSize
    | error code => exact h.error code
    | data src' n payload len' =>
      refine h.data src' payload len' (tftpMsg_data hm).block_lt ?_
      exact hok src' n payload len' (by rw [stimulus, hm])

theorem AckInv.start (s : Net) : AckInv (receiver (tftpGetStart s)) := by
  obtain ⟨port, hr⟩ := receiver_tftpGetStart s
  rw [hr]
  refine ⟨Or.inl rfl, ⟨?_, trivial⟩, Nat.zero_lt_succ _, Or.inl rfl, ?_⟩
  · intro n hm
    cases hm
  · intro hs
    cases hs

theorem acksStored_of_marks {log : List Event}
    (h : EachAfter AckAfterStore (log.filterMap eventMark)) : AcksStored log := by
  intro post pre n hlog hn hlt
  have hack : eventMark (.tftpSend (ackBytes n)) = some (.ack n) := by
    rw [eventMark, payloadMark_ackBytes hlt]
  rw [hlog, List.filterMap_append, List.filterMap_cons_some hack, eachAfter_iff] at h
  obtain ⟨blkSize, offset, len, hmem⟩ := h _ _ _ rfl n rfl hn
  rw [since_filterMap (p := fun e => e == .newTransfer), List.mem_filterMap] at hmem
  · obtain ⟨e, he, hmark⟩ := hmem
    exact ⟨blkSize, offset, len, eventMark_store hmark ▸ he⟩
  · intro e
    cases e with
    | tftpSend payload =>
      simp only [eventMark, payloadMark, Option.some.injEq]
      split <;> simp [Mark.isNewTransfer]
    | _ => simp [eventMark, Mark.isNewTransfer]

theorem acks_stored (s : Net) (xs : List TftpInput)
    (h : Meets tftpStep FirstBlockRegular (tftpGetStart s) xs) : AcksStored (tftpGet s xs).log :=
  acksStored_of_marks (receiver_invariant AckInv.start (fun _ _ => AckInv.step) h).acks

theorem firstBlockRegular_timeout (s : Net) : FirstBlockRegular s .timeout := by
  intro src n payload len h
  cases h

theorem firstBlockRegular_one (s : Net) {pkt : Buf} (dest : Nat) (sip : IPaddr) (src len : Nat)
    (h : be16 pkt 2 = 1) : FirstBlockRegular s (.datagram pkt dest sip src len) := by
  intro src' n payload len' hm _
  exact Or.inr ((tftpMsg_data (Receiver.Stimulus.msg.inj hm)).block_eq.trans h)

theorem acks_stored_one_block :
    AcksStored (tftpGet sampleNet [sampleData 1 516, .timeout]).log :=
  acks_stored _ _ ⟨firstBlockRegular_one _ _ _ _ _ (by decide), firstBlockRegular_timeout _, trivial⟩

theorem ack_unstored_block : ¬∀ s xs, AcksStored (tftpGet s xs).log := by
  intro h
  have hmarks : (tftpGet sampleNet [sampleData 2 516, .timeout]).log.filterMap eventMark =
      [.ack 2, .newTransfer, .request] := by decide +kernel
  have hack : Event.tftpSend (ackBytes 2) ∈
      (tftpGet sampleNet [sampleData 2 516, .timeout]).log := by decide +kernel
  obtain ⟨post, pre, hlog⟩ := List.append_of_mem hack
  obtain ⟨blkSize, offset, len, hmem⟩ := h _ _ post pre 2 hlog (by decide) (by decide)
  have hstore : Event.storeBlock 2 blkSize offset len ∈
      (tftpGet sampleNet [sampleData 2 516, .timeout]).log := by
    rw [hlog]
    exact List.mem_append_right _ (List.mem_cons_of_mem _ (mem_of_mem_since hmem))
  have hmark : Mark.store 2 blkSize offset len ∈ ([.ack 2, .newTransfer, .request] : List Mark) :=
    hmarks ▸ List.mem_filterMap.mpr ⟨_, hstore, rfl⟩
  simp at hmark

end NonOsLite
