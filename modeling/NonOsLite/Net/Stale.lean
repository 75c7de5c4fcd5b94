import NonOsLite.Net.ArpWait
import NonOsLite.Net.Negotiation

namespace NonOsLite
open ByteBuf

structure SameOutcome (s t : Net) : Prop where
  tftp : t.tftp = s.tftp
  netState : t.loop.netState = s.loop.netState
  memory : t.memory = s.memory
  transmitted : transmitted t = transmitted s

-- What the receive buffer holds behind the datagram makes no difference.
def DatagramOnly (s : Net) (pkt : Buf) (dest : Nat) (sip : IPaddr) (src len : Nat) : Prop :=
  ∀ p, Agree len p pkt →
    SameOutcome (tftpHandler s pkt dest sip src len) (tftpHandler s p dest sip src len)

def Terminates (pkt : Buf) (len pos : Nat) : Prop :=
  ∃ j, pos ≤ j ∧ j < len ∧ isdigit (pkt j) = false

structure ReadsInside (netState : NetLoopState) (pkt : Buf) (len : Nat) : Prop where
  error : be16 pkt 0 = tftpERROR →
    4 ≤ len ∨ (len = 3 ∧ pkt 2 ≠ 0) ∨ netState = .netloopFail
  oack : be16 pkt 0 = tftpOACK → ∀ i, LastName (shift pkt 2) (len - 2) i →
    Terminates (shift pkt 2) (len - 2) (i + 8)

variable {s : Net} {p q pkt : Buf} {dest src len n i pos : Nat} {sip : IPaddr}

theorem SameOutcome.refl (s : Net) : SameOutcome s s := ⟨rfl, rfl, rfl, rfl⟩

theorem NameAt.congr (ha : Agree n p q) (h : NameAt q n i) : NameAt p n i := by
  obtain ⟨hi, hname⟩ := h
  refine ⟨hi, hname.congr ?_⟩
  intro j hj
  have hj8 : j < 8 := hj
  exact ha (i + j) (by omega)

theorem LastName.congr (ha : Agree n p q) (h : LastName q n i) : LastName p n i :=
  ⟨h.1.congr ha, fun j hj hname => h.2 j hj (hname.congr ha.symm)⟩

theorem LastName.blkSize (h : LastName pkt n i) (blkSize : Nat) :
    tftpOackBlkSize pkt n blkSize = digitsAt pkt (i + 8) % 65536 := by
  rcases tftpOackBlkSize_last pkt n blkSize with ⟨hnone, -⟩ | ⟨j, hlast, heq⟩
  · exact absurd h.1 (hnone i)
  · rw [heq, h.unique hlast]

theorem digitsAt_eq {k : Nat} (hk : k < 4294967296) (hd : ∀ j < k, isdigit (pkt (pos + j)))
    (hn : isdigit (pkt (pos + k)) = false) :
    digitsAt pkt pos = (bytes (shift pkt pos) k).foldl digitValue 0 := by
  have htake := takeWhile_cStringFrom (p := shift pkt pos) hk hd hn
  rw [digitsAt, cString, htake]

theorem Terminates.digitsAt (ha : Agree n p q) (hlen : n < 4294967296) (h : Terminates q n pos) :
    digitsAt p pos = digitsAt q pos := by
  obtain ⟨j, hpos, hj, hn⟩ := h
  have hex : ∃ k, isdigit (q (pos + k)) = false := ⟨j - pos, by rwa [Nat.add_sub_cancel' hpos]⟩
  let k := Nat.find hex
  have hk : pos + k ≤ j := by
    have hle := Nat.find_min' hex (show isdigit (q (pos + (j - pos))) = false by
      rwa [Nat.add_sub_cancel' hpos])
    omega
  have hq := Nat.find_spec hex
  have hd (l : Nat) (hl : l < k) : isdigit (q (pos + l)) := by
    simpa using Nat.find_min hex hl
  have hagree : Agree k (shift p pos) (shift q pos) := fun l hl => ha (pos + l) (by omega)
  rw [digitsAt_eq (show k < 4294967296 by omega) (fun l hl => ha (pos + l) (by omega) ▸ hd l hl)
    (ha (pos + k) (by omega) ▸ hq), digitsAt_eq (show k < 4294967296 by omega) hd hq,
    bytes_congr hagree]

theorem tftpOackBlkSize_congr (ha : Agree n p q) (hlen : n < 4294967296)
    (hends : ∀ i, LastName q n i → Terminates q n (i + 8)) (blkSize : Nat) :
    tftpOackBlkSize p n blkSize = tftpOackBlkSize q n blkSize := by
  rcases tftpOackBlkSize_last q n blkSize with ⟨hnone, heq⟩ | ⟨i, hlast, heq⟩
  · rcases tftpOackBlkSize_last p n blkSize with ⟨-, heq'⟩ | ⟨i, hlast, -⟩
    · rw [heq, heq']
    · exact absurd (hlast.1.congr ha.symm) (hnone i)
  · rw [heq, (hlast.congr ha).blkSize, (hends i hlast).digitsAt ha hlen]

theorem tftpNewBlock_congr (s : Net) (ha : Agree (2 + n) p q) :
    tftpNewBlock s p n = tftpNewBlock s q n := by
  have hstore (t : Net) (block : Int) :
      storeBlock t block (shift p 2) n = storeBlock t block (shift q 2) n := by
    simp only [storeBlock, copy_congr _ _ (Agree.shift ha)]
  simp only [tftpNewBlock, hstore]

theorem tftpDataHandler_congr (s : Net) (ha : Agree n p q) :
    tftpDataHandler s p src n = tftpDataHandler s q src n := by
  rcases Nat.lt_or_ge n 2 with hshort | hlong
  · rw [tftpDataHandler, tftpDataHandler, if_pos hshort, if_pos hshort]
  · have haccept (t : Net) : tftpAcceptBlock t p (n - 2) = tftpAcceptBlock t q (n - 2) := by
      rw [tftpAcceptBlock, tftpAcceptBlock, tftpNewBlock_congr t (ha.mono (by omega))]
    simp only [tftpDataHandler, ha.be16 (show 0 + 2 ≤ n by omega), haccept]

theorem tftpErrorHandler_congr (ha : Agree n p q)
    (h : 2 ≤ n ∨ (n = 1 ∧ q 0 ≠ 0) ∨ s.loop.netState = .netloopFail) :
    SameOutcome (tftpErrorHandler s q) (tftpErrorHandler s p) := by
  rcases h with hlong | ⟨hn, hq⟩ | hfail
  · rw [tftpErrorHandler, tftpErrorHandler, ha.be16 (show 0 + 2 ≤ n by omega)]
    exact SameOutcome.refl _
  · have hbig (b : Buf) (hb : b 0 ≠ 0) : tftpErrorHandler s b = s := by
      refine if_neg ?_
      have hpos : 0 < (b 0).toNat := by
        rw [Nat.pos_iff_ne_zero]
        exact fun hz => hb (UInt8.toNat_inj.mp hz)
      have hcode : 256 ≤ be16 b 0 := by
        simp only [be16]
        omega
      rintro (hc | hc)
      · rw [hc] at hcode
        exact absurd hcode (by decide)
      · rw [hc] at hcode
        exact absurd hcode (by decide)
    rw [hbig q hq, hbig p (ha 0 (by omega) ▸ hq)]
    exact SameOutcome.refl _
  · have hkeep (b : Buf) : SameOutcome s (tftpErrorHandler s b) := by
      unfold tftpErrorHandler
      split
      · exact ⟨rfl, hfail.symm, rfl, rfl⟩
      · exact SameOutcome.refl _
    have hp := hkeep p
    have hq := hkeep q
    exact ⟨hp.tftp.trans hq.tftp.symm, hp.netState.trans hq.netState.symm,
      hp.memory.trans hq.memory.symm, hp.transmitted.trans hq.transmitted.symm⟩

theorem datagramOnly_of_readsInside (hlen : len < 4294967296)
    (h : Accepted s.tftp dest src len → ReadsInside s.loop.netState pkt len) :
    DatagramOnly s pkt dest sip src len := by
  intro p ha
  by_cases hacc : Accepted s.tftp dest src len
  · obtain ⟨herror, hoack⟩ := h hacc
    have hlong := hacc.long
    have hbody : Agree (len - 2) (shift p 2) (shift pkt 2) :=
      Agree.shift (ha.mono (show 2 + (len - 2) ≤ len by omega))
    rw [tftpHandler_accepted hacc, tftpHandler_accepted hacc,
      ha.be16 (show 0 + 2 ≤ len from hlong)]
    by_cases ho : be16 pkt 0 = tftpOACK
    · rw [if_pos ho, if_pos ho, tftpOackHandler, tftpOackHandler,
        tftpOackBlkSize_congr hbody (by omega) (hoack ho)]
      exact SameOutcome.refl _
    · rw [if_neg ho, if_neg ho]
      by_cases hd : be16 pkt 0 = tftpDATA
      · rw [if_pos hd, if_pos hd, tftpDataHandler_congr s hbody]
        exact SameOutcome.refl _
      · rw [if_neg hd, if_neg hd]
        by_cases he : be16 pkt 0 = tftpERROR
        · rw [if_pos he, if_pos he]
          refine tftpErrorHandler_congr hbody ?_
          rcases herror he with hfour | ⟨hthree, hhigh⟩ | hfail
          · exact Or.inl (by omega)
          · exact Or.inr (Or.inl ⟨by omega, hhigh⟩)
          · exact Or.inr (Or.inr hfail)
        · rw [if_neg he, if_neg he]
          exact SameOutcome.refl _
  · rw [tftpHandler_refused hacc, tftpHandler_refused hacc]
    exact SameOutcome.refl _

theorem opcode_kept (b : Buf) (bs : List UInt8) (h : 2 ≤ n) : be16 (store b n bs) 0 = be16 b 0 := by
  simp only [be16, store_of_lt (show 0 < n by omega), store_of_lt (show 0 + 1 < n by omega)]

theorem agree_store (b : Buf) (bs : List UInt8) : Agree n (store b n bs) b :=
  fun _ hi => store_of_lt hi

theorem error_inside (hacc : Accepted s.tftp dest src len) (he : be16 pkt 0 = tftpERROR)
    (h : DatagramOnly s pkt dest sip src len) :
    4 ≤ len ∨ (len = 3 ∧ pkt 2 ≠ 0) ∨ s.loop.netState = .netloopFail := by
  by_contra hnot
  simp only [not_or, not_and, not_not, Nat.not_le] at hnot
  obtain ⟨hshort, hzero, hstate⟩ := hnot
  have hlong := hacc.long
  -- the code that the buffer holds behind the datagram
  have hcode (code : UInt8) : (tftpHandler s pkt dest sip src len).loop.netState =
      (tftpErrorHandler s (shift (store pkt 2 [0, code]) 2)).loop.netState := by
    have hagree : Agree len (store pkt 2 [0, code]) pkt := by
      intro i hi
      rcases Nat.lt_or_ge i 2 with hlt | hge
      · exact store_of_lt hlt
      · obtain ⟨rfl, rfl⟩ : i = 2 ∧ len = 3 := by omega
        have hin := store_inside pkt 2 [0, code] (i := 0) (by simp)
        exact hin.trans (hzero rfl).symm
    have hsame := (h _ hagree).netState
    have hopcode : be16 (store pkt 2 [0, code]) 0 = tftpERROR :=
      (opcode_kept pkt _ (le_refl 2)).trans he
    generalize store pkt 2 [0, code] = b at hsame hopcode ⊢
    rw [tftpHandler_accepted hacc, hopcode, if_neg (by decide), if_neg (by decide),
      if_pos rfl] at hsame
    exact hsame.symm
  have hread (code : UInt8) : be16 (shift (store pkt 2 [0, code]) 2) 0 = code.toNat := by
    have h0 := store_inside pkt 2 [0, code] (i := 0) (by simp)
    have h1 := store_inside pkt 2 [0, code] (i := 1) (by simp)
    simp only [be16, shift_apply, Nat.add_zero] at h0 h1 ⊢
    rw [h0, show 2 + (0 + 1) = 2 + 1 from rfl, h1]
    simp
  have hfail := (hcode 1).symm.trans (hcode 0)
  rw [tftpErrorHandler, tftpErrorHandler, hread, hread, if_pos (Or.inl (by decide)),
    if_neg (by decide)] at hfail
  exact hstate hfail.symm

theorem digitsAt_extended {m : Nat} (hn : n = pos + m) (hlen : m + 1 < 4294967296)
    (hdigits : ∀ j < m, isdigit (q (pos + j))) {d : UInt8} (hd : isdigit d) :
    digitsAt (store q n [d, 0]) pos =
      digitValue ((bytes (shift q pos) m).foldl digitValue 0) d := by
  subst hn
  have hdigit : store q (pos + m) [d, 0] (pos + m) = d :=
    store_inside q (pos + m) [d, 0] (i := 0) (by simp)
  have hnul : store q (pos + m) [d, 0] (pos + (m + 1)) = 0 :=
    store_inside q (pos + m) [d, 0] (i := 1) (by simp)
  have hall (j : Nat) (hj : j < m + 1) : isdigit (store q (pos + m) [d, 0] (pos + j)) := by
    rcases Nat.lt_succ_iff_lt_or_eq.mp hj with hlt | rfl
    · rw [store_of_lt (by omega)]
      exact hdigits j hlt
    · rwa [hdigit]
  have hkept : Agree m (shift (store q (pos + m) [d, 0]) pos) (shift q pos) :=
    fun j hj => store_of_lt (by omega)
  have hlast : bytes (shift (shift (store q (pos + m) [d, 0]) pos) m) 1 = [d] := by
    simp [bytes, hdigit]
  rw [digitsAt_eq hlen hall (by rw [hnul]; decide), bytes_add, hlast, bytes_congr hkept,
    List.foldl_append]
  rfl

theorem oack_inside (hlen : len < 4294967296) (hacc : Accepted s.tftp dest src len)
    (ho : be16 pkt 0 = tftpOACK) (h : DatagramOnly s pkt dest sip src len)
    (hlast : LastName (shift pkt 2) (len - 2) i) :
    Terminates (shift pkt 2) (len - 2) (i + 8) := by
  by_contra hnot
  obtain ⟨m, hm⟩ : ∃ m, len - 2 = i + 8 + m := Nat.exists_eq_add_of_le hlast.1.1.le
  have hdigits (j : Nat) (hj : j < m) : isdigit (shift pkt 2 (i + 8 + j)) := by
    by_contra hd
    exact hnot ⟨i + 8 + j, by omega, by omega, by simpa using hd⟩
  have hlong := hacc.long
  -- one more digit in the buffer behind the datagram
  have hvalue (d : UInt8) (hd : isdigit d) :
      (tftpHandler s pkt dest sip src len).tftp.tftpBlkSize =
        digitValue ((bytes (shift (shift pkt 2) (i + 8)) m).foldl digitValue 0) d % 65536 := by
    have hsame := (h _ (agree_store pkt [d, 0])).tftp
    have hbody : shift (store pkt len [d, 0]) 2 = store (shift pkt 2) (len - 2) [d, 0] := by
      have hshift : shift (store pkt (2 + (len - 2)) [d, 0]) 2 =
          store (shift pkt 2) (len - 2) [d, 0] := shift_store
      rwa [Nat.add_sub_cancel' hlong] at hshift
    have hopcode : be16 (store pkt len [d, 0]) 0 = tftpOACK := (opcode_kept pkt _ hlong).trans ho
    have hname : LastName (shift (store pkt len [d, 0]) 2) (len - 2) i := by
      rw [hbody]
      exact hlast.congr (agree_store _ _)
    have hdigitsAt := digitsAt_extended hm (by omega) hdigits hd
    rw [← hbody] at hdigitsAt
    generalize store pkt len [d, 0] = b at hsame hopcode hname hdigitsAt
    have hsize := congrArg Tftp.tftpBlkSize hsame
    rw [tftpHandler_accepted hacc, hopcode, if_pos rfl, tftpOackHandler, tftpSend_tftp] at hsize
    rw [← hsize, ← hdigitsAt]
    exact hname.blkSize _
  have hone := (hvalue 49 (by decide)).symm.trans (hvalue 50 (by decide))
  simp only [digitValue, UInt8.reduceToNat] at hone
  omega

theorem datagram_only_iff (hlen : len < 4294967296) :
    DatagramOnly s pkt dest sip src len ↔
      (Accepted s.tftp dest src len → ReadsInside s.loop.netState pkt len) := by
  constructor
  · intro h hacc
    exact ⟨fun he => error_inside hacc he h, fun ho i hlast => oack_inside hlen hacc ho h hlast⟩
  · exact datagramOnly_of_readsInside hlen

def sampleError (code : List UInt8) : Buf := store (fun _ => 0) 0 ([0, 5] ++ code)

theorem datagram_only_error : DatagramOnly requestingBoard (sampleError [0, 1])
    requestingBoard.tftp.tftpOurPort (stringToIp (ascii "10.0.0.128")) 32768 4 :=
  (datagram_only_iff (by decide)).mpr
    fun _ => ⟨fun _ => Or.inl (le_refl 4), fun ho => absurd ho (by decide)⟩

theorem datagram_only_stale : ¬∀ (s : Net) (pkt : Buf) (dest : Nat) (sip : IPaddr)
    (src len : Nat), len < 4294967296 → DatagramOnly s pkt dest sip src len := by
  intro h
  have hagree : Agree 2 (sampleError [0, 1]) (sampleError []) := by
    intro i hi
    interval_cases i <;> decide
  have hsame := h requestingBoard (sampleError []) requestingBoard.tftp.tftpOurPort
    (stringToIp (ascii "10.0.0.128")) 32768 2 (by decide) _ hagree
  exact absurd hsame.netState (by decide +kernel)

end NonOsLite
