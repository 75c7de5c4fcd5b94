import NonOsLite.Lib.Terminated
import NonOsLite.Net.Lengths
import NonOsLite.Net.Oack
import NonOsLite.Net.Session
import NonOsLite.Net.TftpRun

namespace NonOsLite
open ByteBuf InputMachine Terminated

def Granted (payload : List UInt8) (v : Nat) : Prop :=
  ∃ num : Numeral, (ascii "blksize", num.digits) ∈ pairs (decode 0 payload).1 ∧ num.value = v ∧
    8 ≤ v ∧ v ≤ tftpBlkSizeOption

structure Negotiated (payload : List UInt8) (blkSize result : Nat) : Prop where
  granted : ∀ v, Granted payload v → result = v
  refused : (∀ v, ¬Granted payload v) → result = blkSize

def NameAt (pkt : Buf) (len i : Nat) : Prop :=
  i + 8 < len ∧ StartsWith (shift pkt i) (ascii "blksize" ++ [0])

def LastName (pkt : Buf) (len i : Nat) : Prop :=
  NameAt pkt len i ∧ ∀ j, i < j → ¬NameAt pkt len j

def digitsAt (pkt : Buf) (pos : Nat) : Nat :=
  ((cString (shift pkt pos)).takeWhile isdigit).foldl digitValue 0

structure Named (payload : List UInt8) (before : List (List UInt8)) (f : List UInt8)
    (after : List (List UInt8)) : Prop where
  fields : (decode 0 payload).1 = before ++ f :: after
  suffix : ascii "blksize" <:+ f
  behind : after ≠ [] ∨ (decode 0 payload).2 ≠ []

structure ValidOption (before : List (List UInt8)) (f : List UInt8) (after : List (List UInt8)) :
    Prop where
  name : f = ascii "blksize"
  even : before.length % 2 = 0
  value : ∃ num : Numeral, after.head? = some num.digits ∧ 8 ≤ num.value ∧
    num.value ≤ tftpBlkSizeOption

-- The option's name stands nowhere but in valid options, and they agree.
structure OackPlain (payload : List UInt8) : Prop where
  valid : ∀ before f after, Named payload before f after → ValidOption before f after
  same : ∀ v w, Granted payload v → Granted payload w → v = w

structure OackHandled (t : Tftp) (u : UdpCall) : Prop where
  port : u.dport = t.tftpOurPort
  server : t.tftpState = .sendRrq ∨ u.sport = t.tftpRemotePort ∨ t.tftpState = .recvWrq ∨
    t.tftpState = .sendWrq
  long : 2 ≤ u.len
  opcode : be16 u.pkt 0 = tftpOACK

def OackStep : Loop → LoopInput → Prop
  | .running s, .frame inpkt len => ∀ ip n u, netDecode s.cfg inpkt len = .udp ip n u →
      s.loop.udpPacketHandler = .tftpHandler → OackHandled s.tftp u →
      OackPlain (bytes (shift u.pkt 2) (u.len - 2))
  | _, _ => True

inductive PlainSession : Net → Prop where
  | boot (enetaddr : Ether) (sysHz : Nat) (clock : Nat → Nat) (memory : Buf) :
      PlainSession (netBoot enetaddr sysHz clock memory)
  | command {s : Net} (c : Command) (h : PlainSession s) : PlainSession (prepare s c)
  | call {s t : Net} {ret : Int} (protocol : Proto) (xs : List LoopInput) (h : PlainSession s)
      (hok : Meets (netLoopStep protocol) OackStep (netLoopEntry protocol s) xs)
      (hrun : netLoop protocol s xs = .done ret t) : PlainSession t

variable {s t : Net} {u : UdpCall} {pkt : Buf} {len n i blkSize result v : Nat}
  {payload : List UInt8}

theorem foldl_last {P : Nat → Prop} [DecidablePred P] {f : Nat → Nat} (n init : Nat) :
    ((∀ i < n, ¬P i) ∧
      (List.range n).foldl (fun acc i => if P i then f i else acc) init = init) ∨
    ∃ i < n, P i ∧ (∀ j < n, i < j → ¬P j) ∧
      (List.range n).foldl (fun acc i => if P i then f i else acc) init = f i := by
  induction n with
  | zero => exact Or.inl ⟨fun i hi => absurd hi (Nat.not_lt_zero i), rfl⟩
  | succ n ih =>
    rw [List.range_succ, List.foldl_append, List.foldl_cons, List.foldl_nil]
    by_cases hn : P n
    · rw [if_pos hn]
      exact Or.inr ⟨n, Nat.lt_succ_self n, hn, fun j hj hlt => by omega, rfl⟩
    · rw [if_neg hn]
      rcases ih with ⟨hnone, heq⟩ | ⟨i, hi, hP, hlast, heq⟩
      · refine Or.inl ⟨?_, heq⟩
        intro i hi
        rcases Nat.lt_succ_iff_lt_or_eq.mp hi with hlt | rfl
        · exact hnone i hlt
        · exact hn
      · refine Or.inr ⟨i, Nat.lt_succ_of_lt hi, hP, ?_, heq⟩
        intro j hj hlt
        rcases Nat.lt_succ_iff_lt_or_eq.mp hj with hjn | rfl
        · exact hlast j hjn hlt
        · exact hn

theorem nameAt_iff : NameAt pkt len i ↔ i < len - 8 ∧ strcmp (shift pkt i) (ascii "blksize") = 0 := by
  have hlen : i + 8 < len ↔ i < len - 8 := by omega
  refine and_congr hlen ?_
  rw [strcmp_eq_zero, startsWith_append, startsWith_iff, startsWith_cons]
  exact and_congr_right fun _ => and_iff_left rfl

theorem tftpOackBlkSize_last (pkt : Buf) (len blkSize : Nat) :
    ((∀ i, ¬NameAt pkt len i) ∧ tftpOackBlkSize pkt len blkSize = blkSize) ∨
    ∃ i, LastName pkt len i ∧ tftpOackBlkSize pkt len blkSize = digitsAt pkt (i + 8) % 65536 := by
  have hvalue (i : Nat) : u16 (strtoul (cString (shift pkt (i + 8))) 10).1 =
      digitsAt pkt (i + 8) % 65536 := by
    rw [strtoul_dec, digitsAt, u16, u32]
    omega
  rcases foldl_last (P := fun i => strcmp (shift pkt i) (ascii "blksize") = 0)
    (f := fun i => u16 (strtoul (cString (shift pkt (i + 8))) 10).1) (len - 8) blkSize with
    ⟨hnone, heq⟩ | ⟨i, hi, hP, hlast, heq⟩
  · refine Or.inl ⟨?_, heq⟩
    intro i hname
    obtain ⟨hi, hP⟩ := nameAt_iff.mp hname
    exact hnone i hi hP
  · refine Or.inr ⟨i, ⟨nameAt_iff.mpr ⟨hi, hP⟩, ?_⟩, heq.trans (hvalue i)⟩
    intro j hlt hname
    obtain ⟨hj, hPj⟩ := nameAt_iff.mp hname
    exact hlast j hj hlt hPj

theorem payload_at (h : NameAt pkt len i) : bytes pkt len =
    bytes pkt i ++ ascii "blksize" ++ 0 :: bytes (shift pkt (i + 8)) (len - (i + 8)) := by
  obtain ⟨hlt, hname⟩ := h
  have hlen : len = i + (8 + (len - (i + 8))) := by omega
  have hbytes : bytes (shift pkt i) 8 = ascii "blksize" ++ [0] := hname
  calc bytes pkt len
      = bytes pkt i ++ (bytes (shift pkt i) 8 ++ bytes (shift (shift pkt i) 8) (len - (i + 8))) := by
        rw [hlen, bytes_add, bytes_add, ← hlen]
    _ = _ := by
        rw [hbytes, shift_shift]
        simp

theorem NameAt.named (h : NameAt pkt len i) :
    ∃ before f, Named (bytes pkt len) before f
      (decode 0 (bytes (shift pkt (i + 8)) (len - (i + 8)))).1 := by
  obtain ⟨before, f, hsuffix, hdecode⟩ := decode_suffix (z := (0 : UInt8)) (g := ascii "blksize")
    (by decide) (bytes pkt i) (bytes (shift pkt (i + 8)) (len - (i + 8)))
  rw [← payload_at h] at hdecode
  refine ⟨before, f, congrArg Prod.fst hdecode, hsuffix, ?_⟩
  rw [congrArg Prod.snd hdecode]
  by_contra hnone
  obtain ⟨hafter, hrest⟩ := not_or.mp hnone
  have htext := encode_decode (z := (0 : UInt8)) (bytes (shift pkt (i + 8)) (len - (i + 8)))
  rw [not_not.mp hafter, not_not.mp hrest] at htext
  have hempty := congrArg List.length htext
  rw [bytes_length] at hempty
  have hlt := h.1
  simp only [encode, List.flatMap_nil, List.append_nil, List.length_nil] at hempty
  omega

theorem Named.nameAt {before after : List (List UInt8)} {f : List UInt8}
    (h : Named (bytes pkt len) before f after) : ∃ i, NameAt pkt len i := by
  obtain ⟨g, rfl⟩ := h.suffix
  have htext := encode_decode (z := (0 : UInt8)) (bytes pkt len)
  rw [h.fields, encode_append, encode_cons] at htext
  have hbehind := h.behind
  generalize (decode 0 (bytes pkt len)).2 = rest at htext hbehind
  have hsplit : encode 0 before ++ (g ++ ascii "blksize" ++ 0 :: encode 0 after) ++ rest =
      (encode 0 before ++ g) ++ (ascii "blksize" ++ [0] ++ (encode 0 after ++ rest)) := by simp
  have hpos : 0 < (encode 0 after ++ rest).length := by
    rw [List.length_append]
    rcases hbehind with hne | hne
    · obtain ⟨a, as, rfl⟩ := List.exists_cons_of_ne_nil hne
      rw [encode_cons, List.length_append, List.length_cons]
      omega
    · exact Nat.add_pos_right _ (List.length_pos_of_ne_nil hne)
  rw [hsplit] at htext
  have hlen := congrArg List.length htext
  have hstart := startsWith_bytes pkt len
  rw [← htext, startsWith_append] at hstart
  refine ⟨(encode 0 before ++ g).length, ?_, (startsWith_append.mp hstart.2).1⟩
  have hname : (ascii "blksize" ++ [0]).length = 8 := rfl
  have hbehind : ((ascii "blksize" ++ [0]) ++ (encode 0 after ++ rest)).length =
      8 + (encode 0 after ++ rest).length := by
    rw [List.length_append, hname]
  rw [List.length_append, hbehind, bytes_length] at hlen
  omega

theorem Granted.named (h : Granted payload v) :
    ∃ before f after, Named payload before f after := by
  obtain ⟨num, hmem, -⟩ := h
  obtain ⟨before, after, hfields⟩ := mem_pairs hmem
  exact ⟨before, _, num.digits :: after, hfields, List.suffix_rfl, Or.inl (List.cons_ne_nil _ _)⟩

theorem ValidOption.granted {before after : List (List UInt8)} {f : List UInt8}
    (h : ValidOption before f after) (hf : (decode 0 payload).1 = before ++ f :: after) :
    ∃ num : Numeral, after.head? = some num.digits ∧ Granted payload num.value ∧
      num.value ≤ tftpBlkSizeOption := by
  obtain ⟨num, hhead, hmin, hmax⟩ := h.value
  refine ⟨num, hhead, ⟨num, ?_, rfl, hmin, hmax⟩, hmax⟩
  obtain ⟨after', rfl⟩ : ∃ after', after = num.digits :: after' := by
    cases after with
    | nil => cases hhead
    | cons a after' => exact ⟨after', by rw [Option.some.inj hhead]⟩
  rw [hf, h.name, pairs_append _ _ h.even]
  exact List.mem_append_right _ List.mem_cons_self

theorem LastName.unique {j : Nat} (h : LastName pkt len i) (k : LastName pkt len j) : i = j := by
  rcases Nat.lt_trichotomy i j with hlt | heq | hgt
  · exact absurd k.1 (h.2 j hlt)
  · exact heq
  · exact absurd h.1 (k.2 i hgt)

theorem digitsAt_numeral {pos : Nat} {num : Numeral} {rest : List (List UInt8)}
    (hlen : n < 4294967296) (h : (decode 0 (bytes (shift pkt pos) n)).1 = num.digits :: rest) :
    digitsAt pkt pos = num.value := by
  have htext := encode_decode (z := (0 : UInt8)) (bytes (shift pkt pos) n)
  rw [h, encode_cons] at htext
  have hlength := congrArg List.length htext
  have hstart := startsWith_bytes (shift pkt pos) n
  rw [← htext, List.append_assoc, startsWith_append] at hstart
  obtain ⟨hdigits, hrest⟩ := hstart
  have hnul : shift pkt pos num.digits.length = 0 := by simpa using (startsWith_cons.mp hrest).1
  have hall (i : Nat) (hi : i < num.digits.length) : isdigit (shift pkt pos i) := by
    rw [hdigits.getD hi 0, List.getD_eq_getElem _ _ hi]
    exact num.all_digits _ (List.getElem_mem _)
  have hshort : num.digits.length < 4294967296 := by
    simp only [List.length_append, List.length_cons, bytes_length] at hlength
    omega
  rw [digitsAt, cString, takeWhile_cStringFrom hshort hall (by rw [hnul]; decide), hdigits,
    Numeral.value]

theorem OackPlain.negotiated (hlen : len < 4294967296) (h : OackPlain (bytes pkt len))
    (blkSize : Nat) :
    Negotiated (bytes pkt len) blkSize (tftpOackBlkSize pkt len blkSize) := by
  rcases tftpOackBlkSize_last pkt len blkSize with ⟨hnone, heq⟩ | ⟨i, hlast, heq⟩
  · rw [heq]
    refine ⟨fun v hv => ?_, fun _ => rfl⟩
    obtain ⟨before, f, after, hnamed⟩ := hv.named
    obtain ⟨i, hi⟩ := hnamed.nameAt
    exact absurd hi (hnone i)
  · obtain ⟨before, f, hnamed⟩ := hlast.1.named
    obtain ⟨num, hhead, hgranted, hmax⟩ := (h.valid _ _ _ hnamed).granted hnamed.fields
    obtain ⟨rest, hafter⟩ := List.head?_eq_some_iff.mp hhead
    have hlt : num.value < 65536 := Nat.lt_of_le_of_lt hmax (by decide)
    rw [heq, digitsAt_numeral (by omega) hafter, Nat.mod_eq_of_lt hlt]
    exact ⟨fun v hv => h.same _ _ hgranted hv, fun hnone => absurd hgranted (hnone _)⟩

theorem plain_of_negotiated (hnone : ∀ v, ¬Granted (bytes pkt len) v)
    (h : ∀ b, Negotiated (bytes pkt len) b (tftpOackBlkSize pkt len b)) :
    OackPlain (bytes pkt len) := by
  refine ⟨fun before f after hnamed => ?_, fun v _ hv _ => absurd hv (hnone v)⟩
  obtain ⟨i, hi⟩ := hnamed.nameAt
  rcases tftpOackBlkSize_last pkt len (digitsAt pkt 0) with ⟨habsent, -⟩ | ⟨j, hlast, -⟩
  · exact absurd hi (habsent i)
  · have hsize (b : Nat) : digitsAt pkt (j + 8) % 65536 = b := by
      rcases tftpOackBlkSize_last pkt len b with ⟨habsent, -⟩ | ⟨k, hk, heq⟩
      · exact absurd hi (habsent i)
      · rw [hlast.unique hk, ← heq]
        exact (h b).refused hnone
    exact absurd ((hsize 0).symm.trans (hsize 1)) (by decide)

theorem OackHandled.accepted {T : Tftp} (h : OackHandled T u) :
    Accepted T u.dport u.sport u.len := ⟨h.port, h.server, h.long⟩

theorem tftpMsg_oack {T : Tftp} (h : OackHandled T u) :
    tftpMsg T u.pkt u.dport u.sport u.len =
      .oack u.sport (tftpOackBlkSize (shift u.pkt 2) (u.len - 2) T.tftpBlkSize) := by
  rw [h.accepted.tftpMsg, if_pos h.opcode]

theorem oackHandled_of_tftpMsg {T : Tftp} {src : Nat}
    (h : tftpMsg T u.pkt u.dport u.sport u.len = .oack src n) : OackHandled T u := by
  by_cases hacc : Accepted T u.dport u.sport u.len
  · by_cases hopcode : be16 u.pkt 0 = tftpOACK
    · exact ⟨hacc.port, hacc.server, hacc.long, hopcode⟩
    · rw [hacc.tftpMsg, if_neg hopcode] at h
      repeat' split at h
      all_goals cases h
  · rw [tftpMsg_refused hacc] at h
    cases h

theorem tftpHandler_blkSize (s : Net) (u : UdpCall) (h : OackHandled s.tftp u) :
    (tftpHandler s u.pkt u.dport u.sip u.sport u.len).tftp.tftpBlkSize =
      tftpOackBlkSize (shift u.pkt 2) (u.len - 2) s.tftp.tftpBlkSize := by
  have hr := receiver_tftpHandler s u.pkt u.dport u.sip u.sport u.len
  rw [tftpMsg_oack h] at hr
  exact congrArg (fun r => r.tftp.tftpBlkSize) hr

theorem Receiver.handle_blkSize {r : Receiver} {m : TftpMsg}
    (h : ∀ src blkSize, m ≠ .oack src blkSize) :
    (r.handle m).tftp.tftpBlkSize = r.tftp.tftpBlkSize := by
  have hnew (r : Receiver) (payload : Buf) (len : Nat) :
      (r.newBlock payload len).tftp.tftpBlkSize = r.tftp.tftpBlkSize := by
    simp only [Receiver.newBlock]
    split <;> rfl
  cases m with
  | ignored => rfl
  | oack src blkSize => exact absurd rfl (h src blkSize)
  | data src n payload len =>
    simp only [Receiver.handle]
    rcases r.data_cases src n payload len with ⟨-, -, heq⟩ | ⟨-, -, heq⟩ | ⟨-, -, heq⟩ | ⟨-, -, heq⟩
    · rw [heq]
      exact r.countBlock_blkSize n
    · rw [heq, hnew]
      exact r.countBlock_blkSize n
    · rw [heq, r.countBlock_blkSize]
    · rw [heq, hnew, r.countBlock_blkSize]
  | error code =>
    simp only [Receiver.handle, Receiver.error]
    split <;> rfl

theorem Receiver.timeout_blkSize (r : Receiver) :
    r.timeout.tftp.tftpBlkSize = r.tftp.tftpBlkSize := by
  simp only [Receiver.timeout]
  repeat' split
  all_goals rfl

theorem Negotiated.ne_zero (h : Negotiated payload blkSize result) (hblk : blkSize ≠ 0) :
    result ≠ 0 := by
  by_cases hv : ∃ v, Granted payload v
  · obtain ⟨v, hv⟩ := hv
    rw [h.granted v hv]
    obtain ⟨-, -, -, hmin, -⟩ := hv
    omega
  · rw [h.refused (fun v hg => hv ⟨v, hg⟩)]
    exact hblk

theorem tftpHandler_blkSize_ne_zero (u : UdpCall) (hlen : u.len < 4294967296)
    (hplain : OackHandled s.tftp u → OackPlain (bytes (shift u.pkt 2) (u.len - 2)))
    (h : s.tftp.tftpBlkSize ≠ 0) :
    (tftpHandler s u.pkt u.dport u.sip u.sport u.len).tftp.tftpBlkSize ≠ 0 := by
  by_cases hoack : OackHandled s.tftp u
  · rw [tftpHandler_blkSize s u hoack]
    exact ((hplain hoack).negotiated (by omega) _).ne_zero h
  · have hr := receiver_tftpHandler s u.pkt u.dport u.sip u.sport u.len
    have hkeep : (tftpHandler s u.pkt u.dport u.sip u.sport u.len).tftp.tftpBlkSize =
        s.tftp.tftpBlkSize :=
      (congrArg (fun r => r.tftp.tftpBlkSize) hr).trans
        (Receiver.handle_blkSize fun src blkSize hm => hoack (oackHandled_of_tftpMsg hm))
    rw [hkeep]
    exact h

theorem netDecode_len_lt {c : Config} {inpkt : Buf} {l m : Int} {ip : Nat}
    (h : netDecode c inpkt l = .udp ip m u) : u.len < 4294967296 := by
  unfold netDecode at h
  repeat' split at h
  all_goals try cases h
  rcases netIp_cases c inpkt _ _ with hd | ⟨-, hd | hd⟩
  all_goals
    rw [hd] at h
    cases h
  exact sub32_lt ((be16_lt _ _).trans (by decide))

theorem netReceive_blkSize {inpkt : Buf} {l : Int} (hok : OackStep (.running s) (.frame inpkt l))
    (h : s.tftp.tftpBlkSize ≠ 0) : (netReceive s inpkt l).tftp.tftpBlkSize ≠ 0 := by
  cases hd : netDecode s.cfg inpkt l with
  | drop =>
    simp only [netReceive, hd]
    exact h
  | arp ip n =>
    simp only [netReceive, hd, (arpReceive_sends _ _ _ _).tftp]
    exact h
  | icmp ip n =>
    simp only [netReceive, hd]
    rcases receiveIcmp_cases s inpkt ip n with hs | ⟨-, heq⟩
    · rw [hs.tftp]
      exact h
    · rw [heq]
      unfold echoReplied
      extract_lets s'
      split <;> exact h
  | udp ip n u =>
    simp only [netReceive, hd]
    cases hx : s.loop.udpPacketHandler with
    | dummyHandler => exact h
    | tftpHandler => exact tftpHandler_blkSize_ne_zero u (netDecode_len_lt hd) (hok ip n u hd hx) h

theorem polled_blkSize (s : Net) : (polled s).tftp.tftpBlkSize = s.tftp.tftpBlkSize := by
  rcases polled_cases s with hs | ⟨x, -, -, heq⟩
  · rw [hs.tftp]
  · rw [heq]
    cases x with
    | pingTimeout => exact congrArg Tftp.tftpBlkSize (arpTimeoutCheck_sends s).tftp
    | tftpTimeout =>
      exact (congrArg (fun r => r.tftp.tftpBlkSize) (receiver_expired_timeout s)).trans
        (Receiver.timeout_blkSize _)

theorem netInit_tftp (s : Net) : (netInit s).tftp = s.tftp := by
  cases hf : s.firstCall with
  | true => simp [netInit, hf, netInitLoop, netClearHandlers, arpInit]
  | false => simp [netInit, hf, netInitLoop]

theorem pingStart_tftp (s : Net) : (pingStart s).tftp = s.tftp := by
  unfold pingStart pingSend
  exact ((arpRequest_sends _).tftp).trans (netSetTimeout_sets s _ _).tftp

theorem tftpStart_blkSize (s : Net) : (tftpStart s).tftp.tftpBlkSize = tftpBlockSize := by
  obtain ⟨port, hr⟩ := receiver_tftpStart s
  exact congrArg (fun r => r.tftp.tftpBlkSize) hr

theorem netLoopEntry_blkSize (h : s.tftp.tftpBlkSize ≠ 0) (protocol : Proto) :
    (netLoopEntry protocol s).All (fun t => t.tftp.tftpBlkSize ≠ 0)
      (fun _ t => t.tftp.tftpBlkSize ≠ 0) := by
  have hinit : (netInit s).tftp.tftpBlkSize ≠ 0 := by rwa [netInit_tftp]
  rcases netLoopEntry_cases protocol s with heq | heq
  · rw [heq]
    exact hinit
  · rw [heq]
    cases protocol with
    | tftpget =>
      simp only [Loop.All, tftpStart_blkSize]
      decide
    | ping =>
      simp only [Loop.All, pingStart_tftp]
      exact hinit
    | _ => exact hinit

theorem netLoop_blkSize {protocol : Proto} {xs : List LoopInput} (h : s.tftp.tftpBlkSize ≠ 0)
    (hok : Meets (netLoopStep protocol) OackStep (netLoopEntry protocol s) xs) :
    (netLoop protocol s xs).All (fun t => t.tftp.tftpBlkSize ≠ 0 ∧ t.loop.netState ≠ .netloopRestart)
      (fun _ t => t.tftp.tftpBlkSize ≠ 0) := by
  refine netLoop_invariant ?_ ?_ ?_ hok
  · exact ((netLoopEntry_blkSize h protocol).and (netLoopEntry_not_restart protocol s)).mono
      (fun _ h => h) (fun _ _ h => h.1)
  · rintro t inpkt len hstep ⟨ht, hstate⟩
    exact ⟨netReceive_blkSize hstep ht, netReceive_not_restart hstate⟩
  · rintro t key - ⟨ht, hstate⟩
    have hpolled : (polled t).tftp.tftpBlkSize ≠ 0 := by rwa [polled_blkSize]
    rcases netLoopPoll_cases protocol key (polled_not_restart hstate) with
      ⟨-, heq⟩ | ⟨-, -, heq⟩ | ⟨-, -, heq⟩ | ⟨-, -, heq⟩
    · rw [heq]
      exact ht
    · rw [heq]
      exact ⟨hpolled, polled_not_restart hstate⟩
    · rw [heq]
      exact hpolled
    · rw [heq]
      exact hpolled

theorem PlainSession.blkSize_ne_zero (h : PlainSession s) : s.tftp.tftpBlkSize ≠ 0 := by
  induction h with
  | boot => exact Nat.succ_ne_zero 511
  | command c _ ih => exact ih
  | call protocol xs _ hok hrun ih =>
    have hall := netLoop_blkSize ih hok
    rw [hrun] at hall
    exact hall

theorem blkSize_negotiated (s : Net) (u : UdpCall) (protocol : Proto) (xs : List LoopInput)
    (hlen : u.len < 4294967296) :
    (OackHandled s.tftp u → OackPlain (bytes (shift u.pkt 2) (u.len - 2)) →
      Negotiated (bytes (shift u.pkt 2) (u.len - 2)) s.tftp.tftpBlkSize
        (tftpHandler s u.pkt u.dport u.sip u.sport u.len).tftp.tftpBlkSize) ∧
    (OackHandled s.tftp u → (∀ v, ¬Granted (bytes (shift u.pkt 2) (u.len - 2)) v) →
      (∀ b, Negotiated (bytes (shift u.pkt 2) (u.len - 2)) b
        (tftpHandler { s with tftp.tftpBlkSize := b } u.pkt u.dport u.sip u.sport
          u.len).tftp.tftpBlkSize) →
      OackPlain (bytes (shift u.pkt 2) (u.len - 2))) ∧
    (PlainSession s → Meets (netLoopStep protocol) OackStep (netLoopEntry protocol s) xs →
      (netLoop protocol s xs).All (fun t => t.tftp.tftpBlkSize ≠ 0)
        (fun _ t => t.tftp.tftpBlkSize ≠ 0)) := by
  refine ⟨fun h hplain => ?_, fun h hnone hall => ?_, fun hs hok => ?_⟩
  · rw [tftpHandler_blkSize s u h]
    exact hplain.negotiated (by omega) _
  · refine plain_of_negotiated hnone fun b => ?_
    have hb : OackHandled { s with tftp.tftpBlkSize := b }.tftp u :=
      ⟨h.port, h.server, h.long, h.opcode⟩
    rw [← tftpHandler_blkSize _ u hb]
    exact hall b
  · exact (netLoop_blkSize hs.blkSize_ne_zero hok).mono (fun _ h => h.1) (fun _ _ h => h)


def oackPayload (value : List UInt8) : List UInt8 := [0, 6] ++ encode 0 [ascii "blksize", value]

def oackCall (value : List UInt8) : UdpCall :=
  sampleCall (stringToIp (ascii "10.0.0.128")) 1024 (oackPayload value)

theorem oackPlain_one (num : Numeral) (hmin : 8 ≤ num.value) (hmax : num.value ≤ tftpBlkSizeOption) :
    OackPlain (encode 0 [ascii "blksize", num.digits]) := by
  have hnul (f : List UInt8) (hf : f ∈ [ascii "blksize", num.digits]) : (0 : UInt8) ∉ f := by
    rcases List.mem_cons.mp hf with rfl | hf
    · decide
    · rw [List.mem_singleton.mp hf]
      exact fun h0 => absurd (num.all_digits 0 h0) (by decide)
  have hdecode : decode 0 (encode 0 [ascii "blksize", num.digits]) =
      ([ascii "blksize", num.digits], []) := by
    have hfields := decode_encode hnul []
    rwa [List.append_nil] at hfields
  refine ⟨fun before f after hnamed => ?_, fun v w hv hw => ?_⟩
  · have hfields := hnamed.fields
    have hbehind := hnamed.behind
    rw [hdecode] at hfields hbehind
    cases before with
    | nil =>
      obtain ⟨rfl, rfl⟩ := List.cons.inj hfields
      exact ⟨rfl, rfl, num, rfl, hmin, hmax⟩
    | cons b before =>
      cases before with
      | nil =>
        obtain ⟨rfl, rfl⟩ := List.cons.inj (List.cons.inj hfields).2
        simp at hbehind
      | cons b' before => simp at hfields
  · have hvalue {v : Nat} (hv : Granted (encode 0 [ascii "blksize", num.digits]) v) :
        v = num.value := by
      obtain ⟨num', hmem, hvalue, -⟩ := hv
      rw [hdecode] at hmem
      simp only [pairs, List.mem_singleton, Prod.mk.injEq, true_and] at hmem
      rw [← hvalue, Numeral.value, hmem, Numeral.value]
    rw [hvalue hv, hvalue hw]

theorem oackCall_handled {value : List UInt8} (h : be16 (oackCall value).pkt 0 = tftpOACK) :
    OackHandled requestingBoard.tftp (oackCall value) where
  port := rfl
  server := Or.inl (by decide +kernel)
  long := by simp [oackCall, sampleCall, oackPayload]
  opcode := h

theorem oackCall_plain :
    OackPlain (bytes (shift (oackCall (ascii "1024")).pkt 2) ((oackCall (ascii "1024")).len - 2)) := by
  have hpayload : bytes (shift (oackCall (ascii "1024")).pkt 2)
      ((oackCall (ascii "1024")).len - 2) = encode 0 [ascii "blksize", ascii "1024"] := by
    decide +kernel
  rw [hpayload]
  exact oackPlain_one ⟨ascii "1024", by decide, by decide +kernel⟩ (by decide +kernel)
    (by decide +kernel)

def oackFrame : LoopInput :=
  .frame (sampleFrame (stringToIp (ascii "10.0.0.128")) 1024 (oackPayload (ascii "1024"))) 64

theorem oackFrame_plain : OackStep (.running requestingBoard) oackFrame := by
  intro ip n u hdecode _ _
  have hcall : netDecode requestingBoard.cfg (sampleFrame (stringToIp (ascii "10.0.0.128")) 1024
      (oackPayload (ascii "1024"))) 64 = .udp 14 43 (oackCall (ascii "1024")) := rfl
  rw [hcall] at hdecode
  cases hdecode
  exact oackCall_plain

theorem blkSize_negotiated_1024 :
    Negotiated (bytes (shift (oackCall (ascii "1024")).pkt 2) ((oackCall (ascii "1024")).len - 2))
        requestingBoard.tftp.tftpBlkSize
        (tftpHandler requestingBoard (oackCall (ascii "1024")).pkt 1024
          (stringToIp (ascii "10.0.0.128")) 32768 (oackCall (ascii "1024")).len).tftp.tftpBlkSize ∧
      (netLoop .tftpget sampleBoard [oackFrame, .poll 0]).All
        (fun t => t.tftp.tftpBlkSize ≠ 0) (fun _ t => t.tftp.tftpBlkSize ≠ 0) := by
  have h := blkSize_negotiated requestingBoard (oackCall (ascii "1024")) .tftpget []
    (by decide +kernel)
  have hrun := (blkSize_negotiated sampleBoard (oackCall (ascii "1024")) .tftpget
    [oackFrame, .poll 0] (by decide +kernel)).2.2
  exact ⟨h.1 (oackCall_handled (by decide +kernel)) oackCall_plain,
    hrun (.boot _ _ _ _) ⟨oackFrame_plain, trivial, trivial⟩⟩

theorem blkSize_zero : ¬∀ (s : Net) (u : UdpCall), u.len < 4294967296 → OackHandled s.tftp u →
    Negotiated (bytes (shift u.pkt 2) (u.len - 2)) s.tftp.tftpBlkSize
      (tftpHandler s u.pkt u.dport u.sip u.sport u.len).tftp.tftpBlkSize := by
  intro h
  have hhandled : OackHandled requestingBoard.tftp (oackCall (ascii "0")) :=
    oackCall_handled (by decide +kernel)
  have hnegotiated := h requestingBoard (oackCall (ascii "0")) (by decide +kernel) hhandled
  have hzero : (tftpHandler requestingBoard (oackCall (ascii "0")).pkt
      (oackCall (ascii "0")).dport (oackCall (ascii "0")).sip (oackCall (ascii "0")).sport
      (oackCall (ascii "0")).len).tftp.tftpBlkSize = 0 := by
    rw [tftpHandler_blkSize _ _ hhandled]
    decide +kernel
  exact hnegotiated.ne_zero (by decide +kernel) hzero

end NonOsLite
