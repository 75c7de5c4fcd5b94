import NonOsLite.Net.Acceptance

namespace NonOsLite
open ByteBuf OnesComplement

structure EchoAnswer (c : Config) (inpkt pkt : Buf) (hdr : Nat) : Prop where
  etherDest : readEther pkt 0 = readEther inpkt 6
  etherSource : readEther pkt 6 = c.netOurEther
  link : ∀ i, 12 ≤ i → i < hdr → pkt i = inpkt i
  source : netReadIP pkt (hdr + 12) = c.netOurIP
  dest : netReadIP pkt (hdr + 16) = netReadIP inpkt (hdr + 12)
  ipCksum : Verifies (shift pkt hdr) (ipHdrSize / 2)
  type : pkt (hdr + ipHdrSize) = icmpEchoReply
  code : pkt (hdr + ipHdrSize + 1) = inpkt (hdr + ipHdrSize + 1)
  data : ∀ i, hdr + ipHdrSize + 4 ≤ i → i < hdr + ipLen inpkt hdr → pkt i = inpkt i
  icmpCksum : VerifiesBytes (shift pkt (hdr + ipHdrSize)) (ipLen inpkt hdr - ipHdrSize)

def EchoAnswered (s : Net) (inpkt : Buf) (len hdr : Nat) : Prop :=
  ∃ pkt, netReceive s inpkt len = netSendPacket s pkt (hdr + ipLen inpkt hdr : Nat) ∧
    EchoAnswer s.cfg inpkt pkt hdr

variable {s : Net} {c : Config} {inpkt et p q : Buf} {len hdr ip i m off off' : Nat}
  {n : Int} {tag : Option Nat} {addr : Ether}

theorem echoBuf_keep (h : i < ip + 6 ∨ i = ip + ipHdrSize + 1 ∨ ip + ipHdrSize + 4 ≤ i) :
    echoBuf c et ip m i = et i := by
  simp only [ipHdrSize] at h
  simp only [echoBuf, fillIcmpCksum, echoIcmp, fillIpCksum, echoIp, netWriteIP, putLe16, putLe32,
    ipHdrSize]
  rcases h with h | h | h
  · repeat rw [store_of_lt (by omega)]
  · subst h
    rw [store_of_lt (by omega), store_of_lt (by omega)]
    repeat rw [store_of_ge (by simp only [List.length_cons, List.length_nil, bytes_length]; omega)]
  · repeat rw [store_of_ge (by simp only [List.length_cons, List.length_nil, bytes_length]; omega)]

theorem netReadIP_congr (h : ∀ k < 4, p (off + k) = q (off' + k)) :
    netReadIP p off = netReadIP q off' := by
  have h0 := h 0 (by decide)
  have h3 := h 3 (by decide)
  simp only [Nat.add_zero] at h0
  simp only [netReadIP, le32, le16, h0, h 1 (by decide), h 2 (by decide), Nat.add_assoc,
    Nat.reduceAdd, h3]

theorem netReadIP_netWriteIP (p : Buf) (off : Nat) (a : IPaddr) :
    netReadIP (netWriteIP p off a) off = a := by
  rw [netReadIP, netWriteIP, le32_putLe32 a.toNat_lt]
  exact UInt32.ofNat_toNat

theorem readEther_congr (h : ∀ k < 6, p (off + k) = q (off' + k)) :
    readEther p off = readEther q off' := by
  ext i hi
  simp only [readEther, Vector.getElem_ofFn]
  rw [h i hi]

theorem readEther_putEther (p : Buf) (off : Nat) (e : Ether) :
    readEther (putEther p off e) off = e := by
  ext i hi
  simp only [readEther, Vector.getElem_ofFn]
  rw [putEther, store_inside _ _ _ (by simpa using hi)]
  simp [hi]

theorem LinkIp.netUpdateEther (h : LinkIp inpkt hdr tag) :
    netUpdateEther c inpkt addr protIP =
      (putEther (putEther inpkt 0 addr) 6 c.netOurEther, hdr) := by
  have hkeep (off : Nat) (hoff : 12 ≤ off) :
      be16 (putEther (putEther inpkt 0 addr) 6 c.netOurEther) off = be16 inpkt off := by
    have hbyte (j : Nat) (hj : 12 ≤ j) :
        putEther (putEther inpkt 0 addr) 6 c.netOurEther j = inpkt j := by
      rw [putEther, store_of_ge (by simpa using hj), putEther, store_of_ge (by simp; omega)]
    rw [be16, be16, hbyte _ hoff, hbyte _ (by omega)]
  generalize hp : putEther (putEther inpkt 0 addr) 6 c.netOurEther = p at hkeep ⊢
  have hput {off : Nat} (hoff : 12 ≤ off) (hproto : be16 inpkt off = protIP) :
      putBe16 p off protIP = p := by
    have hself := putBe16_be16 p off
    rwa [hkeep off hoff, hproto] at hself
  unfold NonOsLite.netUpdateEther
  extract_lets et₁ et₂ protlen
  have het : et₂ = p := hp
  have hprotlen : protlen = be16 inpkt 12 := by
    rw [← hkeep 12 (Nat.le_refl _), ← het]
  rw [hprotlen, het]
  cases h with
  | ethernetII hproto =>
    rw [if_neg (by rw [hproto]; decide), if_pos (by rw [hproto]; decide),
      hput (Nat.le_refl _) hproto]
  | snap h802 hproto =>
    have hvlan : be16 inpkt 12 ≠ protVLAN := by
      intro heq
      rw [heq] at h802
      exact absurd h802 (by decide)
    rw [if_neg hvlan, if_neg (by omega), hput (by decide) hproto]
  | vlan hvlan hproto => rw [if_pos hvlan, hput (by decide) hproto]

theorem echoBuf_ip (h : i < ip + ipHdrSize) :
    echoBuf c et ip m i = fillIpCksum (echoIp c et ip) ip i := by
  simp only [ipHdrSize] at h
  simp only [echoBuf, fillIcmpCksum, echoIcmp, putLe16, ipHdrSize]
  rw [store_of_lt (by omega), store_of_lt (by omega), store_of_lt (by omega)]

theorem echoBuf_ipCksum (c : Config) (et : Buf) (ip m : Nat) :
    Verifies (shift (echoBuf c et ip m) ip) (ipHdrSize / 2) := by
  have hzero : le16 (shift (echoIp c et ip) ip) (2 * 5) = 0 := by
    have hbyte (k : Nat) (hk : k < 2) : echoIp c et ip (ip + 10 + k) = 0 := by
      simp only [echoIp, netWriteIP, putLe32, putLe16]
      rw [store_of_lt (by omega), store_of_lt (by omega), store_of_ge (by simp; omega),
        store_inside _ _ _ (by simpa using hk)]
      interval_cases k <;> rfl
    rw [le16_shift, le16, hbyte 1 (by decide), show ip + 2 * 5 = ip + 10 + 0 by rfl,
      hbyte 0 (by decide)]
    rfl
  have hok : Verifies (putLe16 (shift (echoIp c et ip) ip) (2 * 5)
      (65535 - netCksum (shift (echoIp c et ip) ip) 10)) 10 :=
    (netCksumOk_iff (by decide)).mp (netCksumOk_putLe16 (by decide) (by decide) hzero)
  refine hok.congr ?_
  intro i hi
  rw [shift_apply, echoBuf_ip (Nat.add_lt_add_left hi ip)]
  exact (congrFun (shift_store (n := ip)) i).symm

theorem echoBuf_icmpCksum (hmin : 28 ≤ m) (hmax : m < 65536) :
    Verifies (shift (echoBuf c et ip (icmpCksumLen m)) (ip + ipHdrSize)) ((m - ipHdrSize) / 2) := by
  have hlen : icmpCksumLen m = (m - ipHdrSize) / 2 := by
    rw [icmpCksumLen, toU32_ofNat (by omega), sub32_of_le (by simp only [ipHdrSize]; omega)]
  rw [← hlen]
  simp only [echoBuf]
  generalize hp : echoIcmp (fillIpCksum (echoIp c et ip) ip) ip = p
  have hzero : le16 (shift p (ip + ipHdrSize)) (2 * 1) = 0 := by
    rw [le16_shift, ← hp, echoIcmp]
    exact le16_putLe16 (by decide)
  have hok := netCksumOk_putLe16 (p := shift p (ip + ipHdrSize)) (n := icmpCksumLen m) (k := 1)
    (by rw [hlen]; omega) (by rw [hlen]; simp only [ipHdrSize]; omega) hzero
  rw [fillIcmpCksum, putLe16, shift_store]
  exact (netCksumOk_iff (by rw [hlen]; omega)).mp hok

theorem putEther_keep {e e' : Ether} (h : 12 ≤ i) : putEther (putEther p 0 e) 6 e' i = p i := by
  rw [putEther, store_of_ge (by simpa using h), putEther, store_of_ge (by simp; omega)]

theorem LinkIp.echoAnswer (h : LinkIp inpkt hdr tag) (hmin : 28 ≤ ipLen inpkt hdr)
    (hp : putEther (putEther inpkt 0 (readEther inpkt 6)) 6 c.netOurEther = p)
    (hcksum : VerifiesBytes
      (shift (echoBuf c p hdr (icmpCksumLen (ipLen inpkt hdr))) (hdr + ipHdrSize))
      (ipLen inpkt hdr - ipHdrSize)) :
    EchoAnswer c inpkt (echoBuf c p hdr (icmpCksumLen (ipLen inpkt hdr))) hdr := by
  have hsize : 12 ≤ hdr := by cases h <;> decide
  have hrest (i : Nat) (hi : 12 ≤ i) : p i = inpkt i := hp ▸ putEther_keep hi
  refine {
    etherDest := ?_
    etherSource := ?_
    link := ?_
    source := ?_
    dest := ?_
    ipCksum := echoBuf_ipCksum _ _ _ _
    type := ?_
    code := ?_
    data := ?_
    icmpCksum := hcksum }
  · calc readEther (echoBuf c p hdr (icmpCksumLen (ipLen inpkt hdr))) 0
        = readEther p 0 := readEther_congr fun k hk => echoBuf_keep (Or.inl (by omega))
      _ = readEther (putEther inpkt 0 (readEther inpkt 6)) 0 := by
          rw [← hp]
          exact readEther_congr fun k hk => store_of_lt (by omega)
      _ = readEther inpkt 6 := readEther_putEther _ _ _
  · calc readEther (echoBuf c p hdr (icmpCksumLen (ipLen inpkt hdr))) 6
        = readEther p 6 := readEther_congr fun k hk => echoBuf_keep (Or.inl (by omega))
      _ = c.netOurEther := by
          rw [← hp]
          exact readEther_putEther _ _ _
  · intro i hi hlt
    rw [echoBuf_keep (Or.inl (by omega)), hrest i hi]
  · calc netReadIP (echoBuf c p hdr (icmpCksumLen (ipLen inpkt hdr))) (hdr + 12)
        = netReadIP (echoIp c p hdr) (hdr + 12) := by
          refine netReadIP_congr fun k hk => ?_
          rw [echoBuf_ip (by simp only [ipHdrSize]; omega), fillIpCksum, putLe16,
            store_of_ge (by simp only [List.length_cons, List.length_nil]; omega)]
      _ = c.netOurIP := netReadIP_netWriteIP _ _ _
  · refine netReadIP_congr fun k hk => ?_
    rw [echoBuf_ip (by simp only [ipHdrSize]; omega), fillIpCksum, putLe16,
      store_of_ge (by simp only [List.length_cons, List.length_nil]; omega), echoIp, netWriteIP,
      putLe32, store_of_ge (by simp only [List.length_cons, List.length_nil]; omega),
      store_inside _ _ _ (by simpa using hk), bytes_getD hk, shift_apply, putLe16,
      store_of_ge (by simp only [List.length_cons, List.length_nil]; omega), putLe16,
      store_of_ge (by simp only [List.length_cons, List.length_nil]; omega), hrest _ (by omega)]
  · rw [echoBuf, fillIcmpCksum, putLe16, store_of_lt (by omega), echoIcmp, putLe16,
      store_of_lt (by omega)]
    exact store_inside _ _ [icmpEchoReply] (i := 0) (by decide)
  · rw [echoBuf_keep (Or.inr (Or.inl rfl)), hrest _ (by omega)]
  · intro i hi _
    rw [echoBuf_keep (Or.inr (Or.inr hi)), hrest i (by omega)]

def echoOf (c : Config) (inpkt : Buf) (hdr : Nat) : Buf :=
  echoBuf c (putEther (putEther inpkt 0 (readEther inpkt 6)) 6 c.netOurEther) hdr
    (icmpCksumLen (ipLen inpkt hdr))

theorem netReceive_echo (hlen : len < 2147483648)
    (hdec : netDecode s.cfg inpkt len = .icmp hdr n)
    (hreq : inpkt (hdr + ipHdrSize) = icmpEchoRequest) :
    ∃ tag, LinkIp inpkt hdr tag ∧ netReceive s inpkt len =
      netSendPacket s (echoOf s.cfg inpkt hdr) (hdr + ipLen inpkt hdr : Nat) := by
  have hrecv := netReceive_request hlen hdec hreq
  rcases netDecode_linkIp s.cfg inpkt hlen with hd | ⟨_, _, hd⟩ | ⟨hdr', tag, hlink, -, hd⟩
  · rw [hd] at hdec
    cases hdec
  · rw [hd] at hdec
    cases hdec
  · rcases netIp_cases s.cfg inpkt hdr' ((len : Int) - hdr') with hip | ⟨-, hip | hip⟩
    all_goals
      rw [hd, hip] at hdec
      cases hdec
    refine ⟨tag, hlink, ?_⟩
    rw [hrecv, hlink.netUpdateEther]
    rfl

theorem echoAnswered_iff_verifies (hlen : len < 2147483648)
    (hdec : netDecode s.cfg inpkt len = .icmp hdr n)
    (hreq : inpkt (hdr + ipHdrSize) = icmpEchoRequest) (hmin : ipIcmpHdrSize ≤ ipLen inpkt hdr) :
    EchoAnswered s inpkt len hdr ↔
      VerifiesBytes (shift (echoOf s.cfg inpkt hdr) (hdr + ipHdrSize))
        (ipLen inpkt hdr - ipHdrSize) := by
  obtain ⟨tag, hlink, hrecv⟩ := netReceive_echo hlen hdec hreq
  have hmin' : 28 ≤ ipLen inpkt hdr := hmin
  constructor
  · rintro ⟨pkt, hsend, hanswer⟩
    have hframe := List.cons.inj (congrArg Net.log (hrecv.symm.trans hsend))
    have hbytes := bytes_inj (Event.frame.inj hframe.1)
    refine hanswer.icmpCksum.congr ?_
    intro i hi
    refine (hbytes _ ?_).symm
    simp only [ipHdrSize] at hi ⊢
    split <;> omega
  · intro hcksum
    exact ⟨_, hrecv, hlink.echoAnswer hmin' rfl hcksum⟩

theorem echo_answered_iff (s : Net) (inpkt : Buf) (len hdr : Nat) (n : Int)
    (hlen : len < 2147483648) (hdec : netDecode s.cfg inpkt len = .icmp hdr n)
    (hreq : inpkt (hdr + ipHdrSize) = icmpEchoRequest) (hmin : ipIcmpHdrSize ≤ ipLen inpkt hdr) :
    EchoAnswered s inpkt len hdr ↔
      ipLen inpkt hdr % 2 = 0 ∨ inpkt (hdr + ipLen inpkt hdr - 1) = 0 := by
  obtain ⟨tag, hlink, -⟩ := netReceive_echo hlen hdec hreq
  have hmin' : 28 ≤ ipLen inpkt hdr := hmin
  have hsize : 12 ≤ hdr := by cases hlink <;> decide
  have hlast : shift (echoOf s.cfg inpkt hdr) (hdr + ipHdrSize)
      (ipLen inpkt hdr - ipHdrSize - 1) = inpkt (hdr + ipLen inpkt hdr - 1) := by
    have hpos : hdr + ipHdrSize + (ipLen inpkt hdr - ipHdrSize - 1) = hdr + ipLen inpkt hdr - 1 := by
      simp only [ipHdrSize]
      omega
    rw [shift_apply, hpos, echoOf,
      echoBuf_keep (Or.inr (Or.inr (by simp only [ipHdrSize]; omega))), putEther_keep (by omega)]
  have hparity : (ipLen inpkt hdr - ipHdrSize) % 2 = ipLen inpkt hdr % 2 := by
    simp only [ipHdrSize]
    omega
  have hhalves : Verifies (shift (echoOf s.cfg inpkt hdr) (hdr + ipHdrSize))
      ((ipLen inpkt hdr - ipHdrSize) / 2) := echoBuf_icmpCksum hmin' (be16_lt _ _)
  rw [echoAnswered_iff_verifies hlen hdec hreq hmin, verifiesBytes_iff hhalves, hlast, hparity]

def sampleEchoRequest (data : List UInt8) : Buf :=
  mapFrom (putBe16 (fun _ => 0) 12 protIP) etherHdrSize (fun _ =>
    let pkt := store (setIcmpHeader sampleConfig 0 7 (fun _ => 0) netBroadcastIP) ipIcmpHdrSize data
    let pkt := putLe16 (putBe16 pkt 2 (ipIcmpHdrSize + data.length)) 10 0
    putLe16 pkt 10 (65535 - netCksum pkt (ipHdrSize / 2)))

theorem echo_answered_two_bytes : EchoAnswered sampleBoard (sampleEchoRequest [1, 2]) 64 14 :=
  (echo_answered_iff sampleBoard (sampleEchoRequest [1, 2]) 64 14 30 (by decide) rfl
    (by decide +kernel) (by decide +kernel)).mpr (Or.inl (by decide +kernel))

theorem echo_unanswered : ¬∀ (s : Net) (inpkt : Buf) (len hdr : Nat) (n : Int),
    len < 2147483648 → netDecode s.cfg inpkt len = .icmp hdr n →
    inpkt (hdr + ipHdrSize) = icmpEchoRequest → ipIcmpHdrSize ≤ ipLen inpkt hdr →
    EchoAnswered s inpkt len hdr := by
  intro h
  have hanswer := h sampleBoard (sampleEchoRequest [1]) 64 14 29 (by decide) rfl
    (by decide +kernel) (by decide +kernel)
  have hcksum := (echoAnswered_iff_verifies (by decide) rfl (by decide +kernel)
    (by decide +kernel)).mp hanswer
  rw [VerifiesBytes, Verifies] at hcksum
  exact absurd hcksum (by decide +kernel)

end NonOsLite
