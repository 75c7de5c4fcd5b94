import NonOsLite.Lib.Machine
import NonOsLite.Net.DefragHoles

namespace NonOsLite
open ByteBuf LinkedTable InputMachine

-- An IP header and what was received from it on; a whole packet is given away to be handled.
structure Arrival where
  ourIP : IPaddr
  ip : Buf
  len : Int
  handled : Buf → Buf

def PassesChecks (a : Arrival) : Prop :=
  ipUdpHdrSize ≤ toU32 a.len ∧ (be16 a.ip 2 : Int) ≤ a.len ∧ a.ip 0 &&& 0xf0 = 0x40 ∧
    a.ip 0 &&& 0x0f ≤ 0x05 ∧ netCksumOk a.ip (ipHdrSize / 2) ∧
    (a.ourIP = 0 ∨ netReadIP a.ip 16 = a.ourIP ∨ netReadIP a.ip 16 = netBroadcastIP) ∧
    be16 a.ip 6 &&& (ipOffs ||| ipFlagsMfrag) ≠ 0

instance (a : Arrival) : Decidable (PassesChecks a) :=
  inferInstanceAs (Decidable (_ ∧ _ ∧ _ ∧ _ ∧ _ ∧ _ ∧ _))

structure Reassembly where
  defrag : Defrag
  received : List Arrival
  assembled : Bool

def Reassembly.init : Reassembly := ⟨⟨fun _ => 0, 0, 0⟩, [], false⟩

-- There are no more holes than this: each has a last byte of its own, 8 bytes apart.
def holeFuel : Nat := 8192

def restarts (size : Nat) (s : Defrag) (ip : Buf) : Bool := !tooFar size ip && newPacket s ip

def receiveFragment (size : Nat) (r : Reassembly) (a : Arrival) : Reassembly :=
  if PassesChecks a then
    match netDefragment size holeFuel r.defrag a.ip a.len.toNat with
    | none => { r with received := a :: r.received }
    | some (s, none) => ⟨s, a :: r.received, r.assembled && !restarts size r.defrag a.ip⟩
    | some (s, some _) => ⟨{ s with pktBuff := a.handled s.pktBuff }, a :: r.received, true⟩
  else r

def HasByte (f : Arrival) (i : Nat) : Prop :=
  fragStart f.ip ≤ i ∧ (i : Int) < fragStart f.ip + fragLen f.ip

def ByteOf (fs : List Arrival) (b : Buf) (i : Nat) : Prop :=
  ∃ f ∈ fs, be16 f.ip 4 = be16 b 4 ∧ HasByte f i ∧
    b (ipHdrSize + i) = f.ip (ipHdrSize + (i - fragStart f.ip))

def FragmentRight (size : Nat) (r : Reassembly) (a : Arrival) : Prop :=
  PassesChecks a → ∃ s out,
    (∀ fuel, holeFuel ≤ fuel →
      netDefragment size fuel r.defrag a.ip a.len.toNat = some (s, out)) ∧
    ∀ total ∈ out, total = s.totalLen + ipHdrSize ∧
      ∀ i < s.totalLen, ByteOf (a :: r.received) s.pktBuff i

-- What the code takes for granted of a fragment that overlaps the hole h.
def HoleFits (size : Nat) (s : Defrag) (ip : Buf) (h : Nat) : Prop :=
  0 ≤ fragLen ip ∧
    (be16 ip 6 &&& ipFlagsMfrag = 0 →
      fragStart ip ≤ s.totalLen ∧ fragStart ip + fragLen ip ≤ 0xffff) ∧
    (be16 ip 6 &&& ipFlagsMfrag ≠ 0 →
      fragStart ip + fragLen ip < (descriptors s.pktBuff h).val →
        fragLen ip % 8 = 0 ∧ ipHdrSize + (fragStart ip + fragLen ip) + 8 ≤ size) ∧
    ((descriptors s.pktBuff h).next = 0 ∨
      fragStart ip + fragLen ip ≤ 8 * (descriptors s.pktBuff h).next) ∧
    (fragOffset8 ip ≤ h → h = s.firstHole ∨ (descriptors s.pktBuff h).prev ≠ 0)

instance (size : Nat) (s : Defrag) (ip : Buf) (h : Nat) : Decidable (HoleFits size s ip h) :=
  inferInstanceAs (Decidable (_ ∧ _ ∧ _ ∧ _ ∧ _))

def FragmentFits (size : Nat) (r : Reassembly) (a : Arrival) : Prop :=
  PassesChecks a → tooFar size a.ip = false →
    (r.assembled → newPacket r.defrag a.ip) ∧
    ∀ s ∈ restartIfNew size a.ip a.len.toNat r.defrag,
      ∀ h ∈ (findHole size s.pktBuff (fragStart a.ip) holeFuel s.firstHole).join,
        fragOffset8 a.ip + (fragLen a.ip + 7).tdiv 8 ≤ h ∨ HoleFits size s a.ip h

instance (size : Nat) (r : Reassembly) (a : Arrival) : Decidable (FragmentFits size r a) :=
  inferInstanceAs (Decidable (_ → _ → _ ∧ _))

def Aligned (hs : Chain) : Prop := ∀ h ∈ hs, 8 ∣ h.2 ∨ h.2 = 65535

structure Assembling (size : Nat) (s : Defrag) (fs : List Arrival) (hs : Chain) : Prop where
  list : HoleList size s hs
  ne : hs ≠ []
  aligned : Aligned hs
  total : s.totalLen ≤ 65535
  bytes : ∀ i < s.totalLen, InHoles hs i ∨ ByteOf fs s.pktBuff i

variable {size k l m offset8 stop i n : Nat} {b b' ip : Buf} {S : Nat → Prop}
  {hs pre post : Chain} {s : Defrag} {fs : List Arrival} {a : Arrival}

theorem inHoles_append : InHoles (pre ++ post) i ↔ InHoles pre i ∨ InHoles post i := by
  simp only [InHoles, List.mem_append, or_and_right, exists_or]

theorem inHoles_single : InHoles [(k, l)] i ↔ 8 * k ≤ i ∧ i < l := by
  simp only [InHoles, List.mem_singleton, exists_eq_left]

theorem inHoles_hole :
    InHoles (pre ++ (k, l) :: post) i ↔ InHoles pre i ∨ (8 * k ≤ i ∧ i < l) ∨ InHoles post i := by
  rw [inHoles_append, ← List.singleton_append, inHoles_append, inHoles_single]

theorem not_inHoles_nil : ¬InHoles [] i := by
  rintro ⟨h, hh, -⟩
  cases hh

theorem inHoles_carve (hk : 8 * k ≤ i) (hl : i < l) (hout : i < offset8 * 8 ∨ stop ≤ i) :
    InHoles (carve k l offset8 stop) i := by
  rw [carve, inHoles_append]
  rcases hout with hleft | hright
  · rw [if_pos (by omega), inHoles_single]
    exact .inl ⟨hk, hleft⟩
  · rw [if_pos (Nat.lt_of_le_of_lt hright hl), inHoles_single]
    exact .inr ⟨by omega, hl⟩

theorem ByteOf.cons (h : ByteOf fs b i) (a : Arrival) : ByteOf (a :: fs) b i := by
  obtain ⟨f, hf, hbyte⟩ := h
  exact ⟨f, List.mem_cons_of_mem a hf, hbyte⟩

theorem ByteOf.congr (h : ByteOf fs b i) (hid : be16 b' 4 = be16 b 4)
    (hbyte : b' (ipHdrSize + i) = b (ipHdrSize + i)) : ByteOf fs b' i := by
  obtain ⟨f, hf, hfid, hhas, heq⟩ := h
  exact ⟨f, hf, hfid.trans hid.symm, hhas, hbyte.trans heq⟩

theorem descriptor_inHole (hkm : k ≤ m) (hml : 8 * m < l) (hal : 8 ∣ l ∨ l = 65535)
    (hm : 8 * m ≤ i) (hi : i < 8 * m + 8) (hi16 : i < 65535) : 8 * k ≤ i ∧ i < l := by
  refine ⟨by omega, ?_⟩
  rcases hal with ⟨c, rfl⟩ | rfl
  · omega
  · exact hi16

theorem Aligned.inHoles (hal : Aligned hs) (hspaced : Spaced hs) (hm : m ∈ hs.indices)
    (hle : 8 * m ≤ i) (hi : i < 8 * m + 8) (hi16 : i < 65535) : InHoles hs i := by
  obtain ⟨h, hh, rfl⟩ := List.mem_map.mp hm
  exact ⟨h, hh, descriptor_inHole le_rfl (hspaced.nonempty h hh) (hal h hh) hle hi hi16⟩

theorem written_inHoles (hlist : HoleList size s (pre ++ (k, l) :: post))
    (hal : Aligned (pre ++ (k, l) :: post)) (hkm : k ≤ m) (hml : 8 * m < l) {j : Nat}
    (hj : Written pre k m post j) (hle : 8 * j ≤ i) (hi : i < 8 * j + 8) (hi16 : i < 65535) :
    InHoles (pre ++ (k, l) :: post) i := by
  have hhole : 8 ∣ l ∨ l = 65535 := hal (k, l) mem_hole
  rcases hj with hj | rfl | rfl | hj
  · exact hal.inHoles hlist.spaced (mem_of_pre hj) hle hi hi16
  · have hin := descriptor_inHole le_rfl hlist.hole_lt hhole hle hi hi16
    exact inHoles_hole.mpr (.inr (.inl hin))
  · have hin := descriptor_inHole hkm hml hhole hle hi hi16
    exact inHoles_hole.mpr (.inr (.inl hin))
  · exact hal.inHoles hlist.spaced (mem_of_post hj) hle hi hi16

theorem Frame.payload (h : Frame S b b') (hout : ∀ j, S j → ¬(8 * j ≤ i ∧ i < 8 * j + 8)) :
    b' (ipHdrSize + i) = b (ipHdrSize + i) := by
  refine h _ fun j hj hin => hout j hj ?_
  rw [InDesc, holeAddr] at hin
  omega

theorem Frame.header (h : Frame S b b') (hi : i < ipHdrSize) : b' i = b i := by
  refine h _ fun j _ hin => ?_
  rw [InDesc, holeAddr] at hin
  omega

theorem Frame.packetId (h : Frame S b b') : be16 b' 4 = be16 b 4 := by
  rw [be16, be16, h.header (by decide), h.header (by decide)]

theorem HoleList.congr (h : HoleList size s hs)
    (hb : ∀ j ∈ hs.indices, descriptors b j = descriptors s.pktBuff j) (total : Nat) :
    HoleList size ⟨b, s.firstHole, total⟩ hs :=
  ⟨h.first, h.links.congr hb, h.spaced, h.inside⟩

theorem HoleList.copy (h : HoleList size s hs) (src : Buf) (len : Nat)
    (hout : ∀ j ∈ hs.indices, 8 * j + 8 ≤ 8 * offset8 ∨ 8 * offset8 + len ≤ 8 * j) (total : Nat) :
    HoleList size ⟨copy s.pktBuff (holeAddr offset8) src len, s.firstHole, total⟩ hs := by
  refine h.congr (fun j hj => descriptors_congr fun x hx => ?_) total
  rw [InDesc, holeAddr] at hx
  rcases hout j hj with hbefore | hafter
  · exact copy_of_lt (by rw [holeAddr]; omega)
  · exact copy_of_ge (by rw [holeAddr]; omega)

theorem findHole_mono {start fuel fuel' : Nat} {r : Option Nat} (hle : fuel ≤ fuel') :
    ∀ h, findHole size b start fuel h = some r → findHole size b start fuel' h = some r := by
  induction fuel generalizing fuel' with
  | zero => exact fun h hnone => by cases hnone
  | succ fuel ih =>
    obtain ⟨fuel', rfl⟩ := Nat.exists_eq_succ_of_ne_zero (Nat.ne_zero_of_lt hle)
    intro h
    rw [findHole, findHole]
    cases readHole size b h lastByte with
    | none => exact id
    | some last =>
      simp only [Option.bind_eq_bind, Option.bind_some]
      split_ifs with hlast
      · cases readHole size b h nextHole with
        | none => exact id
        | some next =>
          simp only [Option.bind_some]
          split_ifs with hnext
          · exact id
          · exact ih (Nat.le_of_succ_le_succ hle) next
      · exact id

structure Cuts (size : Nat) (s : Defrag) (pre : Chain) (k l : Nat) (post : Chain)
    (ipOff offset8 stop : Nat) : Prop where
  before : ∀ c ∈ pre, c.2 < offset8 * 8
  reaches : offset8 * 8 ≤ l
  start_le : offset8 * 8 ≤ stop
  overlaps : 8 * k < stop
  last : ipOff &&& ipFlagsMfrag = 0 → offset8 * 8 ≤ s.totalLen ∧ stop < 65536
  more : ipOff &&& ipFlagsMfrag ≠ 0 → stop < l → 8 ∣ stop ∧ ipHdrSize + stop + 8 ≤ size
  behind : ∀ j ∈ post.indices, stop ≤ 8 * j
  linked : offset8 ≤ k → pre = [] ∨ lastIdx 0 pre ≠ 0

structure Left (size : Nat) (s : Defrag) (fs : List Arrival) (offset8 stop : Nat) (hs : Chain)
    (done : Bool) (s' : Defrag) : Prop where
  packetId : be16 s'.pktBuff 4 = be16 s.pktBuff 4
  total : s'.totalLen ≤ 65535
  aligned : Aligned hs
  apart : ∀ j ∈ hs.indices, 8 * j + 8 ≤ 8 * offset8 ∨ stop ≤ 8 * j
  finished : done = true → hs = []
  list : done = false → hs ≠ [] ∧ HoleList size s' hs
  bytes : ∀ i < s'.totalLen, i < offset8 * 8 ∨ stop ≤ i →
    InHoles hs i ∨ ByteOf fs s'.pktBuff i

inductive Ended (s : Defrag) (l ipOff stop : Nat) (s' : Defrag) : Nat → Prop
  | last (hmf : ipOff &&& ipFlagsMfrag = 0) (htotal : s'.totalLen = stop) :
    Ended s l ipOff stop s' stop
  | more (hmf : ipOff &&& ipFlagsMfrag ≠ 0) (htotal : s'.totalLen = s.totalLen) :
    Ended s l ipOff stop s' l

theorem Cuts.truncate {ipOff : Nat} (hc : Cuts size s pre k l post ipOff offset8 stop)
    (h : HoleList size s (pre ++ (k, l) :: post)) :
    ∃ s' l', truncateHole size k ipOff stop s = some s' ∧
      Frame (Written pre k k post) s.pktBuff s'.pktBuff ∧
      HoleList size s' (pre ++ (k, l') :: post) ∧ Ended s l ipOff stop s' l' := by
  rw [truncateHole]
  by_cases hmf : ipOff &&& ipFlagsMfrag = 0
  · obtain ⟨-, h16⟩ := hc.last hmf
    obtain ⟨b', hwrite, hframe, hlist⟩ := endHole_spec (m := k) h hc.overlaps h16
      (fun c hmem => hc.behind _ (List.mem_map_of_mem hmem)) (u16 stop)
    rw [if_pos hmf, hwrite]
    exact ⟨_, stop, rfl, hframe, hlist, .last hmf (Nat.mod_eq_of_lt h16)⟩
  · rw [if_neg hmf]
    exact ⟨s, l, rfl, Frame.refl _ _, h, .more hmf rfl⟩

section Ended

variable {ipOff l' : Nat} {s' : Defrag} (he : Ended s l ipOff stop s' l')
  (hc : Cuts size s pre k l post ipOff offset8 stop)
include he hc

theorem Ended.beyond (hlt : stop < l') :
    l' = l ∧ 8 ∣ stop ∧ ipHdrSize + stop + 8 ≤ size := by
  cases he with
  | last hmf htotal => exact absurd hlt (Nat.lt_irrefl _)
  | more hmf htotal => exact ⟨rfl, hc.more hmf hlt⟩

theorem Ended.reaches : offset8 * 8 ≤ l' := by
  cases he with
  | last hmf htotal => exact hc.start_le
  | more hmf htotal => exact hc.reaches

theorem Ended.total_le (htotal : s.totalLen ≤ 65535) : s'.totalLen ≤ 65535 := by
  cases he with
  | last hmf hstop =>
    rw [hstop]
    exact Nat.le_of_lt_succ (hc.last hmf).2
  | more hmf hsame => rwa [hsame]

theorem Ended.outside (hi : i < s'.totalLen) (hout : i < offset8 * 8 ∨ stop ≤ i) :
    i < s.totalLen ∧ (i < l → i < l') := by
  cases he with
  | last hmf htotal =>
    have hstart := (hc.last hmf).1
    omega
  | more hmf htotal => exact ⟨htotal ▸ hi, id⟩

theorem Ended.newHole_within (hlt : 8 * k < l) : k ≤ newHole k l' stop ∧ 8 * newHole k l' stop < l := by
  have hover := hc.overlaps
  rw [newHole]
  split_ifs with hbeyond
  · obtain ⟨rfl, -⟩ := he.beyond hc hbeyond
    omega
  · exact ⟨le_rfl, hlt⟩

end Ended

theorem aligned_append : Aligned (pre ++ post) ↔ Aligned pre ∧ Aligned post := by
  simp only [Aligned, List.mem_append, or_imp, forall_and]

theorem aligned_single : Aligned [(k, l)] ↔ 8 ∣ l ∨ l = 65535 := by
  simp only [Aligned, List.mem_singleton, forall_eq]

theorem aligned_carve (hal : stop < l → 8 ∣ l ∨ l = 65535) : Aligned (carve k l offset8 stop) := by
  rw [carve, aligned_append]
  constructor
  · split_ifs
    · exact aligned_single.mpr (.inl (Dvd.intro_left offset8 rfl))
    · exact fun _ hh => (List.not_mem_nil hh).elim
  · split_ifs with hlt
    · exact aligned_single.mpr (hal hlt)
    · exact fun _ hh => (List.not_mem_nil hh).elim

theorem carve_apart (hstop : stop < l → 8 ∣ stop) {j : Nat}
    (hj : j ∈ (carve k l offset8 stop).indices) : 8 * j + 8 ≤ 8 * offset8 ∨ stop ≤ 8 * j := by
  rw [carve, indices_append, List.mem_append] at hj
  rcases hj with hj | hj
  · split_ifs at hj with hlt
    · rw [List.mem_singleton.mp hj]
      dsimp only
      omega
    · exact (List.not_mem_nil hj).elim
  · split_ifs at hj with hlt
    · have hdvd := hstop hlt
      rw [List.mem_singleton.mp hj]
      dsimp only
      omega
    · exact (List.not_mem_nil hj).elim

theorem Cuts.apart {ipOff l' : Nat} {s' : Defrag}
    (hc : Cuts size s pre k l post ipOff offset8 stop)
    (h : HoleList size s (pre ++ (k, l) :: post)) (hal : Aligned pre)
    (he : Ended s l ipOff stop s' l') {j : Nat}
    (hj : j ∈ Chain.indices ((pre ++ carve k l' offset8 stop) ++ post)) :
    8 * j + 8 ≤ 8 * offset8 ∨ stop ≤ 8 * j := by
  rw [indices_append, indices_append, List.mem_append, List.mem_append] at hj
  rcases hj with (hj | hj) | hj
  · obtain ⟨c, hmem, rfl⟩ := List.mem_map.mp hj
    have hl16 : l < 65536 := h.last_lt mem_hole
    have hreach := hc.reaches
    have hbefore := hc.before c hmem
    have hne := h.spaced.nonempty c (List.mem_append_left _ hmem)
    rcases hal c hmem with hdvd | hmax
    · omega
    · omega
  · exact carve_apart (fun hlt => (he.beyond hc hlt).2.1) hj
  · exact .inr (hc.behind j hj)

theorem Cuts.fix {ipOff len : Nat}
    (hc : Cuts size s pre k l post ipOff offset8 (offset8 * 8 + len))
    (h : Assembling size s fs (pre ++ (k, l) :: post)) :
    ∃ s₁ done s₂ hs, truncateHole size k ipOff (offset8 * 8 + len) s = some s₁ ∧
      fixHoles size k offset8 len s₁ = some (done, s₂) ∧
      Left size s fs offset8 (offset8 * 8 + len) hs done s₂ := by
  obtain ⟨halpre, halrest⟩ := aligned_append.mp h.aligned
  have halpost : Aligned post := fun c hmem => halrest c (List.mem_cons_of_mem _ hmem)
  obtain ⟨s₁, l', htrunc, hframe₁, hlist₁, hend⟩ := hc.truncate h.list
  obtain ⟨done, s₂, hfix, hfixed⟩ := fixHoles_spec hlist₁ (hend.reaches hc) hc.overlaps hc.linked
    (fun hlt => by
      have hroom := (hend.beyond hc hlt).2.2
      rw [Inside, holeAddr]
      omega)
  have hframe : Frame (Written pre k (newHole k l' (offset8 * 8 + len)) post) s.pktBuff
      s₂.pktBuff := by
    refine (hframe₁.mono fun j hj => ?_).trans hfixed.frame
    rcases hj with hj | hj | hj | hj
    · exact .inl hj
    · exact .inr (.inl hj)
    · exact .inr (.inl hj)
    · exact .inr (.inr (.inr hj))
  obtain ⟨hkm, hml⟩ := hend.newHole_within hc h.list.hole_lt
  have htotal : s₂.totalLen ≤ 65535 := by
    rw [hfixed.total]
    exact hend.total_le hc h.total
  refine ⟨s₁, done, s₂, _, htrunc, hfix, hframe.packetId, htotal, ?_,
    fun j hj => hc.apart h.list halpre hend hj, hfixed.finished, hfixed.left, ?_⟩
  · refine aligned_append.mpr ⟨aligned_append.mpr ⟨halpre, aligned_carve fun hlt => ?_⟩, halpost⟩
    rw [(hend.beyond hc hlt).1]
    exact h.aligned (k, l) mem_hole
  · intro i hi hout
    obtain ⟨hold, hkeeps⟩ := hend.outside hc (hfixed.total ▸ hi) hout
    by_cases hin : InHoles (pre ++ (k, l) :: post) i
    · left
      rw [inHoles_append, inHoles_append]
      rcases inHoles_hole.mp hin with hpre | ⟨hk, hl⟩ | hpost
      · exact .inl (.inl hpre)
      · exact .inl (.inr (inHoles_carve hk (hkeeps hl) hout))
      · exact .inr hpost
    · right
      have hlimit := h.total
      refine ((h.bytes i hold).resolve_left hin).congr hframe.packetId
        (hframe.payload fun j hj hij => hin ?_)
      exact written_inHoles h.list h.aligned hkm hml hj hij.1 hij.2 (by omega)

theorem Left.copied {done : Bool} {s' : Defrag} {len : Nat}
    (h : Left size s fs offset8 (offset8 * 8 + len) hs done s') (hoff : fragOffset8 a.ip = offset8)
    (hlen : fragLen a.ip = len) (hid : be16 s.pktBuff 4 = be16 a.ip 4) :
    ∀ i < s'.totalLen, InHoles hs i ∨
      ByteOf (a :: fs) (copy s'.pktBuff (holeAddr offset8) (shift a.ip ipHdrSize) len) i := by
  intro i hi
  have hsame : be16 (copy s'.pktBuff (holeAddr offset8) (shift a.ip ipHdrSize) len) 4 =
      be16 s'.pktBuff 4 := by
    rw [be16, be16, copy_of_lt (by rw [holeAddr, ipHdrSize]; omega),
      copy_of_lt (by rw [holeAddr, ipHdrSize]; omega)]
  by_cases hout : i < offset8 * 8 ∨ offset8 * 8 + len ≤ i
  · refine (h.bytes i hi hout).imp id fun hbyte => (hbyte.cons a).congr hsame ?_
    rcases hout with hlt | hge
    · exact copy_of_lt (by rw [holeAddr]; omega)
    · exact copy_of_ge (by rw [holeAddr]; omega)
  · have hstart : fragStart a.ip = offset8 * 8 := by rw [fragStart, hoff]
    have hat : ipHdrSize + i = holeAddr offset8 + (i - offset8 * 8) := by
      rw [holeAddr]
      omega
    refine .inr ⟨a, List.mem_cons_self, ?_, ⟨?_, ?_⟩, ?_⟩
    · rw [hsame, h.packetId, hid]
    · omega
    · omega
    · rw [hat, copy_inside _ _ _ (by omega), shift_apply, hstart]

theorem HoleFits.cuts (h : Assembling size s fs (pre ++ (k, l) :: post))
    (hpre : ∀ c ∈ pre, c.2 < fragStart ip) (hle : fragStart ip ≤ l)
    (hover : ¬((fragOffset8 ip : Int) + (fragLen ip + 7).tdiv 8 ≤ k))
    (hfits : HoleFits size s ip k) :
    ∃ len : Nat, fragLen ip = len ∧ Cuts size s pre k l post (be16 ip 6) (fragOffset8 ip)
      (fragOffset8 ip * 8 + len) := by
  obtain ⟨hpos, hlast, hmore, hnext, hlink⟩ := hfits
  obtain ⟨len, hlen⟩ := Int.eq_ofNat_of_zero_le hpos
  rw [hlen] at hover hlast hmore hnext
  rw [h.list.node] at hmore hnext hlink
  rw [fragStart] at hpre hle hlast hmore hnext
  have hdiv : ((len : Int) + 7).tdiv 8 = (((len + 7) / 8 : Nat) : Int) :=
    (Int.ofNat_tdiv (len + 7) 8).symm
  rw [hdiv] at hover
  dsimp only at hmore hnext hlink
  refine ⟨len, hlen, hpre, hle, Nat.le_add_right _ _, by omega, ?_, ?_, ?_, ?_⟩
  · intro hmf
    obtain ⟨hstart, h16⟩ := hlast hmf
    omega
  · intro hmf hlt
    obtain ⟨hdvd, hroom⟩ := hmore hmf (by omega)
    omega
  · intro j hj
    have hne : post ≠ [] := by
      rintro rfl
      exact (List.not_mem_nil hj).elim
    have hhead : headIdx 0 post ≠ 0 := fun hzero => hne (h.list.next_zero.mp hzero)
    have hstop := hnext.resolve_left hhead
    have hfirst := h.list.head_le hj
    omega
  · intro hk
    by_cases hnil : pre = []
    · exact .inl hnil
    · refine .inr ((hlink hk).resolve_left fun hfirst => ?_)
      have hmem := headIdx_mem (n := k) hnil
      rw [h.list.first, headIdx_append_cons] at hfirst
      exact (h.list.pre_before hmem).ne hfirst.symm

theorem fragStop_toU32 {len : Nat} (hlen : fragLen ip = len) :
    toU32 (fragStart ip + fragLen ip) = fragOffset8 ip * 8 + len := by
  have hoff : fragOffset8 ip ≤ ipOffs := Nat.and_le_right
  have hip := be16_lt ip 2
  rw [ipOffs] at hoff
  rw [hlen, fragStart, ← Int.natCast_add]
  refine toU32_ofNat ?_
  rw [fragLen] at hlen
  omega

structure Placed (size : Nat) (fs : List Arrival) (a : Arrival) (s' : Defrag) (out : Option Nat) :
    Prop where
  pending : out = none → ∃ hs, Assembling size s' (a :: fs) hs
  whole : ∀ total ∈ out, total = s'.totalLen + ipHdrSize ∧
    ∀ i < s'.totalLen, ByteOf (a :: fs) s'.pktBuff i

theorem Assembling.placed (h : Assembling size s fs hs) (a : Arrival) :
    Placed size fs a s none := by
  refine ⟨fun _ => ⟨hs, h.list, h.ne, h.aligned, h.total, ?_⟩, fun total ht => by cases ht⟩
  intro i hi
  exact (h.bytes i hi).imp id fun hbyte => hbyte.cons a

theorem placeFragment_spec (hsize : ipHdrSize ≤ size)
    (h : Assembling size s fs (pre ++ (k, l) :: post)) (hid : be16 s.pktBuff 4 = be16 a.ip 4)
    (hfar : tooFar size a.ip = false) (hn : be16 a.ip 2 ≤ n)
    (hpre : ∀ c ∈ pre, c.2 < fragStart a.ip) (hle : fragStart a.ip ≤ l)
    (hover : ¬((fragOffset8 a.ip : Int) + (fragLen a.ip + 7).tdiv 8 ≤ k))
    (hfits : HoleFits size s a.ip k) :
    ∃ s' out, placeFragment size a.ip n k s = some (s', out) ∧ Placed size fs a s' out := by
  obtain ⟨len, hlen, hcuts⟩ := hfits.cuts h hpre hle hover
  obtain ⟨s₁, done, s₂, hs, htrunc, hfix, hleft⟩ := hcuts.fix h
  have hstop := fragStop_toU32 hlen
  have hroom : fragOffset8 a.ip * 8 + len ≤ size - ipHdrSize := by
    rw [tooFar, hstop] at hfar
    exact Nat.le_of_not_lt (of_decide_eq_false hfar)
  have hcopy : copyIn size (holeAddr (fragOffset8 a.ip)) a.ip n ipHdrSize len s₂.pktBuff =
      some (copy s₂.pktBuff (holeAddr (fragOffset8 a.ip)) (shift a.ip ipHdrSize) len) := by
    refine if_pos ⟨by omega, ?_, ?_⟩
    · rw [holeAddr]
      omega
    · rw [fragLen] at hlen
      omega
  have hbytes := hleft.copied rfl hlen hid
  rw [placeFragment, hstop, htrunc]
  simp only [Option.bind_eq_bind, Option.bind_some]
  rw [hlen, hfix, Option.bind_some]
  dsimp only
  rw [hcopy, Option.bind_some]
  cases done with
  | false =>
    obtain ⟨hne, hlist⟩ := hleft.list rfl
    refine ⟨_, _, rfl, ⟨fun _ => ⟨hs, ?_, hne, hleft.aligned, hleft.total, hbytes⟩,
      fun total ht => by cases ht⟩⟩
    refine hlist.copy _ len (fun j hj => ?_) s₂.totalLen
    have hapart := hleft.apart j hj
    omega
  | true =>
    have hbehind (j : Nat) (hj : 4 ≤ j) (b : Buf) (v : Nat) : putBe16 b 2 v j = b j :=
      store_of_ge hj
    refine ⟨_, _, rfl, ⟨fun hnone => absurd hnone (Option.some_ne_none _), ?_⟩⟩
    rintro total ⟨⟩
    refine ⟨rfl, fun i hi => ?_⟩
    have hbyte := (hbytes i hi).resolve_left (by
      rw [hleft.finished rfl]
      exact not_inHoles_nil)
    refine hbyte.congr ?_ (hbehind _ (by rw [ipHdrSize]; omega) _ _)
    dsimp only
    rw [be16, be16, hbehind _ le_rfl, hbehind _ (by decide)]

theorem restart_spec (hsize : 28 ≤ size) (hn : ipHdrSize ≤ n) (s : Defrag) (fs : List Arrival) :
    ∃ s', restart size ip n s = some s' ∧ Assembling size s' fs [(0, 65535)] ∧
      be16 s'.pktBuff 4 = be16 ip 4 := by
  have hin : Inside size 0 := hsize
  obtain ⟨b₁, hlast, hdesc₁, -⟩ := writeLast (S := fun _ => True) hin (by decide : 65535 < 65536)
    trivial s.pktBuff
  obtain ⟨b₂, hnext, hdesc₂, -⟩ := writeNext (S := fun _ => True) hin (by decide : 0 < 65536)
    trivial b₁
  obtain ⟨b₃, hprev, hdesc₃, -⟩ := writePrev (S := fun _ => True) hin (by decide : 0 < 65536)
    trivial b₂
  have hcopy : copyIn size 0 ip n 0 ipHdrSize b₃ = some (copy b₃ 0 ip ipHdrSize) := by
    rw [copyIn, shift_zero]
    refine if_pos ⟨by decide, ?_, ?_⟩
    · rw [ipHdrSize]
      omega
    · omega
  have hkept : descriptors (copy b₃ 0 ip ipHdrSize) 0 = ⟨65535, 0, 0⟩ := by
    have hsame : descriptors (copy b₃ 0 ip ipHdrSize) 0 = descriptors b₃ 0 := by
      refine descriptors_congr fun x hx => copy_of_ge ?_
      rw [InDesc, holeAddr] at hx
      omega
    rw [hsame, hdesc₃, hdesc₂, hdesc₁]
    simp only [setVal, setNext, setPrev, setNode_self]
  rw [restart, hlast]
  simp only [Option.bind_eq_bind, Option.bind_some, hnext, hprev, hcopy]
  refine ⟨_, rfl, ⟨⟨rfl, ⟨hkept, trivial⟩, spaced_single (by decide), ?_⟩, List.cons_ne_nil _ _,
    aligned_single.mpr (.inr rfl), le_rfl, ?_⟩, ?_⟩
  · intro h hh
    rw [List.mem_singleton.mp hh]
    exact hin
  · intro i hi
    exact .inl (inHoles_single.mpr ⟨Nat.zero_le i, hi⟩)
  · have hbyte (j : Nat) (hj : j < ipHdrSize) : copy b₃ 0 ip ipHdrSize j = ip j := by
      have hinside := copy_inside b₃ 0 ip hj
      rwa [Nat.zero_add] at hinside
    dsimp only
    rw [be16, be16, hbyte 4 (by decide), hbyte (4 + 1) (by decide)]

theorem restartIfNew_spec (hsize : 28 ≤ size) (hn : ipHdrSize ≤ n)
    (h : newPacket s ip = false → ∃ hs, Assembling size s fs hs) :
    ∃ s' hs, restartIfNew size ip n s = some s' ∧ Assembling size s' fs hs ∧
      be16 s'.pktBuff 4 = be16 ip 4 := by
  rw [restartIfNew]
  cases hnew : newPacket s ip with
  | true =>
    obtain ⟨s', hrestart, hrest⟩ := restart_spec hsize hn s fs
    exact ⟨s', _, hrestart, hrest⟩
  | false =>
    obtain ⟨hs, hlist⟩ := h hnew
    rw [newPacket, decide_eq_false_iff_not, not_or, not_not] at hnew
    exact ⟨s, hs, rfl, hlist, hnew.2⟩

theorem PassesChecks.received (h : PassesChecks a) :
    ipHdrSize ≤ a.len.toNat ∧ be16 a.ip 2 ≤ a.len.toNat := by
  obtain ⟨hlen, hip, -⟩ := h
  rw [ipUdpHdrSize, toU32] at hlen
  rw [ipHdrSize]
  omega

theorem netDefragment_spec (hsize : 28 ≤ size) (hp : PassesChecks a)
    (hfar : tooFar size a.ip = false)
    (hinv : newPacket s a.ip = false → ∃ hs, Assembling size s fs hs)
    (hfits : ∀ s' ∈ restartIfNew size a.ip a.len.toNat s,
      ∀ h ∈ (findHole size s'.pktBuff (fragStart a.ip) holeFuel s'.firstHole).join,
        fragOffset8 a.ip + (fragLen a.ip + 7).tdiv 8 ≤ h ∨ HoleFits size s' a.ip h) :
    ∃ s' out,
      (∀ fuel, holeFuel ≤ fuel →
        netDefragment size fuel s a.ip a.len.toNat = some (s', out)) ∧
      Placed size fs a s' out := by
  obtain ⟨hn, hip⟩ := hp.received
  obtain ⟨s₁, hs, hrestart, hlist, hid⟩ := restartIfNew_spec hsize hn hinv
  have hsearched (fuel : Nat) (found : Option Nat)
      (hfound : findHole size s₁.pktBuff (fragStart a.ip) fuel s₁.firstHole = some found) :
      netDefragment size fuel s a.ip a.len.toNat =
        found.elim (some (s₁, none)) fun h =>
          if fragOffset8 a.ip + (fragLen a.ip + 7).tdiv 8 ≤ h then some (s₁, none)
          else placeFragment size a.ip a.len.toNat h s₁ := by
    rw [netDefragment, if_neg (Nat.not_lt.mpr hn), hfar, if_neg Bool.false_ne_true, hrestart]
    simp only [Option.bind_eq_bind, Option.bind_some, hfound]
    cases found with
    | none => rfl
    | some h => rfl
  have hsearch := findHole_spec s₁.pktBuff (fragStart a.ip) hs 0 holeFuel hlist.list.links
    hlist.list.spaced hlist.list.inside hlist.ne hlist.list.length_le
  rw [← hlist.list.first] at hsearch
  rcases hsearch with hnone | ⟨pre, k, l, post, rfl, hpre, hle, hfound⟩
  · exact ⟨s₁, none, fun fuel hfuel => hsearched fuel none (findHole_mono hfuel _ hnone),
      hlist.placed a⟩
  · by_cases hover : (fragOffset8 a.ip : Int) + (fragLen a.ip + 7).tdiv 8 ≤ k
    · refine ⟨s₁, none, fun fuel hfuel => ?_, hlist.placed a⟩
      rw [hsearched fuel (some k) (findHole_mono hfuel _ hfound), Option.elim_some, if_pos hover]
    · have hhole : HoleFits size s₁ a.ip k := by
        refine (hfits s₁ hrestart k ?_).resolve_left hover
        rw [hfound]
        rfl
      obtain ⟨s', out, hplace, hplaced⟩ := placeFragment_spec (by rw [ipHdrSize]; omega) hlist hid
        hfar hip hpre hle hover hhole
      refine ⟨s', out, fun fuel hfuel => ?_, hplaced⟩
      rw [hsearched fuel (some k) (findHole_mono hfuel _ hfound), Option.elim_some, if_neg hover,
        hplace]

def Tracks (size : Nat) (r : Reassembly) : Prop :=
  r.assembled = false → r.defrag.totalLen ≠ 0 → ∃ hs, Assembling size r.defrag r.received hs

theorem tracks_init (size : Nat) : Tracks size Reassembly.init := fun _ htotal => absurd rfl htotal

variable {r : Reassembly}

theorem Tracks.defragment (hsize : 28 ≤ size) (hp : PassesChecks a)
    (hfar : tooFar size a.ip = false) (hfits : FragmentFits size r a) (h : Tracks size r) :
    ∃ s out,
      (∀ fuel, holeFuel ≤ fuel →
        netDefragment size fuel r.defrag a.ip a.len.toNat = some (s, out)) ∧
      Placed size r.received a s out := by
  obtain ⟨hrestarted, hholes⟩ := hfits hp hfar
  refine netDefragment_spec hsize hp hfar (fun hold => ?_) hholes
  have hopen : r.assembled = false := by
    refine Bool.eq_false_iff.mpr fun hassembled => ?_
    rw [hrestarted hassembled] at hold
    cases hold
  refine h hopen fun hzero => ?_
  rw [newPacket, decide_eq_false_iff_not] at hold
  exact hold (.inl hzero)

theorem netDefragment_tooFar (hp : PassesChecks a) (hfar : tooFar size a.ip = true) (s : Defrag)
    (fuel : Nat) : netDefragment size fuel s a.ip a.len.toNat = some (s, none) := by
  rw [netDefragment, if_neg (Nat.not_lt.mpr hp.received.1), if_pos hfar]
  rfl

theorem Tracks.right (hsize : 28 ≤ size) (hfits : FragmentFits size r a) (h : Tracks size r) :
    FragmentRight size r a := by
  intro hp
  cases hfar : tooFar size a.ip with
  | true =>
    exact ⟨r.defrag, none, fun fuel _ => netDefragment_tooFar hp hfar r.defrag fuel,
      fun total ht => by cases ht⟩
  | false =>
    obtain ⟨s, out, hcall, hplaced⟩ := h.defragment hsize hp hfar hfits
    exact ⟨s, out, hcall, hplaced.whole⟩

theorem Tracks.step (hsize : 28 ≤ size) (hfits : FragmentFits size r a) (h : Tracks size r) :
    Tracks size (receiveFragment size r a) := by
  rw [receiveFragment]
  by_cases hp : PassesChecks a
  · rw [if_pos hp]
    cases hfar : tooFar size a.ip with
    | true =>
      rw [netDefragment_tooFar hp hfar]
      have hsame : (r.assembled && !restarts size r.defrag a.ip) = r.assembled := by
        rw [restarts, hfar, Bool.not_true, Bool.false_and, Bool.not_false, Bool.and_true]
      dsimp only
      rw [hsame]
      intro hopen htotal
      obtain ⟨hs, hlist⟩ := h hopen htotal
      exact (hlist.placed a).pending rfl
    | false =>
      obtain ⟨s, out, hcall, hplaced⟩ := h.defragment hsize hp hfar hfits
      rw [hcall holeFuel le_rfl]
      cases out with
      | none => exact fun _ _ => hplaced.pending rfl
      | some total => exact fun hopen => by cases hopen
  · rw [if_neg hp]
    exact h

theorem defragment_right (size : Nat) (hsize : 28 ≤ size) (as : List Arrival)
    (h : Meets (receiveFragment size) (FragmentFits size) Reassembly.init as) :
    Meets (receiveFragment size) (FragmentRight size) Reassembly.init as := by
  have hstep : Preserves (receiveFragment size) (FragmentFits size) (Tracks size) :=
    fun _ _ hfits htracks => htracks.step hsize hfits
  exact hstep.meets (fun _ _ hfits htracks => htracks.right hsize hfits) (tracks_init size) h

def fragmentOf8 (ipOff : Nat) : Arrival where
  ourIP := 0
  ip :=
    let ip := store (fun _ => 7) 0 [0x45, 0, 0, 28, 0, 1, 0, 0, 255, ipprotoUDP, 0, 0]
    let ip := putBe16 ip 6 ipOff
    putLe16 ip 10 (65535 - netCksum ip (ipHdrSize / 2))
  len := 28
  handled := id

theorem defragment_right_two :
    (run (receiveFragment 64) Reassembly.init [fragmentOf8 0x2000, fragmentOf8 1]).assembled ∧
      Meets (receiveFragment 64) (FragmentRight 64) Reassembly.init
        [fragmentOf8 0x2000, fragmentOf8 1] :=
  ⟨by decide +kernel, defragment_right 64 (by decide) _ (by decide +kernel)⟩

-- The hole behind bytes 8 to 15 has prev_hole 0 though the one at index 0 is left.
theorem defragment_without_start :
    ¬∀ size, 28 ≤ size → ∀ as : List Arrival,
      Meets (receiveFragment size) (FragmentRight size) Reassembly.init as := by
  intro hall
  obtain ⟨-, hsecond, -⟩ := hall 64 (by decide) [fragmentOf8 0x2001, fragmentOf8 2]
  obtain ⟨s, out, hcall, hwhole⟩ := hsecond (by decide +kernel)
  have hresult : (netDefragment 64 holeFuel
      (receiveFragment 64 Reassembly.init (fragmentOf8 0x2001)).defrag (fragmentOf8 2).ip 28).map
        (fun result => (result.1.totalLen, result.2)) = some (24, some 44) := by decide +kernel
  have hcalled := hcall holeFuel le_rfl
  rw [show (fragmentOf8 2).len.toNat = 28 from rfl] at hcalled
  rw [hcalled] at hresult
  injection hresult with hresult
  obtain ⟨htotal, rfl⟩ := Prod.mk.inj hresult
  have hpos : 0 < s.totalLen := htotal ▸ (by decide)
  obtain ⟨f, hf, -, ⟨hstart, -⟩, -⟩ := (hwhole 44 rfl).2 0 hpos
  have hbehind : ∀ f ∈ [fragmentOf8 2, fragmentOf8 0x2001], 0 < fragStart f.ip := by
    decide +kernel
  have hafter : 0 < fragStart f.ip := hbehind f hf
  omega

end NonOsLite
